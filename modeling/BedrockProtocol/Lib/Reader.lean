import BedrockProtocol.Lib.Outcome
import Mathlib.Data.List.Basic
import Mathlib.Tactic.Ring

/-!
# Byte cursors and exact readers

A reader consumes a prefix of the bytes in front of a cursor and either
returns a value or stops with a message.  `Reads r bytes a` says that `r`
consumes exactly `bytes`, whatever follows, and returns `a`; it composes along
the monad, so the round trip of a composite format follows the shape of the
code that reads it.
-/

namespace BedrockProtocol

/-- A position in a byte sequence: how much was consumed and what is left. -/
structure Cursor where
  offset : ℕ
  rest : List UInt8
  deriving DecidableEq, Repr

/-- The cursor at the first byte of a buffer. -/
def Cursor.start (bytes : List UInt8) : Cursor := ⟨0, bytes⟩

def Cursor.remaining (c : Cursor) : ℕ := c.rest.length

abbrev Reader := StateT Cursor (Except String)

namespace Reader

/-- The next `n` bytes, all of them or none. -/
def take (n : ℕ) (short : Cursor → String) : Reader (List UInt8) := fun c ↦
  if n ≤ c.rest.length then
    .ok (c.rest.take n, ⟨c.offset + n, c.rest.drop n⟩)
  else .error (short c)

/-- The next byte. -/
def byte (short : Cursor → String) : Reader UInt8 := fun c ↦
  match c.rest with
  | [] => .error (short c)
  | b :: rest => .ok (b, ⟨c.offset + 1, rest⟩)

def remaining : Reader ℕ := fun c ↦ .ok (c.remaining, c)

/-- The next byte, without consuming it. -/
def peek : Reader (Option UInt8) := fun c ↦ .ok (c.rest.head?, c)

/-- The value of a reader together with the bytes it consumed. -/
def captured {α : Type} (r : Reader α) : Reader (α × List UInt8) := fun c ↦
  match r c with
  | .ok (a, c') => .ok ((a, c.rest.take (c'.offset - c.offset)), c')
  | .error e => .error e

def offset : Reader ℕ := fun c ↦ .ok (c.offset, c)

/-- A reader whose message is rephrased. -/
def mapError {α : Type} (f : String → String) (r : Reader α) : Reader α := fun c ↦
  (r c).mapError f

/-- Run the same reader `n` times and collect the values. -/
def many {α : Type} (r : Reader α) : ℕ → Reader (List α)
  | 0 => pure []
  | n + 1 => do
      let a ← r
      let as ← many r n
      pure (a :: as)

/-- Run the same reader `n` times into a list that is known to have `n` elements. -/
def manyExactly {α : Type} (r : Reader α) : (n : ℕ) → Reader {as : List α // as.length = n}
  | 0 => pure ⟨[], rfl⟩
  | n + 1 => do
      let a ← r
      let as ← manyExactly r n
      pure ⟨a :: as.1, by simp [as.2]⟩

/-- Run the same reader until the buffer is used up; `fuel` bounds the turns. -/
def untilEnd {α : Type} (r : Reader α) : ℕ → Reader (List α)
  | 0 => pure []
  | fuel + 1 => do
      if (← remaining) = 0 then pure []
      else
        let a ← r
        let as ← untilEnd r fuel
        pure (a :: as)

/-- Read a whole buffer, element after element.  An element takes at least one
byte, so the length of the buffer is enough turns. -/
def all {α : Type} (r : Reader α) (bytes : List UInt8) : Except String (List α) :=
  Prod.fst <$> untilEnd r bytes.length (Cursor.start bytes)

/-- A step that is known to succeed. -/
theorem bind_run {α β : Type} {r : Reader α} {k : α → Reader β} {c c' : Cursor} {a : α}
    (h : r c = .ok (a, c')) : (r >>= k) c = k a c' := by
  change (r c >>= fun p ↦ k p.1 p.2) = _
  rw [h]
  rfl

/-- A step that is known to fail. -/
theorem bind_error {α β : Type} {r : Reader α} {k : α → Reader β} {c : Cursor} {e : String}
    (h : r c = .error e) : (r >>= k) c = .error e := by
  change (r c >>= fun p ↦ k p.1 p.2) = _
  rw [h]
  rfl

/-- A sequence that succeeded, taken apart. -/
theorem run_bind_eq_ok {α β : Type} {r : Reader α} {k : α → Reader β} {c : Cursor}
    {p : β × Cursor} (h : (r >>= k) c = .ok p) :
    ∃ a c', r c = .ok (a, c') ∧ k a c' = .ok p := by
  change (r c >>= fun p ↦ k p.1 p.2) = _ at h
  obtain ⟨⟨a, c'⟩, hfirst, hrest⟩ := bind_eq_ok.mp h
  exact ⟨a, c', hfirst, hrest⟩

theorem offset_run {β : Type} (k : ℕ → Reader β) (c : Cursor) :
    (offset >>= k) c = k c.offset c := rfl

/-- A computation that reads nothing leaves the cursor where it is. -/
theorem lift_eq_ok {α : Type} {x : Except String α} {c c' : Cursor} {a : α} :
    (liftM x : Reader α) c = .ok (a, c') ↔ x = .ok a ∧ c = c' := by
  constructor
  · intro h
    obtain ⟨a', hx, hp⟩ := bind_eq_ok.mp h
    cases hp
    exact ⟨hx, rfl⟩
  · rintro ⟨rfl, rfl⟩
    rfl

theorem captured_eq_ok {α : Type} {r : Reader α} {c c' : Cursor} {a : α} {bytes : List UInt8} :
    captured r c = .ok ((a, bytes), c') ↔
      r c = .ok (a, c') ∧ bytes = c.rest.take (c'.offset - c.offset) := by
  rw [captured]
  cases hrun : r c with
  | error e => simp
  | ok p =>
      obtain ⟨a₁, c₁⟩ := p
      constructor
      · intro h
        cases h
        exact ⟨rfl, rfl⟩
      · rintro ⟨h, rfl⟩
        cases h
        rfl

theorem mapError_eq_ok {α : Type} {f : String → String} {r : Reader α} {c : Cursor}
    {p : α × Cursor} : mapError f r c = .ok p ↔ r c = .ok p := by
  rw [mapError]
  cases r c with
  | error e => simp [Except.mapError]
  | ok q => rfl

theorem remaining_run {β : Type} (k : ℕ → Reader β) (c : Cursor) :
    (remaining >>= k) c = k c.rest.length c := rfl

end Reader

/-- The readers accept the same inputs with the same results; their messages may differ. -/
def Reader.Alike {α : Type} (r r' : Reader α) : Prop := ∀ c p, r c = .ok p ↔ r' c = .ok p

namespace Reader.Alike

variable {α β : Type} {r r' : Reader α}

theorem refl (r : Reader α) : Alike r r := fun _ _ ↦ Iff.rfl

theorem throw (e e' : String) : Alike (throw e : Reader α) (throw e') :=
  fun _ _ ↦ iff_of_false (fun h ↦ by cases h) fun h ↦ by cases h

theorem bind {k k' : α → Reader β} (hr : Alike r r') (hk : ∀ a, Alike (k a) (k' a)) :
    Alike (r >>= k) (r' >>= k') := by
  intro c p
  constructor
  · intro h
    obtain ⟨a, c', hfirst, hrest⟩ := Reader.run_bind_eq_ok h
    rw [Reader.bind_run ((hr c _).mp hfirst)]
    exact (hk a c' p).mp hrest
  · intro h
    obtain ⟨a, c', hfirst, hrest⟩ := Reader.run_bind_eq_ok h
    rw [Reader.bind_run ((hr c _).mpr hfirst)]
    exact (hk a c' p).mpr hrest

theorem map (f : α → β) (hr : Alike r r') : Alike (f <$> r) (f <$> r') := by
  rw [map_eq_pure_bind, map_eq_pure_bind]
  exact hr.bind fun a ↦ refl (Pure.pure (f a))

theorem many (hr : Alike r r') (n : ℕ) : Alike (Reader.many r n) (Reader.many r' n) := by
  induction n with
  | zero => exact refl _
  | succ n ih => exact hr.bind fun a ↦ ih.bind fun as ↦ refl _

theorem byte (short short' : Cursor → String) : Alike (Reader.byte short) (Reader.byte short') := by
  intro c p
  obtain ⟨offset, rest⟩ := c
  cases rest with
  | nil => exact iff_of_false (fun h ↦ by cases h) fun h ↦ by cases h
  | cons b rest => exact Iff.rfl

end Reader.Alike

/-- A list of known length is read like any list. -/
theorem Reader.manyExactly_eq_ok {α : Type} {r : Reader α} {n : ℕ} {c c' : Cursor}
    {as : {as : List α // as.length = n}} :
    Reader.manyExactly r n c = .ok (as, c') ↔ Reader.many r n c = .ok (as.1, c') := by
  induction n generalizing c with
  | zero =>
      obtain ⟨as, has⟩ := as
      obtain rfl := List.length_eq_zero_iff.mp has
      constructor
      · intro h
        cases h
        rfl
      · intro h
        cases h
        rfl
  | succ n ih =>
      obtain ⟨as, has⟩ := as
      constructor
      · intro h
        obtain ⟨a, c₁, hfirst, h⟩ := Reader.run_bind_eq_ok h
        obtain ⟨rest, c₂, hrest, h⟩ := Reader.run_bind_eq_ok h
        cases h
        rw [Reader.many, Reader.bind_run hfirst, Reader.bind_run (ih.mp hrest)]
        rfl
      · intro h
        obtain ⟨a, c₁, hfirst, h⟩ := Reader.run_bind_eq_ok h
        obtain ⟨rest, c₂, hrest, h⟩ := Reader.run_bind_eq_ok h
        cases h
        have hlength : rest.length = n := Nat.succ.inj has
        rw [Reader.manyExactly, Reader.bind_run hfirst,
          Reader.bind_run ((@ih c₁ ⟨rest, hlength⟩).mpr hrest)]
        rfl

/-- Whatever `r` returns, from any cursor, satisfies `P`. -/
def Yields {α : Type} (r : Reader α) (P : α → Prop) : Prop :=
  ∀ c a c', r c = .ok (a, c') → P a

namespace Yields

variable {α β : Type} {r : Reader α} {P : α → Prop}

theorem trivial (r : Reader α) : Yields r fun _ ↦ True := fun _ _ _ _ ↦ True.intro

theorem pure {a : α} (h : P a) : Yields (Pure.pure a : Reader α) P := by
  intro c a' c' hrun
  cases hrun
  exact h

theorem throw (e : String) : Yields (throw e : Reader α) P := by
  intro c a c' hrun
  cases hrun

theorem bind {k : α → Reader β} {Q : β → Prop} (hr : Yields r P)
    (hk : ∀ a, P a → Yields (k a) Q) : Yields (r >>= k) Q := by
  intro c b c'' hrun
  change (r c >>= fun p ↦ k p.1 p.2) = _ at hrun
  obtain ⟨⟨a, c'⟩, hfirst, hrest⟩ := bind_eq_ok.mp hrun
  exact hk a (hr c a c' hfirst) c' b c'' hrest

/-- A first step about which nothing is needed. -/
theorem bind_any {k : α → Reader β} {Q : β → Prop} (hk : ∀ a, Yields (k a) Q) :
    Yields (r >>= k) Q := (Yields.trivial r).bind fun a _ ↦ hk a

theorem map {f : α → β} {Q : β → Prop} (hr : Yields r fun a ↦ Q (f a)) : Yields (f <$> r) Q := by
  intro c b c' hrun
  change Except.map (fun p : α × Cursor ↦ (f p.1, p.2)) (r c) = _ at hrun
  obtain ⟨⟨a, c₁⟩, hfirst, hp⟩ := map_eq_ok.mp hrun
  cases hp
  exact hr c a c₁ hfirst

theorem lift {x : Except String α} (h : ∀ a, x = .ok a → P a) :
    Yields (liftM x : Reader α) P := by
  intro c a c' hrun
  change (x >>= fun a ↦ Except.ok (a, c)) = _ at hrun
  obtain ⟨a', hx, hp⟩ := bind_eq_ok.mp hrun
  cases hp
  exact h a hx

theorem mono {Q : α → Prop} (hr : Yields r P) (h : ∀ a, P a → Q a) : Yields r Q :=
  fun c a c' hrun ↦ h a (hr c a c' hrun)

theorem many (hr : Yields r P) (n : ℕ) :
    Yields (Reader.many r n) fun as ↦ as.length = n ∧ ∀ a ∈ as, P a := by
  induction n with
  | zero => exact Yields.pure ⟨rfl, by simp⟩
  | succ n ih =>
      refine hr.bind fun a ha ↦ ih.bind fun as has ↦ Yields.pure ⟨by simp [has.1], ?_⟩
      simpa [ha] using has.2

theorem untilEnd (hr : Yields r P) (fuel : ℕ) :
    Yields (Reader.untilEnd r fuel) fun as ↦ ∀ a ∈ as, P a := by
  induction fuel with
  | zero => exact Yields.pure (by simp)
  | succ fuel ih =>
      refine Yields.bind_any fun remaining ↦ ?_
      split
      · exact Yields.pure (by simp)
      · exact hr.bind fun a ha ↦ ih.bind fun as has ↦ Yields.pure (by simpa [ha] using has)

theorem all (hr : Yields r P) {bytes : List UInt8} {as : List α}
    (h : Reader.all r bytes = .ok as) : ∀ a ∈ as, P a := by
  obtain ⟨⟨as', cursor⟩, hrun, rfl⟩ := map_eq_ok.mp h
  exact hr.untilEnd _ _ _ _ hrun

theorem take (n : ℕ) (short : Cursor → String) :
    Yields (Reader.take n short) fun bytes ↦ bytes.length = n := by
  intro c bytes c' hrun
  unfold Reader.take at hrun
  split at hrun
  · rename_i hle
    cases hrun
    simpa using hle
  · cases hrun

end Yields

/-- `r` takes at least `k` bytes when it succeeds. -/
def Consumes {α : Type} (r : Reader α) (k : ℕ) : Prop :=
  ∀ c a c', r c = .ok (a, c') → c'.rest.length + k ≤ c.rest.length

namespace Consumes

variable {α β : Type} {r : Reader α} {k l : ℕ}

theorem pure (a : α) : Consumes (Pure.pure a : Reader α) 0 := by
  intro c a' c' hrun
  cases hrun
  exact le_rfl

theorem throw (e : String) : Consumes (throw e : Reader α) k := by
  intro c a c' hrun
  cases hrun

theorem bind {f : α → Reader β} (hr : Consumes r k) (hf : ∀ a, Consumes (f a) l) :
    Consumes (r >>= f) (k + l) := by
  intro c b c'' hrun
  change (r c >>= fun p ↦ f p.1 p.2) = _ at hrun
  obtain ⟨⟨a, c'⟩, hfirst, hrest⟩ := bind_eq_ok.mp hrun
  have hfirst := hr c a c' hfirst
  have hrest := hf a c' b c'' hrest
  omega

theorem map {f : α → β} (hr : Consumes r k) : Consumes (f <$> r) k := by
  intro c b c' hrun
  change Except.map (fun p : α × Cursor ↦ (f p.1, p.2)) (r c) = _ at hrun
  obtain ⟨⟨a, c₁⟩, hfirst, hp⟩ := map_eq_ok.mp hrun
  cases hp
  exact hr c a c₁ hfirst

theorem mono (hr : Consumes r k) (h : l ≤ k) : Consumes r l :=
  fun c a c' hrun ↦ (Nat.add_le_add_left h _).trans (hr c a c' hrun)

theorem take {n : ℕ} {short : Cursor → String} : Consumes (Reader.take n short) n := by
  intro c a c' hrun
  unfold Reader.take at hrun
  split at hrun
  · cases hrun
    simp only [List.length_drop]
    omega
  · cases hrun

theorem many (hr : Consumes r k) (n : ℕ) : Consumes (Reader.many r n) (n * k) := by
  induction n with
  | zero =>
      rw [Nat.zero_mul]
      exact Consumes.pure []
  | succ n ih =>
      have hstep := hr.bind fun a ↦ ih.bind fun as ↦ Consumes.pure (a :: as)
      exact hstep.mono (by rw [Nat.succ_mul]; omega)

theorem manyExactly (hr : Consumes r k) (n : ℕ) : Consumes (Reader.manyExactly r n) (n * k) := by
  induction n with
  | zero =>
      rw [Nat.zero_mul]
      exact Consumes.pure _
  | succ n ih =>
      have hstep := hr.bind fun a ↦ ih.bind fun as ↦
        Consumes.pure (⟨a :: as.1, by simp [as.2]⟩ : {as : List α // as.length = n + 1})
      exact hstep.mono (by rw [Nat.succ_mul]; omega)

end Consumes

/-- When `r` succeeds, the cursor has moved over the bytes that were consumed. -/
def Advances {α : Type} (r : Reader α) : Prop :=
  ∀ c a c', r c = .ok (a, c') → ∃ n, c' = ⟨c.offset + n, c.rest.drop n⟩

namespace Advances

variable {α β : Type} {r : Reader α}

theorem pure (a : α) : Advances (Pure.pure a : Reader α) := by
  intro c a' c' hrun
  cases hrun
  exact ⟨0, rfl⟩

theorem throw (e : String) : Advances (throw e : Reader α) := by
  intro c a c' hrun
  cases hrun

theorem lift (x : Except String α) : Advances (liftM x : Reader α) := by
  intro c a c' hrun
  change (x >>= fun a ↦ Except.ok (a, c)) = _ at hrun
  obtain ⟨a', -, hp⟩ := bind_eq_ok.mp hrun
  cases hp
  exact ⟨0, rfl⟩

theorem bind {k : α → Reader β} (hr : Advances r) (hk : ∀ a, Advances (k a)) :
    Advances (r >>= k) := by
  intro c b c'' hrun
  obtain ⟨a, c', hfirst, hrest⟩ := Reader.run_bind_eq_ok hrun
  obtain ⟨n, rfl⟩ := hr c a c' hfirst
  obtain ⟨m, rfl⟩ := hk a _ b c'' hrest
  exact ⟨n + m, by rw [Nat.add_assoc, List.drop_drop]⟩

theorem map (f : α → β) (hr : Advances r) : Advances (f <$> r) := by
  rw [map_eq_pure_bind]
  exact hr.bind fun a ↦ pure (f a)

theorem byte (short : Cursor → String) : Advances (Reader.byte short) := by
  rintro ⟨offset, rest⟩ b c' hrun
  cases rest with
  | nil => cases hrun
  | cons x rest =>
      cases hrun
      exact ⟨1, rfl⟩

theorem take (n : ℕ) (short : Cursor → String) : Advances (Reader.take n short) := by
  intro c bytes c' hrun
  unfold Reader.take at hrun
  split at hrun
  · cases hrun
    exact ⟨n, rfl⟩
  · cases hrun

theorem many (hr : Advances r) (n : ℕ) : Advances (Reader.many r n) := by
  induction n with
  | zero => exact pure []
  | succ n ih => exact hr.bind fun a ↦ ih.bind fun as ↦ pure (a :: as)

end Advances

/-- When `r` returns `a`, the bytes it consumed satisfy `P` together with `a`. -/
def Recognizes {α : Type} (r : Reader α) (P : List UInt8 → α → Prop) : Prop :=
  ∀ c a c', r c = .ok (a, c') → ∃ bytes, c.rest = bytes ++ c'.rest ∧ P bytes a

namespace Recognizes

variable {α β : Type} {r : Reader α} {P : List UInt8 → α → Prop}

theorem pure {a : α} (h : P [] a) : Recognizes (Pure.pure a : Reader α) P := by
  intro c a' c' hrun
  cases hrun
  exact ⟨[], rfl, h⟩

theorem throw (e : String) : Recognizes (throw e : Reader α) P := by
  intro c a c' hrun
  cases hrun

theorem bind {k : α → Reader β} {Q : List UInt8 → β → Prop} (hr : Recognizes r P)
    (hk : ∀ xs a, P xs a → Recognizes (k a) fun ys b ↦ Q (xs ++ ys) b) :
    Recognizes (r >>= k) Q := by
  intro c b c'' hrun
  change (r c >>= fun p ↦ k p.1 p.2) = _ at hrun
  obtain ⟨⟨a, c'⟩, hfirst, hrest⟩ := bind_eq_ok.mp hrun
  obtain ⟨xs, hxs, hP⟩ := hr c a c' hfirst
  obtain ⟨ys, hys, hQ⟩ := hk xs a hP c' b c'' hrest
  exact ⟨xs ++ ys, by rw [hxs, hys, List.append_assoc], hQ⟩

theorem mono {Q : List UInt8 → α → Prop} (hr : Recognizes r P) (h : ∀ xs a, P xs a → Q xs a) :
    Recognizes r Q := by
  intro c a c' hrun
  obtain ⟨xs, hxs, hP⟩ := hr c a c' hrun
  exact ⟨xs, hxs, h xs a hP⟩

theorem map {f : α → β} (hr : Recognizes r P) :
    Recognizes (f <$> r) fun bytes b ↦ ∃ a, P bytes a ∧ b = f a := by
  rw [map_eq_pure_bind]
  exact hr.bind fun xs a ha ↦ .pure ⟨a, by rwa [List.append_nil], rfl⟩

/-- Element after element, each with its own bytes. -/
theorem many (hr : Recognizes r P) (n : ℕ) :
    Recognizes (Reader.many r n) fun bytes as ↦
      ∃ chunks, List.Forall₂ P chunks as ∧ as.length = n ∧ bytes = chunks.flatten := by
  induction n with
  | zero => exact .pure ⟨[], .nil, rfl, rfl⟩
  | succ n ih =>
      refine hr.bind fun xs a ha ↦ ih.bind ?_
      rintro _ as ⟨chunks, hall, hlength, rfl⟩
      refine .pure ⟨xs :: chunks, .cons ha hall, by rw [List.length_cons, hlength], ?_⟩
      rw [List.append_nil, List.flatten_cons]

theorem remaining_bind {k : ℕ → Reader α} (hk : ∀ n, Recognizes (k n) P) :
    Recognizes (Reader.remaining >>= k) P :=
  fun c a c' hrun ↦ hk c.rest.length c a c' hrun

theorem lift {x : Except String α} (h : ∀ a, x = .ok a → P [] a) :
    Recognizes (liftM x : Reader α) P := by
  intro c a c' hrun
  change (x >>= fun a ↦ Except.ok (a, c)) = _ at hrun
  obtain ⟨a', hx, hp⟩ := bind_eq_ok.mp hrun
  cases hp
  exact ⟨[], rfl, h a hx⟩

theorem byte {short : Cursor → String} :
    Recognizes (Reader.byte short) fun bytes b ↦ bytes = [b] := by
  rintro ⟨offset, rest⟩ b c' hrun
  cases rest with
  | nil => cases hrun
  | cons x rest =>
      cases hrun
      exact ⟨[b], rfl, rfl⟩

theorem take {n : ℕ} {short : Cursor → String} :
    Recognizes (Reader.take n short) fun bytes value ↦ bytes = value ∧ value.length = n := by
  intro c value c' hrun
  unfold Reader.take at hrun
  split at hrun
  · rename_i hle
    cases hrun
    exact ⟨_, (List.take_append_drop n c.rest).symm, rfl, by simpa using hle⟩
  · cases hrun

end Recognizes

/-- `r` consumes exactly `bytes` and returns `a`, from any offset and in front
of any suffix. -/
def Reads {α : Type} (r : Reader α) (bytes : List UInt8) (a : α) : Prop :=
  ∀ offset suffix, r ⟨offset, bytes ++ suffix⟩ =
    .ok (a, ⟨offset + bytes.length, suffix⟩)

namespace Reads

variable {α β : Type} {r : Reader α} {a : α}

theorem pure (a : α) : Reads (Pure.pure a : Reader α) [] a := fun _ _ ↦ rfl

theorem bind {k : α → Reader β} {b : β} {xs ys : List UInt8}
    (hr : Reads r xs a) (hk : Reads (k a) ys b) : Reads (r >>= k) (xs ++ ys) b := by
  intro offset suffix
  have h := hk (offset + xs.length) suffix
  change (r ⟨offset, xs ++ ys ++ suffix⟩ >>= fun p ↦ k p.1 p.2) = _
  rw [List.append_assoc, hr offset (ys ++ suffix)]
  simpa [Bind.bind, Except.bind, Nat.add_assoc] using h

/-- A step that consumes nothing. -/
theorem bind_nil {k : α → Reader β} {b : β} {ys : List UInt8}
    (hr : Reads r [] a) (hk : Reads (k a) ys b) : Reads (r >>= k) ys b := hr.bind hk

/-- A first step that consumes one byte. -/
theorem bind_cons {k : α → Reader β} {b : β} {x : UInt8} {ys : List UInt8}
    (hr : Reads r [x] a) (hk : Reads (k a) ys b) : Reads (r >>= k) (x :: ys) b := hr.bind hk

/-- A continuation that consumes nothing. -/
theorem bind_last {k : α → Reader β} {b : β} {xs : List UInt8}
    (hr : Reads r xs a) (hk : Reads (k a) [] b) : Reads (r >>= k) xs b := by
  simpa using hr.bind hk

theorem map {f : α → β} {xs : List UInt8} (hr : Reads r xs a) :
    Reads (f <$> r) xs (f a) := by
  intro offset suffix
  have h := hr offset suffix
  change (Except.map _ (r _)) = _
  simp [h, Except.map]

theorem captured {xs : List UInt8} (hr : Reads r xs a) :
    Reads (Reader.captured r) xs (a, xs) := by
  intro offset suffix
  rw [Reader.captured, hr offset suffix]
  simp

theorem mapError {f : String → String} {xs : List UInt8} (hr : Reads r xs a) :
    Reads (Reader.mapError f r) xs a := by
  intro offset suffix
  rw [Reader.mapError, hr offset suffix]
  rfl

/-- A check that succeeds consumes nothing. -/
theorem lift {x : Except String α} (h : x = .ok a) : Reads (liftM x : Reader α) [] a := by
  subst h
  exact Reads.pure a

/-- The value, the offset and the suffix at which a reader stops. -/
theorem start {xs : List UInt8} (hr : Reads r xs a) (suffix : List UInt8) :
    r (Cursor.start (xs ++ suffix)) = .ok (a, ⟨xs.length, suffix⟩) := by
  simpa [Cursor.start] using hr 0 suffix

theorem take {n : ℕ} {s : Cursor → String} (xs : List UInt8) (hn : xs.length = n) :
    Reads (Reader.take n s) xs xs := by
  intro offset suffix
  subst hn
  simp [Reader.take]

theorem byte {short : Cursor → String} (b : UInt8) : Reads (Reader.byte short) [b] b :=
  fun _ _ ↦ rfl

/-- Reading element after element inverts writing element after element. -/
theorem many {ι : Type} {f : ι → α} {write : ι → List UInt8} (is : List ι)
    (h : ∀ i ∈ is, Reads r (write i) (f i)) :
    Reads (Reader.many r is.length) (is.flatMap write) (is.map f) := by
  induction is with
  | nil => exact Reads.pure []
  | cons i is ih =>
      have hi := h i (by simp)
      have his := ih fun j hj ↦ h j (by simp [hj])
      simpa [Reader.many] using hi.bind (his.map (f := (f i :: ·)))

theorem manyExactly {ι : Type} {f : ι → α} {write : ι → List UInt8} (is : List ι)
    (h : ∀ i ∈ is, Reads r (write i) (f i)) {n : ℕ} (hn : is.length = n) :
    Reads (Reader.manyExactly r n) (is.flatMap write) ⟨is.map f, by simpa using hn⟩ := by
  subst hn
  induction is with
  | nil => exact Reads.pure _
  | cons i is ih =>
      have hi := h i (by simp)
      have his := ih fun j hj ↦ h j (by simp [hj])
      rw [List.flatMap_cons]
      exact hi.bind (his.bind_last (Reads.pure _))

end Reads

theorem untilEnd_flatMap {ι α : Type} {r : Reader α} {f : ι → α} {write : ι → List UInt8}
    (is : List ι) (hread : ∀ i ∈ is, Reads r (write i) (f i)) (hne : ∀ i ∈ is, write i ≠ [])
    (fuel offset : ℕ) (hfuel : (is.flatMap write).length ≤ fuel) :
    Reader.untilEnd r fuel ⟨offset, is.flatMap write⟩ =
      .ok (is.map f, ⟨offset + (is.flatMap write).length, []⟩) := by
  induction is generalizing fuel offset with
  | nil =>
      cases fuel with
      | zero => rfl
      | succ fuel => rfl
  | cons i is ih =>
      have hpos : 0 < (write i).length := List.length_pos_of_ne_nil (hne i (by simp))
      rw [List.flatMap_cons, List.length_append] at hfuel
      obtain ⟨fuel, rfl⟩ : ∃ f, fuel = f + 1 := ⟨fuel - 1, by omega⟩
      have hfirst := hread i (by simp) offset (is.flatMap write)
      have hrest := ih (fun j hj ↦ hread j (by simp [hj])) (fun j hj ↦ hne j (by simp [hj]))
        fuel (offset + (write i).length) (by omega)
      rw [Reader.untilEnd, List.flatMap_cons, Reader.remaining_run, List.length_append,
        if_neg (by omega), Reader.bind_run hfirst, Reader.bind_run hrest, Nat.add_assoc]
      rfl

/-- A buffer written element after element reads back as the elements. -/
theorem all_flatMap {ι α : Type} {r : Reader α} {f : ι → α} {write : ι → List UInt8}
    (is : List ι) (hread : ∀ i ∈ is, Reads r (write i) (f i)) (hne : ∀ i ∈ is, write i ≠ []) :
    Reader.all r (is.flatMap write) = .ok (is.map f) := by
  rw [Reader.all, Cursor.start, untilEnd_flatMap is hread hne _ 0 le_rfl]
  rfl

/-- A reader that looks at the remaining length first: the continuation only
has to be exact when at least `bytes` is left. -/
theorem reads_remaining_bind {β : Type} {k : ℕ → Reader β} {b : β} {bytes : List UInt8}
    (hk : ∀ n, bytes.length ≤ n → Reads (k n) bytes b) :
    Reads (Reader.remaining >>= k) bytes b := by
  intro offset suffix
  have h := hk (bytes ++ suffix).length (by simp) offset suffix
  exact h

/-- `r` consumes exactly `bytes` and returns `a` in front of any suffix that satisfies `P`. -/
def ReadsBefore {α : Type} (P : List UInt8 → Prop) (r : Reader α) (bytes : List UInt8) (a : α) :
    Prop :=
  ∀ offset suffix, P suffix → r ⟨offset, bytes ++ suffix⟩ =
    .ok (a, ⟨offset + bytes.length, suffix⟩)

theorem Reads.before {α : Type} {P : List UInt8 → Prop} {r : Reader α} {bytes : List UInt8} {a : α}
    (h : Reads r bytes a) : ReadsBefore P r bytes a := fun offset suffix _ ↦ h offset suffix

namespace ReadsBefore

variable {α β : Type} {P Q : List UInt8 → Prop} {r : Reader α} {a : α}

theorem reads {bytes : List UInt8} (h : ReadsBefore P r bytes a) (hP : ∀ suffix, P suffix) :
    Reads r bytes a := fun offset suffix ↦ h offset suffix (hP suffix)

theorem mono {bytes : List UInt8} (h : ReadsBefore P r bytes a) (hP : ∀ suffix, Q suffix → P suffix) :
    ReadsBefore Q r bytes a := fun offset suffix hQ ↦ h offset suffix (hP suffix hQ)

/-- What `r` needs of the suffix, the bytes of the continuation provide. -/
theorem bind {k : α → Reader β} {b : β} {xs ys : List UInt8} (hr : ReadsBefore P r xs a)
    (hk : ReadsBefore Q (k a) ys b) (hP : ∀ suffix, Q suffix → P (ys ++ suffix)) :
    ReadsBefore Q (r >>= k) (xs ++ ys) b := by
  intro offset suffix hQ
  rw [List.append_assoc, Reader.bind_run (hr offset (ys ++ suffix) (hP suffix hQ)),
    hk (offset + xs.length) suffix hQ, List.length_append, Nat.add_assoc]

/-- A step that consumes nothing. -/
theorem bind_nil {k : α → Reader β} {b : β} {ys : List UInt8} (hr : ReadsBefore P r [] a)
    (hk : ReadsBefore Q (k a) ys b) (hP : ∀ suffix, Q suffix → P (ys ++ suffix)) :
    ReadsBefore Q (r >>= k) ys b := hr.bind hk hP

/-- A continuation that consumes nothing. -/
theorem bind_last {k : α → Reader β} {b : β} {xs : List UInt8} (hr : ReadsBefore P r xs a)
    (hk : ReadsBefore P (k a) [] b) : ReadsBefore P (r >>= k) xs b := by
  simpa using hr.bind hk fun suffix hP ↦ hP

theorem map {f : α → β} {xs : List UInt8} (hr : ReadsBefore P r xs a) :
    ReadsBefore P (f <$> r) xs (f a) := by
  rw [map_eq_pure_bind]
  exact hr.bind_last (Reads.pure (f a)).before

/-- The next byte is the first one of `bytes`. -/
theorem peek {k : Option UInt8 → Reader β} {b : β} {x : UInt8} {xs : List UInt8}
    (hk : ReadsBefore P (k (some x)) (x :: xs) b) :
    ReadsBefore P (Reader.peek >>= k) (x :: xs) b :=
  fun offset suffix hP ↦ hk offset suffix hP

theorem remaining {k : ℕ → Reader β} {b : β} {bytes : List UInt8}
    (hk : ∀ n, bytes.length ≤ n → ReadsBefore P (k n) bytes b) :
    ReadsBefore P (Reader.remaining >>= k) bytes b :=
  fun offset suffix hP ↦ hk (bytes ++ suffix).length (by simp) offset suffix hP

end ReadsBefore

/-- `r` returns on `bytes` what the computation returns, having consumed exactly them, or
throws what the computation throws. -/
def ReadsTo {α : Type} (r : Reader α) (bytes : List UInt8) (x : Except String α) : Prop :=
  ∀ offset suffix, r ⟨offset, bytes ++ suffix⟩ =
    (fun a ↦ (a, ⟨offset + bytes.length, suffix⟩)) <$> x

theorem Reads.readsTo {α : Type} {r : Reader α} {bytes : List UInt8} {a : α}
    (h : Reads r bytes a) : ReadsTo r bytes (.ok a) := h

namespace ReadsTo

variable {α β : Type} {r : Reader α} {x : Except String α}

theorem lift (x : Except String α) : ReadsTo (liftM x : Reader α) [] x := by
  intro offset suffix
  cases x with
  | error e => rfl
  | ok a => rfl

theorem bind {k : α → Reader β} {y : α → Except String β} {xs ys : List UInt8}
    (hr : ReadsTo r xs x) (hk : ∀ a, x = .ok a → ReadsTo (k a) ys (y a)) :
    ReadsTo (r >>= k) (xs ++ ys) (x >>= y) := by
  intro offset suffix
  rw [List.append_assoc]
  have hfirst := hr offset (ys ++ suffix)
  cases x with
  | error e => exact Reader.bind_error hfirst
  | ok a =>
      rw [Reader.bind_run hfirst, hk a rfl, List.length_append, ok_bind, Nat.add_assoc]

/-- A continuation that consumes nothing. -/
theorem bind_last {k : α → Reader β} {y : α → Except String β} {xs : List UInt8}
    (hr : ReadsTo r xs x) (hk : ∀ a, x = .ok a → ReadsTo (k a) [] (y a)) :
    ReadsTo (r >>= k) xs (x >>= y) := by
  simpa using hr.bind hk

/-- A step that is known to succeed. -/
theorem after {k : α → Reader β} {y : Except String β} {xs ys : List UInt8} {a : α}
    (hr : Reads r xs a) (hk : ReadsTo (k a) ys y) : ReadsTo (r >>= k) (xs ++ ys) y :=
  hr.readsTo.bind (y := fun _ ↦ y) fun _ ha ↦ Except.ok.inj ha ▸ hk

theorem after_nil {k : α → Reader β} {y : Except String β} {ys : List UInt8} {a : α}
    (hr : Reads r [] a) (hk : ReadsTo (k a) ys y) : ReadsTo (r >>= k) ys y := after hr hk

theorem after_cons {k : α → Reader β} {y : Except String β} {byte : UInt8} {ys : List UInt8}
    {a : α} (hr : Reads r [byte] a) (hk : ReadsTo (k a) ys y) : ReadsTo (r >>= k) (byte :: ys) y :=
  after hr hk

theorem after_last {k : α → Reader β} {y : Except String β} {xs : List UInt8} {a : α}
    (hr : Reads r xs a) (hk : ReadsTo (k a) [] y) : ReadsTo (r >>= k) xs y := by
  simpa using after hr hk

/-- Element after element, each written by a computation that succeeded, as far as they can
be read. -/
theorem many {ι : Type} {f : ι → Except String α} {write : ι → Except String (List UInt8)}
    {is : List ι} (h : ∀ i ∈ is, ∀ bytes, write i = .ok bytes → ReadsTo r bytes (f i))
    {chunks : List (List UInt8)} (hwrite : is.mapM write = .ok chunks) :
    ReadsTo (Reader.many r is.length) chunks.flatten (is.mapM f) := by
  induction is generalizing chunks with
  | nil =>
      obtain rfl := Except.ok.inj hwrite
      exact (Reads.pure []).readsTo
  | cons i is ih =>
      rw [List.mapM_cons] at hwrite
      obtain ⟨bytes, hbytes, hwrite⟩ := bind_eq_ok.mp hwrite
      obtain ⟨rest, hrest, hwrite⟩ := bind_eq_ok.mp hwrite
      obtain rfl := Except.ok.inj hwrite
      have his := ih (fun j hj ↦ h j (by simp [hj])) hrest
      rw [List.flatten_cons, List.mapM_cons]
      refine (h i (by simp) bytes hbytes).bind fun a _ ↦ ?_
      exact his.bind_last fun as _ ↦ (Reads.pure (a :: as)).readsTo

/-- A reader that succeeded shows that the computation does. -/
theorem eq_ok {xs : List UInt8} {a : α} (hr : ReadsTo r xs x) (h : Reads r xs a) : x = .ok a := by
  have hsame := (hr 0 []).symm.trans (h 0 [])
  obtain ⟨a', ha', hpair⟩ := map_eq_ok.mp hsame
  rw [ha', (Prod.mk.inj hpair).1]

end ReadsTo

end BedrockProtocol
