import BedrockProtocol.Lib.Leb128

/-!
# The loops of base-128 words

The loops as programs spell them.  A reader keeps a buffer, an offset and a
shift, and tests its bound either before it takes a group or after a group that
continues; a writer ends when the word is below 128, when no bit above the
seventh is set, or when nothing is left after the group.  Each computes what
`readLeb128` and `leb128` do.
-/

namespace BedrockProtocol

/-- A reader run on a buffer from `offset` on: the value and the offset after it. -/
def Reader.runFrom {α : Type} (r : Reader α) (data : List UInt8) (offset : ℕ) :
    Except String (α × ℕ) :=
  (fun p ↦ (p.1, p.2.offset)) <$> r ⟨offset, data.drop offset⟩

/-- Two readers of a buffer accept the same inputs, with the same values and the
same offsets after them. -/
def SameReads {α : Type} (r r' : List UInt8 → ℕ → Except String (α × ℕ)) : Prop :=
  ∀ data offset p, r data offset = .ok p ↔ r' data offset = .ok p

namespace SameReads

variable {α : Type} {r r' r'' : List UInt8 → ℕ → Except String (α × ℕ)}

theorem symm (h : SameReads r r') : SameReads r' r :=
  fun data offset p ↦ (h data offset p).symm

theorem trans (h : SameReads r r') (h' : SameReads r' r'') : SameReads r r'' :=
  fun data offset p ↦ (h data offset p).trans (h' data offset p)

theorem of_alike {s s' : Reader α} (h : Reader.Alike s s') :
    SameReads s.runFrom s'.runFrom := by
  intro data offset p
  constructor
  · intro hrun
    obtain ⟨q, hq, rfl⟩ := map_eq_ok.mp hrun
    exact map_eq_ok.mpr ⟨q, (h _ q).mp hq, rfl⟩
  · intro hrun
    obtain ⟨q, hq, rfl⟩ := map_eq_ok.mp hrun
    exact map_eq_ok.mpr ⟨q, (h _ q).mpr hq, rfl⟩

/-- A reader that needs a byte may be kept from starting behind the end. -/
theorem guarded {s : Reader α} (refused : String) (h : ∀ offset p, s ⟨offset, []⟩ ≠ .ok p) :
    SameReads (fun data offset ↦ if data.length < offset then .error refused
      else s.runFrom data offset) s.runFrom := by
  intro data offset p
  dsimp only
  split
  · rename_i hpast
    have hdrop : data.drop offset = [] := List.drop_eq_nil_of_le (by omega)
    refine iff_of_false (fun hrun ↦ by cases hrun) fun hrun ↦ ?_
    rw [Reader.runFrom, hdrop] at hrun
    obtain ⟨q, hq, -⟩ := map_eq_ok.mp hrun
    exact h offset q hq
  · exact Iff.rfl

end SameReads

/-- The messages do not matter to what is read. -/
theorem sameReads_readLeb128 (short short' : Cursor → String) (tooLong tooLong' : String)
    (w groups shift acc : ℕ) :
    SameReads (readLeb128 (fun _ ↦ Reader.byte short) tooLong w groups shift acc).runFrom
      (readLeb128 (fun _ ↦ Reader.byte short') tooLong' w groups shift acc).runFrom :=
  .of_alike (readLeb128_alike (fun _ ↦ .byte short short') tooLong tooLong' w groups shift acc)

/-- A word has at least one byte. -/
theorem readLeb128_not_past (short : Cursor → String) (tooLong : String)
    (w groups shift acc offset : ℕ) (p : ℕ × Cursor) :
    readLeb128 (fun _ ↦ Reader.byte short) tooLong w (groups + 1) shift acc ⟨offset, []⟩ ≠ .ok p :=
  fun h ↦ by cases h

theorem Reader.runFrom_of_reads {α : Type} {r : Reader α} {bytes : List UInt8} {a : α}
    (h : Reads r bytes a) (before after : List UInt8) :
    r.runFrom (before ++ bytes ++ after) before.length =
      .ok (a, before.length + bytes.length) := by
  have hdrop : (before ++ bytes ++ after).drop before.length = bytes ++ after := by
    rw [List.append_assoc, List.drop_left]
  rw [Reader.runFrom, hdrop, h before.length after]
  rfl

/-- A byte in front of the rest of a reader: the turn of a loop. -/
theorem Reader.runFrom_byte_bind {α : Type} (short : String) (k : UInt8 → Reader α)
    (data : List UInt8) (offset : ℕ) :
    ((Reader.byte fun _ ↦ short) >>= k).runFrom data offset =
      match data[offset]? with
      | none => .error short
      | some b => (k b).runFrom data (offset + 1) := by
  cases hget : data[offset]? with
  | none =>
      have hdrop : data.drop offset = [] := by simpa using hget
      rw [Reader.runFrom, hdrop]
      rfl
  | some b =>
      obtain ⟨hlt, rfl⟩ := List.getElem?_eq_some_iff.mp hget
      rw [Reader.runFrom, List.drop_eq_getElem_cons hlt]
      rfl

section Reading

variable (w : ℕ) (short tooLong : String) (data : List UInt8)

/-- One more group, at `shift`, in a word of `w` bits. -/
def orGroup (acc shift : ℕ) (b : UInt8) : ℕ :=
  acc ||| (((b.toNat &&& 0x7f) <<< shift) % 2 ^ w)

/-- `for (; shift <= last; shift += 7)`. -/
def readGroupsUpTo (last shift acc offset : ℕ) : Except String (ℕ × ℕ) :=
  if shift ≤ last then
    match data[offset]? with
    | none => .error short
    | some b =>
        if b.toNat &&& 0x80 = 0 then .ok (orGroup w acc shift b, offset + 1)
        else readGroupsUpTo last (shift + 7) (orGroup w acc shift b) (offset + 1)
  else .error tooLong
termination_by last + 1 - shift

/-- `while (true)`, left with an error when a group continues at `limit` or later. -/
def readGroupsBelow (limit shift acc offset : ℕ) : Except String (ℕ × ℕ) :=
  match data[offset]? with
  | none => .error short
  | some b =>
      if b.toNat &&& 0x80 = 0 then .ok (orGroup w acc shift b, offset + 1)
      else if limit ≤ shift + 7 then .error tooLong
      else readGroupsBelow limit (shift + 7) (orGroup w acc shift b) (offset + 1)
termination_by limit - shift

/-- One turn of the reader on a buffer. -/
theorem readLeb128_runFrom_succ (groups shift acc offset : ℕ) :
    (readLeb128 (fun _ ↦ Reader.byte fun _ ↦ short) tooLong w (groups + 1) shift acc).runFrom data
        offset =
      match data[offset]? with
      | none => .error short
      | some b =>
          if b.toNat &&& 0x80 = 0 then .ok (orGroup w acc shift b, offset + 1)
          else (readLeb128 (fun _ ↦ Reader.byte fun _ ↦ short) tooLong w groups (shift + 7)
            (orGroup w acc shift b)).runFrom data (offset + 1) := by
  rw [readLeb128, Reader.runFrom_byte_bind]
  cases data[offset]? with
  | none => rfl
  | some b =>
      simp only [orGroup]
      split <;> rfl

/-- A bound tested before each group leaves room for the groups at or below it. -/
theorem readGroupsUpTo_eq {last shift groups : ℕ} (hlow : last < shift + 7 * groups)
    (hhigh : shift + 7 * groups ≤ last + 7) (acc offset : ℕ) :
    readGroupsUpTo w short tooLong data last shift acc offset =
      (readLeb128 (fun _ ↦ Reader.byte fun _ ↦ short) tooLong w groups shift acc).runFrom data
        offset := by
  induction groups generalizing shift acc offset with
  | zero =>
      rw [readGroupsUpTo, if_neg (by omega)]
      rfl
  | succ groups ih =>
      rw [readGroupsUpTo, if_pos (by omega), readLeb128_runFrom_succ]
      cases data[offset]? with
      | none => rfl
      | some b =>
          simp only
          split
          · rfl
          · exact ih (by omega) (by omega) _ _

/-- A bound tested after each group leaves room for the groups below it. -/
theorem readGroupsBelow_eq {limit shift groups : ℕ} (hlow : limit ≤ shift + 7 * (groups + 1))
    (hhigh : shift + 7 * (groups + 1) < limit + 7) (acc offset : ℕ) :
    readGroupsBelow w short tooLong data limit shift acc offset =
      (readLeb128 (fun _ ↦ Reader.byte fun _ ↦ short) tooLong w (groups + 1) shift acc).runFrom
        data offset := by
  induction groups generalizing shift acc offset with
  | zero =>
      rw [readGroupsBelow, readLeb128_runFrom_succ]
      cases data[offset]? with
      | none => rfl
      | some b =>
          simp only
          split
          · rfl
          · rfl
  | succ groups ih =>
      rw [readGroupsBelow, readLeb128_runFrom_succ]
      cases data[offset]? with
      | none => rfl
      | some b =>
          simp only
          split
          · rfl
          · rw [if_neg (by omega)]
            exact ih (by omega) (by omega) _ _

end Reading

section Writing

/-- `while (v >= 0x80)`, then the last group. -/
def putGroupsWhile (v : ℕ) : List UInt8 :=
  if 0x80 ≤ v then UInt8.ofNat ((v &&& 0x7f) ||| 0x80) :: putGroupsWhile (v >>> 7)
  else [UInt8.ofNat v]
termination_by v
decreasing_by
  rw [Nat.shiftRight_eq_div_pow]
  omega

/-- `while (true)`, left when no bit of a 32-bit word above the seventh is set. -/
def putGroupsUntil (v : ℕ) : List UInt8 :=
  if v &&& 0xffffff80 = 0 then [UInt8.ofNat v]
  else UInt8.ofNat ((v &&& 0x7f) ||| 0x80) :: putGroupsUntil (v >>> 7)
termination_by v
decreasing_by
  rename_i hhigh
  have hpos : v ≠ 0 := by
    rintro rfl
    exact hhigh (Nat.zero_and _)
  rw [Nat.shiftRight_eq_div_pow]
  omega

/-- `do … while (v != 0)`, the continuation bit put when something is left. -/
def putGroupsDo (v : ℕ) : List UInt8 :=
  if v >>> 7 ≠ 0 then UInt8.ofNat ((v &&& 0x7f) ||| 0x80) :: putGroupsDo (v >>> 7)
  else [UInt8.ofNat (v &&& 0x7f)]
termination_by v
decreasing_by
  rename_i hleft
  rw [Nat.shiftRight_eq_div_pow] at hleft ⊢
  omega

theorem putGroupsWhile_eq {more v : ℕ} (h : v < 128 ^ (more + 1)) :
    putGroupsWhile v = leb128 more v := by
  induction more generalizing v with
  | zero => rw [putGroupsWhile, if_neg (by omega), leb128]
  | succ more ih =>
      rw [putGroupsWhile, leb128]
      by_cases hlow : v < 0x80
      · rw [if_neg (by omega), if_pos hlow]
      · have hshift : v >>> 7 < 128 ^ (more + 1) := by
          rw [Nat.shiftRight_eq_div_pow, Nat.div_lt_iff_lt_mul (by norm_num), ← pow_succ]
          exact h
        rw [if_pos (by omega), if_neg hlow, ih hshift]

/-- No bit of a 32-bit word above the seventh is set exactly when it is below 128. -/
theorem and_above_seventh_eq_zero_iff {v : ℕ} (h : v < 2 ^ 32) :
    v &&& 0xffffff80 = 0 ↔ v < 0x80 := by
  constructor
  · intro hzero
    have hshift : v >>> 7 &&& 2 ^ 25 - 1 = 0 := by
      have hboth : (v &&& 0xffffff80) >>> 7 = v >>> 7 &&& 2 ^ 25 - 1 :=
        Nat.shiftRight_and_distrib
      rw [← hboth, hzero, Nat.zero_shiftRight]
    rw [Nat.and_two_pow_sub_one_eq_mod, Nat.shiftRight_eq_div_pow] at hshift
    omega
  · intro hlow
    have hlast : v &&& 0x7f = v := by rw [and_0x7f, Nat.mod_eq_of_lt hlow]
    rw [← hlast, Nat.and_assoc]
    exact Nat.and_zero v

theorem putGroupsUntil_eq_while {v : ℕ} (h : v < 2 ^ 32) :
    putGroupsUntil v = putGroupsWhile v := by
  fun_induction putGroupsUntil v with
  | case1 v hzero =>
      have hlow : v < 0x80 := (and_above_seventh_eq_zero_iff h).mp hzero
      rw [putGroupsWhile, if_neg (by omega)]
  | case2 v hhigh ih =>
      have hlow : ¬v < 0x80 := fun hlow ↦ hhigh ((and_above_seventh_eq_zero_iff h).mpr hlow)
      have hshift : v >>> 7 < 2 ^ 32 := by
        rw [Nat.shiftRight_eq_div_pow]
        omega
      rw [putGroupsWhile, if_pos (by omega), ih hshift]

theorem putGroupsDo_eq_while (v : ℕ) : putGroupsDo v = putGroupsWhile v := by
  fun_induction putGroupsDo v with
  | case1 v hleft ih =>
      have hhigh : 0x80 ≤ v := by
        rw [Nat.shiftRight_eq_div_pow] at hleft
        omega
      rw [putGroupsWhile, if_pos hhigh, ih]
  | case2 v hleft =>
      have hlow : v < 0x80 := by
        rw [Nat.shiftRight_eq_div_pow] at hleft
        omega
      rw [putGroupsWhile, if_neg (by omega), and_0x7f, Nat.mod_eq_of_lt hlow]

end Writing

end BedrockProtocol
