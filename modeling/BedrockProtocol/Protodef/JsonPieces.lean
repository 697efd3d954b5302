import BedrockProtocol.Protodef.SchemaDescription
import Mathlib.Algebra.Order.Ring.Int

/-!
# Pieces of JSON text

What the search functions find in JSON text, with blanks between its tokens and with whatever a
string can hold.  A backslash in a string takes the next character with it, so the quote behind it
does not end the string; strings and keys stay as they are written.  Brackets are balanced in every
piece of such a text, and the search for a closing bracket passes over it.
-/

namespace BedrockProtocol

namespace JsonPieces

open SchemaText ProtoDefEncoder

/-! ## Pieces of text -/

/-- The text up to a closing quote, first right behind a backslash or not. -/
def bodyFrom : Bool → Text → Bool
  | esc, [] => !esc
  | true, _ :: rest => bodyFrom false rest
  | false, c :: rest => if c = 0x5c then bodyFrom true rest else c ≠ 0x22 && bodyFrom false rest

/-- What can stand between the quotes of a string. -/
def isBody (s : Text) : Bool := bodyFrom false s

def isBlank (s : Text) : Bool := s.all isSpace

/-- A character of a number, or of `true`, `false` or `null`. -/
def isLiteralByte (c : UInt8) : Bool :=
  !isSpace c && c ∉ [0x22, 0x2c, 0x3a, 0x5b, 0x5d, 0x7b, 0x7d]

/-- Text in which strings are closed and brackets are balanced. -/
inductive Piece : Text → Prop
  | nil : Piece []
  | char {c : UInt8} (h : c ∉ [0x22, 0x5b, 0x5d, 0x7b, 0x7d]) : Piece [c]
  | string {s : Text} (h : isBody s = true) : Piece (quoted s)
  | array {u : Text} (h : Piece u) : Piece (0x5b :: (u ++ [0x5d]))
  | object {u : Text} (h : Piece u) : Piece (0x7b :: (u ++ [0x7d]))
  | append {t u : Text} (h : Piece t) (h' : Piece u) : Piece (t ++ u)

/-- The text of a type: a name, an array or an object. -/
inductive TypeText : Text → Prop
  | string {s : Text} (h : isBody s = true) : TypeText (quoted s)
  | array {u : Text} (h : Piece u) : TypeText (0x5b :: (u ++ [0x5d]))
  | object {u : Text} (h : Piece u) : TypeText (0x7b :: (u ++ [0x7d]))

/-- The text of a value. -/
inductive ValueText : Text → Prop
  | type {v : Text} (h : TypeText v) : ValueText v
  | literal {v : Text} (hne : v ≠ []) (h : v.all isLiteralByte = true) : ValueText v

theorem TypeText.piece {v : Text} (h : TypeText v) : Piece v := by
  cases h with
  | string h => exact .string h
  | array h => exact .array h
  | object h => exact .object h

theorem piece_of_chars {t : Text} (h : ∀ c ∈ t, c ∉ [0x22, 0x5b, 0x5d, 0x7b, 0x7d]) : Piece t := by
  induction t with
  | nil => exact .nil
  | cons c t ih =>
      have hfirst : Piece [c] := .char (h c List.mem_cons_self)
      exact hfirst.append (ih fun d hd ↦ h d (List.mem_cons_of_mem c hd))

theorem piece_blank {t : Text} (h : isBlank t = true) : Piece t := by
  refine piece_of_chars fun c hc hmem ↦ ?_
  have hspace := List.all_eq_true.mp h c hc
  have hmarks : ([0x22, 0x5b, 0x5d, 0x7b, 0x7d] : List UInt8).all (fun c ↦ !isSpace c) = true := rfl
  have hmark := List.all_eq_true.mp hmarks c hmem
  rw [hspace] at hmark
  cases hmark

theorem not_mem_blank {t : Text} (h : isBlank t = true) {c : UInt8} (hc : isSpace c = false) :
    c ∉ t := by
  intro hmem
  rw [List.all_eq_true.mp h c hmem] at hc
  cases hc

theorem isLiteralByte_iff {c : UInt8} : isLiteralByte c = true ↔
    isSpace c = false ∧ c ∉ [0x22, 0x2c, 0x3a, 0x5b, 0x5d, 0x7b, 0x7d] := by
  rw [isLiteralByte, Bool.and_eq_true, Bool.not_eq_true', decide_eq_true_iff]

theorem ValueText.piece {v : Text} (h : ValueText v) : Piece v := by
  cases h with
  | type h => exact h.piece
  | literal _ h =>
      refine piece_of_chars fun c hc hmem ↦ ?_
      refine (isLiteralByte_iff.mp (List.all_eq_true.mp h c hc)).2 ?_
      revert hmem
      simp only [List.mem_cons, List.not_mem_nil, or_false]
      tauto

/-- A value begins with no blank. -/
theorem ValueText.exists_cons {v : Text} (h : ValueText v) :
    ∃ c rest, v = c :: rest ∧ isSpace c = false := by
  cases h with
  | type h =>
      cases h with
      | string => exact ⟨_, _, rfl, by decide⟩
      | array => exact ⟨_, _, rfl, by decide⟩
      | object => exact ⟨_, _, rfl, by decide⟩
  | literal hne h =>
      obtain ⟨c, rest, rfl⟩ := List.exists_cons_of_ne_nil hne
      exact ⟨c, rest, rfl, (isLiteralByte_iff.mp (List.all_eq_true.mp h c List.mem_cons_self)).1⟩

theorem ValueText.length_pos {v : Text} (h : ValueText v) : 0 < v.length := by
  obtain ⟨c, rest, rfl, -⟩ := h.exists_cons
  exact Nat.succ_pos _

theorem quoted_eq (s : Text) : quoted s = 0x22 :: (s ++ [0x22]) := rfl

/-! ## Positions -/

theorem drop_at (pre rest : Text) : (pre ++ rest).drop pre.length = rest := List.drop_left

theorem getElem?_at (pre rest : Text) : (pre ++ rest)[pre.length]? = rest.head? := by
  rw [List.getElem?_append_right le_rfl, Nat.sub_self, List.head?_eq_getElem?]

theorem substr_at (pre v post : Text) : substr (pre ++ (v ++ post)) pre.length v.length = v := by
  rw [substr, drop_at, List.take_left]

/-- The first place of a character that is not in between. -/
theorem find_at (pre mid post : Text) {c : UInt8} (hc : c ∉ mid) :
    find (pre ++ (mid ++ c :: post)) c pre.length = some (pre.length + mid.length) := by
  have hmid : mid.findIdx? (fun d ↦ decide (d = c)) = none :=
    List.findIdx?_eq_none_iff.mpr fun d hd ↦ decide_eq_false fun h ↦ hc (h ▸ hd)
  rw [find, drop_at, List.findIdx?_append, hmid, List.findIdx?_cons, if_pos (decide_eq_true rfl)]
  change some (0 + mid.length + pre.length) = _
  rw [Nat.zero_add, Nat.add_comm]

theorem find_none (pre rest : Text) {c : UInt8} (hc : c ∉ rest) :
    find (pre ++ rest) c pre.length = none := by
  have hrest : rest.findIdx? (fun d ↦ decide (d = c)) = none :=
    List.findIdx?_eq_none_iff.mpr fun d hd ↦ decide_eq_false fun h ↦ hc (h ▸ hd)
  rw [find, drop_at, hrest]
  rfl

/-- What is skipped ends in front of another character. -/
theorem skip_at {p : UInt8 → Bool} {gap : Text} (hgap : gap.all p = true) (pre rest : Text)
    (hrest : ∀ c ∈ rest.head?, p c = false) :
    skip p (pre ++ (gap ++ rest)) pre.length = (pre ++ gap).length := by
  have hstop : rest.takeWhile p = [] := by
    cases rest with
    | nil => rfl
    | cons c rest =>
        rw [List.takeWhile_cons_of_neg]
        rw [hrest c rfl]
        exact Bool.false_ne_true
  rw [skip, drop_at, List.takeWhile_append_of_pos (List.all_eq_true.mp hgap), hstop, List.append_nil,
    List.length_append]

/-- What is skipped, and the character that it ends in front of. -/
theorem skip_to {p : UInt8 → Bool} {object pre gap rest : Text} {c : UInt8}
    (hobject : object = pre ++ (gap ++ c :: rest)) (hgap : gap.all p = true) (hc : p c = false) :
    skip p object pre.length = (pre ++ gap).length ∧ object[(pre ++ gap).length]? = some c := by
  constructor
  · rw [hobject, skip_at hgap]
    intro d hd
    rwa [← Option.some.inj hd]
  · rw [hobject, ← List.append_assoc, getElem?_at]
    rfl

theorem skip_value {object pre gap v post : Text} (hobject : object = pre ++ (gap ++ (v ++ post)))
    (hgap : isBlank gap = true) (hv : ValueText v) :
    skip isSpace object pre.length = (pre ++ gap).length := by
  obtain ⟨c, rest, rfl, hspace⟩ := hv.exists_cons
  exact (skip_to hobject hgap hspace).1

theorem rdropWhile_append_blank {t blank : Text} (h : isBlank blank = true) :
    (t ++ blank).rdropWhile isSpace = t.rdropWhile isSpace := by
  have hall : ∀ c ∈ blank.reverse, isSpace c = true := fun c hc ↦
    List.all_eq_true.mp h c (List.mem_reverse.mp hc)
  rw [List.rdropWhile, List.rdropWhile, List.reverse_append, List.dropWhile_append_of_pos hall]

theorem trim_append_blank {front back : Text} (hfront : isBlank front = true)
    (hback : isBlank back = true) (t : Text) : trim (front ++ t ++ back) = trim t := by
  rw [trim, trim, List.append_assoc, List.dropWhile_append_of_pos (List.all_eq_true.mp hfront)]
  by_cases ht : t.dropWhile isSpace = []
  · have hall : ∀ c ∈ t, isSpace c = true := List.dropWhile_eq_nil_iff.mp ht
    rw [ht, List.dropWhile_append_of_pos hall,
      List.dropWhile_eq_nil_iff.mpr (List.all_eq_true.mp hback)]
  · rw [List.dropWhile_append, if_neg (by simpa using ht), rdropWhile_append_blank hback]

theorem trim_eq (c d : UInt8) (m : Text) (hc : isSpace c = false) (hd : isSpace d = false) :
    trim (c :: (m ++ [d])) = c :: (m ++ [d]) := by
  have hfirst : (c :: (m ++ [d])).dropWhile isSpace = c :: (m ++ [d]) :=
    List.dropWhile_cons_of_neg (by rw [hc]; exact Bool.false_ne_true)
  rw [trim, hfirst, ← List.cons_append]
  exact List.rdropWhile_concat_neg isSpace _ _ (by rw [hd]; exact Bool.false_ne_true)

theorem TypeText.trim_eq {v : Text} (h : TypeText v) : trim v = v := by
  cases h with
  | string => exact JsonPieces.trim_eq _ _ _ (by decide) (by decide)
  | array => exact JsonPieces.trim_eq _ _ _ (by decide) (by decide)
  | object => exact JsonPieces.trim_eq _ _ _ (by decide) (by decide)

/-! ## Closing brackets and quotes -/

theorem stringEndFrom_append {s : Text} (post : Text) (i : ℕ) {esc : Bool}
    (h : bodyFrom esc s = true) : stringEndFrom (s ++ 0x22 :: post) i esc = some (i + s.length) := by
  induction s generalizing i esc with
  | nil =>
      cases esc with
      | false => rfl
      | true => cases h
  | cons c s ih =>
      have hlength : i + (c :: s).length = i + 1 + s.length := by
        rw [List.length_cons]
        omega
      rw [hlength, List.cons_append]
      cases esc with
      | true => exact ih (i + 1) h
      | false =>
          rw [bodyFrom] at h
          rw [stringEndFrom]
          split at h
          · rename_i hslash
            rw [if_pos hslash]
            exact ih (i + 1) h
          · rename_i hslash
            rw [Bool.and_eq_true, decide_eq_true_iff] at h
            rw [if_neg hslash, if_neg h.1]
            exact ih (i + 1) h.2

theorem findStringEnd_at {s : Text} (h : isBody s = true) (pre post : Text) :
    findStringEnd (pre ++ (quoted s ++ post)) pre.length = some (pre.length + 1 + s.length) := by
  have hdrop : (pre ++ (quoted s ++ post)).drop (pre.length + 1) = s ++ 0x22 :: post := by
    rw [← List.drop_drop, drop_at, quoted_eq, List.cons_append, List.drop_one, List.tail_cons,
      List.append_assoc]
    rfl
  rw [findStringEnd, hdrop, stringEndFrom_append post _ h]

theorem matchingFrom_string (left right : UInt8) {s : Text} (post : Text) (i : ℕ) (depth : ℤ)
    {esc : Bool} (h : bodyFrom esc s = true) :
    matchingFrom left right (s ++ 0x22 :: post) i { depth, inString := true, esc } =
      matchingFrom left right post (i + s.length + 1) { depth } := by
  induction s generalizing i esc with
  | nil =>
      cases esc with
      | false => rfl
      | true => cases h
  | cons c s ih =>
      have hlength : i + (c :: s).length + 1 = i + 1 + s.length + 1 := by
        rw [List.length_cons]
        omega
      rw [hlength, List.cons_append, matchingFrom, if_pos rfl]
      cases esc with
      | true => exact ih (i + 1) h
      | false =>
          rw [bodyFrom] at h
          dsimp only
          rw [if_neg Bool.false_ne_true]
          split at h
          · rename_i hslash
            rw [if_pos hslash]
            exact ih (i + 1) h
          · rename_i hslash
            rw [Bool.and_eq_true, decide_eq_true_iff] at h
            rw [if_neg hslash, if_neg h.1]
            exact ih (i + 1) h.2

/-- The two kinds of brackets. -/
def Brackets (left right : UInt8) : Prop := (left = 0x5b ∧ right = 0x5d) ∨ (left = 0x7b ∧ right = 0x7d)

theorem matchingFrom_skip {left right c : UInt8} (hquote : c ≠ 0x22) (hleft : c ≠ left)
    (hright : c ≠ right) (post : Text) (i : ℕ) (depth : ℤ) :
    matchingFrom left right (c :: post) i { depth } =
      matchingFrom left right post (i + 1) { depth } := by
  rw [matchingFrom, if_neg Bool.false_ne_true, if_neg hquote, if_neg hleft, if_neg hright]

/-- A character that is neither a bracket nor a quote. -/
theorem matchingFrom_other {left right c : UInt8} (hbrackets : Brackets left right)
    (hc : c ∉ [0x22, 0x5b, 0x5d, 0x7b, 0x7d]) (post : Text) (i : ℕ) (depth : ℤ) :
    matchingFrom left right (c :: post) i { depth } =
      matchingFrom left right post (i + 1) { depth } := by
  simp only [List.mem_cons, List.not_mem_nil, or_false, not_or] at hc
  obtain ⟨hquote, hleft, hright, hleft', hright'⟩ := hc
  rcases hbrackets with ⟨rfl, rfl⟩ | ⟨rfl, rfl⟩
  · exact matchingFrom_skip hquote hleft hright post i depth
  · exact matchingFrom_skip hquote hleft' hright' post i depth

theorem matchingFrom_open {left right : UInt8} (hbrackets : Brackets left right) (post : Text)
    (i : ℕ) (depth : ℤ) :
    matchingFrom left right (left :: post) i { depth } =
      matchingFrom left right post (i + 1) { depth := depth + 1 } := by
  rcases hbrackets with ⟨rfl, rfl⟩ | ⟨rfl, rfl⟩ <;> rfl

theorem matchingFrom_close {left right : UInt8} (hbrackets : Brackets left right) (post : Text)
    (i : ℕ) {depth : ℤ} (hdepth : 1 ≤ depth) :
    matchingFrom left right (right :: post) i { depth := depth + 1 } =
      matchingFrom left right post (i + 1) { depth } := by
  have hopen : ¬(depth + 1 - 1 = 0) := by omega
  have hsame : depth + 1 - 1 = depth := by omega
  rcases hbrackets with ⟨rfl, rfl⟩ | ⟨rfl, rfl⟩
  · change (if depth + 1 - 1 = 0 then some i
      else matchingFrom 0x5b 0x5d post (i + 1) { depth := depth + 1 - 1 }) = _
    rw [if_neg hopen, hsame]
  · change (if depth + 1 - 1 = 0 then some i
      else matchingFrom 0x7b 0x7d post (i + 1) { depth := depth + 1 - 1 }) = _
    rw [if_neg hopen, hsame]

/-- Inside of brackets a piece of text is passed over. -/
theorem Piece.matchingFrom_append {t : Text} (h : Piece t) {left right : UInt8}
    (hbrackets : Brackets left right) (post : Text) (i : ℕ) {depth : ℤ} (hdepth : 1 ≤ depth) :
    matchingFrom left right (t ++ post) i { depth } =
      matchingFrom left right post (i + t.length) { depth } := by
  induction h generalizing post i depth with
  | nil => rfl
  | char hc => exact matchingFrom_other hbrackets hc post i depth
  | @string s hs =>
      rw [quoted_eq, List.cons_append, matchingFrom, if_neg Bool.false_ne_true, if_pos rfl,
        List.append_assoc, List.singleton_append]
      refine (matchingFrom_string left right post (i + 1) depth hs).trans ?_
      congr 1
      rw [List.length_cons, List.length_append, List.length_singleton]
      omega
  | @array u _ ih =>
      have hlength : i + (0x5b :: (u ++ [0x5d])).length = i + 1 + u.length + 1 := by
        rw [List.length_cons, List.length_append, List.length_singleton]
        omega
      rw [hlength, List.cons_append, List.append_assoc]
      rcases hbrackets with ⟨rfl, rfl⟩ | ⟨rfl, rfl⟩
      · rw [matchingFrom_open (.inl ⟨rfl, rfl⟩), ih _ _ (by omega), List.singleton_append,
          matchingFrom_close (.inl ⟨rfl, rfl⟩) _ _ hdepth]
      · rw [matchingFrom_skip (by decide) (by decide) (by decide), ih _ _ hdepth,
          List.singleton_append, matchingFrom_skip (by decide) (by decide) (by decide)]
  | @object u _ ih =>
      have hlength : i + (0x7b :: (u ++ [0x7d])).length = i + 1 + u.length + 1 := by
        rw [List.length_cons, List.length_append, List.length_singleton]
        omega
      rw [hlength, List.cons_append, List.append_assoc]
      rcases hbrackets with ⟨rfl, rfl⟩ | ⟨rfl, rfl⟩
      · rw [matchingFrom_skip (by decide) (by decide) (by decide), ih _ _ hdepth,
          List.singleton_append, matchingFrom_skip (by decide) (by decide) (by decide)]
      · rw [matchingFrom_open (.inr ⟨rfl, rfl⟩), ih _ _ (by omega), List.singleton_append,
          matchingFrom_close (.inr ⟨rfl, rfl⟩) _ _ hdepth]
  | append _ _ iht ihu =>
      rw [List.append_assoc, iht _ _ hdepth, ihu _ _ hdepth, List.length_append, Nat.add_assoc]

theorem findMatching_array {u : Text} (h : Piece u) (pre post : Text) :
    findMatching (pre ++ (0x5b :: (u ++ [0x5d]) ++ post)) pre.length 0x5b 0x5d =
      some (pre.length + 1 + u.length) := by
  rw [findMatching, drop_at, List.cons_append, List.append_assoc]
  change matchingFrom 0x5b 0x5d (u ++ ([0x5d] ++ post)) (pre.length + 1) { depth := 1 } = _
  rw [h.matchingFrom_append (.inl ⟨rfl, rfl⟩) _ _ le_rfl]
  rfl

theorem findMatching_object {u : Text} (h : Piece u) (pre post : Text) :
    findMatching (pre ++ (0x7b :: (u ++ [0x7d]) ++ post)) pre.length 0x7b 0x7d =
      some (pre.length + 1 + u.length) := by
  rw [findMatching, drop_at, List.cons_append, List.append_assoc]
  change matchingFrom 0x7b 0x7d (u ++ ([0x7d] ++ post)) (pre.length + 1) { depth := 1 } = _
  rw [h.matchingFrom_append (.inr ⟨rfl, rfl⟩) _ _ le_rfl]
  rfl

/-! ## Members of an object -/

/-- A key and its value, with blanks around the key and around the value. -/
structure Member where
  key : Text
  value : Text
  lead : Text := []
  before : Text := []
  after : Text := []
  rear : Text := []

namespace Member

def text (m : Member) : Text :=
  m.lead ++ (quoted m.key ++ (m.before ++ 0x3a :: (m.after ++ (m.value ++ m.rear))))

structure Spelled (m : Member) : Prop where
  key : isBody m.key = true
  value : ValueText m.value
  blank : ∀ t ∈ [m.lead, m.before, m.after, m.rear], isBlank t = true

variable {m : Member}

theorem Spelled.lead (h : m.Spelled) : isBlank m.lead = true := h.blank _ (by simp)

theorem Spelled.before (h : m.Spelled) : isBlank m.before = true := h.blank _ (by simp)

theorem Spelled.after (h : m.Spelled) : isBlank m.after = true := h.blank _ (by simp)

theorem Spelled.rear (h : m.Spelled) : isBlank m.rear = true := h.blank _ (by simp)

theorem Spelled.piece (h : m.Spelled) : Piece m.text := by
  have hcolon : Piece [0x3a] := .char (by decide)
  exact (piece_blank h.lead).append ((Piece.string h.key).append ((piece_blank h.before).append
    (hcolon.append ((piece_blank h.after).append (h.value.piece.append (piece_blank h.rear))))))

end Member

/-- The value of the first member with the key. -/
def valueOf (members : List Member) (key : Text) : Option Text :=
  (members.find? fun m ↦ m.key = key).map Member.value

theorem valueOf_cons (m : Member) (members : List Member) (key : Text) :
    valueOf (m :: members) key = if m.key = key then some m.value else valueOf members key := by
  rw [valueOf, List.find?_cons]
  by_cases h : m.key = key
  · rw [decide_eq_true h, if_pos h]
    rfl
  · rw [decide_eq_false h, if_neg h]
    rfl

/-- The texts with commas in between. -/
def commas : List Text → Text
  | [] => []
  | t :: rest => t ++ rest.flatMap fun u ↦ 0x2c :: u

theorem piece_flatMap {texts : List Text} (h : ∀ t ∈ texts, Piece t) :
    Piece (texts.flatMap fun u ↦ 0x2c :: u) := by
  induction texts with
  | nil => exact .nil
  | cons t texts ih =>
      rw [List.flatMap_cons]
      have hcomma : Piece [0x2c] := .char (by decide)
      have hfirst : Piece ([0x2c] ++ t) := hcomma.append (h t List.mem_cons_self)
      exact hfirst.append (ih fun u hu ↦ h u (List.mem_cons_of_mem t hu))

theorem piece_commas {texts : List Text} (h : ∀ t ∈ texts, Piece t) : Piece (commas texts) := by
  cases texts with
  | nil => exact .nil
  | cons t texts =>
      exact (h t List.mem_cons_self).append
        (piece_flatMap fun u hu ↦ h u (List.mem_cons_of_mem t hu))

/-- What stands between the braces of an object; `blank` is all of it if there are no members. -/
def inside (blank : Text) (members : List Member) : Text :=
  blank ++ commas (members.map Member.text)

def spelledObject (blank : Text) (members : List Member) : Text := 0x7b :: (inside blank members ++ [0x7d])

theorem piece_inside {blank : Text} {members : List Member} (hblank : isBlank blank = true)
    (h : ∀ m ∈ members, m.Spelled) : Piece (inside blank members) := by
  refine (piece_blank hblank).append (piece_commas fun t ht ↦ ?_)
  obtain ⟨m, hm, rfl⟩ := List.mem_map.mp ht
  exact (h m hm).piece

/-- Where a value ends: in front of a comma or of the brace, and of the blanks before it. -/
theorem findJsonValueEnd_at {v rear : Text} (h : ValueText v) (hrear : isBlank rear = true)
    (pre tail post : Text) (htail : tail.head? ∈ [none, some 0x2c]) :
    findJsonValueEnd (pre ++ (v ++ (rear ++ (tail ++ 0x7d :: post)))) pre.length
        (pre ++ (v ++ (rear ++ tail))).length =
      some (pre ++ v).length := by
  obtain ⟨c, rest, hcons, -⟩ := h.exists_cons
  have hinside : ¬((pre ++ (v ++ (rear ++ tail))).length ≤ pre.length) := by
    rw [hcons, List.length_append, List.cons_append, List.length_cons]
    omega
  rw [findJsonValueEnd, if_neg hinside, getElem?_at]
  cases h with
  | type h =>
      cases h with
      | @string s hs =>
          change (findStringEnd (pre ++ (quoted s ++ _)) pre.length).map (· + 1) = _
          rw [findStringEnd_at hs, Option.map_some, List.length_append, length_quoted]
          congr 1
          omega
      | @array u hu =>
          change (findMatching (pre ++ (0x5b :: (u ++ [0x5d]) ++ _)) pre.length 0x5b 0x5d).map
            (· + 1) = _
          rw [findMatching_array hu, Option.map_some, List.length_append, List.length_cons,
            List.length_append, List.length_singleton]
          congr 1
          omega
      | @object u hu =>
          change (findMatching (pre ++ (0x7b :: (u ++ [0x7d]) ++ _)) pre.length 0x7b 0x7d).map
            (· + 1) = _
          rw [findMatching_object hu, Option.map_some, List.length_append, List.length_cons,
            List.length_append, List.length_singleton]
          congr 1
          omega
  | literal hne hbytes =>
      have hbyte {d : UInt8} (hd : d ∈ v) :=
        isLiteralByte_iff.mp (List.all_eq_true.mp hbytes d hd)
      have hc := (hbyte (hcons ▸ List.mem_cons_self : c ∈ v)).2
      have hrest : substr (pre ++ (v ++ (rear ++ (tail ++ 0x7d :: post)))) pre.length
          ((pre ++ (v ++ (rear ++ tail))).length - pre.length) = v ++ (rear ++ tail) := by
        have hsize : (pre ++ (v ++ (rear ++ tail))).length - pre.length =
            (v ++ (rear ++ tail)).length := by
          rw [List.length_append, Nat.add_sub_cancel_left]
        have hsame : v ++ (rear ++ (tail ++ 0x7d :: post)) =
            v ++ (rear ++ tail) ++ 0x7d :: post := by
          simp only [List.append_assoc]
        rw [hsize, hsame, substr_at]
      have hnoComma : ∀ d ∈ v ++ rear, decide (d ≠ 0x2c) = true := by
        intro d hd
        refine decide_eq_true fun hcomma ↦ ?_
        rw [hcomma] at hd
        rcases List.mem_append.mp hd with hd | hd
        · exact (hbyte hd).2 (by decide)
        · exact absurd (List.all_eq_true.mp hrear _ hd) (by decide)
      have hstop : tail.takeWhile (fun c ↦ decide (c ≠ 0x2c)) = [] := by
        cases tail with
        | nil => rfl
        | cons d tail =>
            have hd : d = 0x2c := by simpa using htail
            rw [hd]
            rfl
      have hblanks : (v ++ rear).rdropWhile isSpace = v := by
        rw [rdropWhile_append_blank hrear]
        refine List.rdropWhile_eq_self_iff.mpr fun hne hspace ↦ ?_
        rw [(hbyte (List.getLast_mem hne)).1] at hspace
        cases hspace
      have hhead : (v ++ (rear ++ (tail ++ 0x7d :: post))).head? = some c := by rw [hcons]; rfl
      rw [hhead]
      split
      · rename_i heq
        obtain rfl := Option.some.inj heq
        exact absurd (by decide) hc
      · rename_i heq
        obtain rfl := Option.some.inj heq
        exact absurd (by decide) hc
      · rename_i heq
        obtain rfl := Option.some.inj heq
        exact absurd (by decide) hc
      · dsimp only
        rw [hrest, ← List.append_assoc, List.takeWhile_append_of_pos hnoComma, hstop,
          List.append_nil, hblanks, List.length_append]

/-! ## Fields of an object -/

/-- One turn of the loop over the fields, in terms of the places it goes to. -/
theorem valueFieldFrom_turn {object key k v : Text}
    {objEnd turns pos start keyEnd colon valueStart valueEnd : ℕ} (hpos : pos < objEnd)
    (hskip : skip (fun c ↦ isSpace c || decide (c = 0x2c)) object pos = start)
    (hstart : start < objEnd) (hquote : object[start]? = some 0x22)
    (hkeyEnd : findStringEnd object start = some keyEnd) (hkey : keyEnd < objEnd)
    (hbefore : skip isSpace object (keyEnd + 1) = colon) (hcolon : object[colon]? = some 0x3a)
    (hinside : colon < objEnd) (hafter : skip isSpace object (colon + 1) = valueStart)
    (hvalue : valueStart < objEnd)
    (hvalueEnd : findJsonValueEnd object valueStart objEnd = some valueEnd)
    (hk : substr object (start + 1) (keyEnd - start - 1) = k)
    (hv : substr object valueStart (valueEnd - valueStart) = v) :
    valueFieldFrom object objEnd key (turns + 1) pos =
      if k = key then some v else valueFieldFrom object objEnd key turns valueEnd := by
  rw [valueFieldFrom]
  dsimp only
  rw [if_neg (by omega), hskip, min_eq_right hstart.le, if_neg (by omega),
    if_neg (not_not.mpr hquote), hkeyEnd]
  dsimp only [Option.bind_eq_bind, Option.bind_some]
  have hopen : ¬(objEnd ≤ colon ∨ object[colon]? ≠ some 0x3a) :=
    not_or.mpr ⟨by omega, not_not.mpr hcolon⟩
  rw [if_neg (by omega), hbefore, min_eq_right hinside.le, if_neg hopen, hafter,
    min_eq_right hvalue.le, if_neg (by omega), hvalueEnd]
  dsimp only [Option.bind_some]
  rw [hk, hv]

/-- Blanks and commas. -/
def isGap (s : Text) : Bool := s.all fun c ↦ isSpace c || decide (c = 0x2c)

theorem isGap_append {s t : Text} (hs : isGap s = true) (ht : isGap t = true) :
    isGap (s ++ t) = true := by
  rw [isGap, List.all_append, Bool.and_eq_true]
  exact ⟨hs, ht⟩

theorem isGap_of_isBlank {s : Text} (h : isBlank s = true) : isGap s = true :=
  List.all_eq_true.mpr fun c hc ↦ Bool.or_eq_true_iff.mpr (.inl (List.all_eq_true.mp h c hc))

/-- The loop at a member: it is the one that is looked for, or the loop goes on behind its
value. -/
theorem valueFieldFrom_member {m : Member} (h : m.Spelled) {gap tail : Text} (hgap : isGap gap = true)
    (htail : tail.head? ∈ [none, some 0x2c]) (pre post key : Text) (turns : ℕ) {object : Text}
    (hobject : object = pre ++ (gap ++ (m.text ++ (tail ++ 0x7d :: post)))) {objEnd : ℕ}
    (hend : objEnd = (pre ++ (gap ++ (m.text ++ tail))).length) :
    valueFieldFrom object objEnd key (turns + 1) pre.length =
      if m.key = key then some m.value
      else valueFieldFrom object objEnd key turns
        (pre ++ gap ++ m.lead ++ quoted m.key ++ m.before ++ [0x3a] ++ m.after ++ m.value).length := by
  -- The same text, split in front of the key, in it and behind it, and around the colon and the value.
  have hatKey : object = (pre ++ (gap ++ m.lead)) ++ (quoted m.key ++ (m.before ++ 0x3a :: (m.after ++
      (m.value ++ (m.rear ++ (tail ++ 0x7d :: post)))))) := by
    rw [hobject, Member.text]
    simp only [List.append_assoc, List.cons_append]
  have hinKey : object = (pre ++ (gap ++ m.lead) ++ [0x22]) ++ (m.key ++ (0x22 :: (m.before ++
      0x3a :: (m.after ++ (m.value ++ (m.rear ++ (tail ++ 0x7d :: post))))))) := by
    rw [hatKey, quoted_eq]
    simp only [List.append_assoc, List.cons_append, List.nil_append]
  have hfront : object = pre ++ ((gap ++ m.lead) ++ 0x22 :: (m.key ++ (0x22 :: (m.before ++
      0x3a :: (m.after ++ (m.value ++ (m.rear ++ (tail ++ 0x7d :: post)))))))) := by
    rw [hinKey]
    simp only [List.append_assoc, List.cons_append, List.nil_append]
  have hbehindKey : object = (pre ++ (gap ++ m.lead) ++ quoted m.key) ++ (m.before ++ (0x3a ::
      (m.after ++ (m.value ++ (m.rear ++ (tail ++ 0x7d :: post)))))) := by
    rw [hatKey]
    simp only [List.append_assoc]
  have hbehindColon : object = (pre ++ (gap ++ m.lead) ++ quoted m.key ++ m.before ++ [0x3a]) ++
      (m.after ++ (m.value ++ (m.rear ++ (tail ++ 0x7d :: post)))) := by
    rw [hatKey]
    simp only [List.append_assoc, List.cons_append, List.nil_append]
  have hatValue : object = (pre ++ (gap ++ m.lead) ++ quoted m.key ++ m.before ++ [0x3a] ++ m.after) ++
      (m.value ++ (m.rear ++ (tail ++ 0x7d :: post))) := by
    rw [hatKey]
    simp only [List.append_assoc, List.cons_append, List.nil_append]
  obtain ⟨hskip, hquote⟩ := skip_to hfront (isGap_append hgap (isGap_of_isBlank h.lead)) rfl
  obtain ⟨hbefore, hcolon⟩ := skip_to hbehindKey h.before (rfl : isSpace 0x3a = false)
  have hafter := skip_value hbehindColon h.after h.value
  have hkeyEnd := findStringEnd_at h.key (pre ++ (gap ++ m.lead)) (m.before ++ 0x3a :: (m.after ++
    (m.value ++ (m.rear ++ (tail ++ 0x7d :: post)))))
  rw [← hatKey] at hkeyEnd
  have hkeyPlace : (pre ++ (gap ++ m.lead) ++ quoted m.key).length =
      (pre ++ (gap ++ m.lead)).length + 1 + m.key.length + 1 := by
    have hlength : (pre ++ (gap ++ m.lead) ++ quoted m.key).length =
        (pre ++ (gap ++ m.lead)).length + (quoted m.key).length := List.length_append
    rw [hlength, length_quoted]
    omega
  have hcolonPlace : (pre ++ (gap ++ m.lead) ++ quoted m.key ++ m.before ++ [0x3a]).length =
      (pre ++ (gap ++ m.lead) ++ quoted m.key ++ m.before).length + 1 :=
    List.length_append
  rw [hkeyPlace] at hbefore
  rw [hcolonPlace] at hafter
  have hobjEnd : objEnd = (pre ++ (gap ++ m.lead) ++ quoted m.key ++ m.before ++ [0x3a] ++ m.after ++
      (m.value ++ (m.rear ++ tail))).length := by
    rw [hend, Member.text]
    simp only [List.append_assoc, List.cons_append, List.nil_append]
  have hvalueEnd := findJsonValueEnd_at h.value h.rear
    (pre ++ (gap ++ m.lead) ++ quoted m.key ++ m.before ++ [0x3a] ++ m.after) tail post htail
  rw [← hatValue, ← hobjEnd] at hvalueEnd
  have hvalueLength : 0 < m.value.length := h.value.length_pos
  have hk := substr_at (pre ++ (gap ++ m.lead) ++ [0x22]) m.key (0x22 :: (m.before ++
    0x3a :: (m.after ++ (m.value ++ (m.rear ++ (tail ++ 0x7d :: post))))))
  rw [← hinKey] at hk
  have hv := substr_at (pre ++ (gap ++ m.lead) ++ quoted m.key ++ m.before ++ [0x3a] ++ m.after)
    m.value (m.rear ++ (tail ++ 0x7d :: post))
  rw [← hatValue] at hv
  simp only [List.length_append, List.length_singleton, length_quoted] at *
  refine valueFieldFrom_turn (by omega) hskip (by omega) hquote hkeyEnd (by omega) hbefore hcolon
    (by omega) hafter (by omega) ?_ ?_ ?_
  · rw [hvalueEnd]
    exact congrArg some (by omega)
  · refine (congrArg (substr object _) ?_).trans hk
    omega
  · refine (congrArg (substr object _) ?_).trans hv
    omega

/-- The loop in front of the brace. -/
theorem valueFieldFrom_gap {gap : Text} (hgap : isGap gap = true) (pre post key : Text) (turns : ℕ)
    {object : Text} (hobject : object = pre ++ (gap ++ 0x7d :: post)) :
    valueFieldFrom object (pre ++ gap).length key (turns + 1) pre.length = none := by
  obtain ⟨hskip, -⟩ := skip_to hobject hgap rfl
  rw [valueFieldFrom]
  dsimp only
  rw [hskip, min_self]
  split
  · rfl
  · exact if_pos le_rfl

/-- The members behind the first one. -/
theorem valueFieldFrom_later {members : List Member} (h : ∀ m ∈ members, m.Spelled) {rear : Text}
    (hrear : isBlank rear = true) (pre post key : Text) (turns : ℕ) (hturns : members.length < turns)
    {object : Text} (hobject : object =
      pre ++ (rear ++ ((members.map Member.text).flatMap fun u ↦ 0x2c :: u) ++ 0x7d :: post)) :
    valueFieldFrom object
        (pre ++ (rear ++ (members.map Member.text).flatMap fun u ↦ 0x2c :: u)).length key turns
        pre.length = valueOf members key := by
  induction members generalizing pre rear turns with
  | nil =>
      obtain ⟨turns, rfl⟩ : ∃ t, turns = t + 1 := ⟨turns - 1, by omega⟩
      rw [List.map_nil, List.flatMap_nil, List.append_nil] at hobject ⊢
      exact valueFieldFrom_gap (isGap_of_isBlank hrear) pre post key turns hobject
  | cons m members ih =>
      obtain ⟨turns, rfl⟩ : ∃ t, turns = t + 1 := ⟨turns - 1, by omega⟩
      rw [List.length_cons] at hturns
      have hm := h m List.mem_cons_self
      have hgap : isGap (rear ++ [0x2c]) = true := isGap_append (isGap_of_isBlank hrear) (by decide)
      generalize hmore : ((members.map Member.text).flatMap fun u ↦ 0x2c :: u) = more at ih
      have htail : more.head? ∈ [none, some 0x2c] := by
        rw [← hmore]
        cases members with
        | nil => exact List.mem_cons_self
        | cons m members => exact List.mem_cons_of_mem _ List.mem_cons_self
      rw [List.map_cons, List.flatMap_cons, hmore] at hobject ⊢
      have hend : (pre ++ (rear ++ (0x2c :: m.text ++ more))).length =
          (pre ++ ((rear ++ [0x2c]) ++ (m.text ++ more))).length := by
        simp only [List.append_assoc, List.cons_append, List.nil_append]
      rw [valueFieldFrom_member hm hgap htail pre post key turns (by
        rw [hobject]
        simp only [List.append_assoc, List.cons_append, List.nil_append]) hend, valueOf_cons]
      split
      · rfl
      · have hlater := ih (fun m' hm' ↦ h m' (List.mem_cons_of_mem m hm')) hm.rear (pre ++
          (rear ++ [0x2c]) ++ m.lead ++ quoted m.key ++ m.before ++ [0x3a] ++ m.after ++ m.value)
          turns (by omega) (by
            rw [hobject, Member.text]
            simp only [List.append_assoc, List.cons_append, List.nil_append])
        rw [← hlater]
        congr 1
        rw [Member.text]
        simp only [List.append_assoc, List.cons_append, List.nil_append]

theorem valueFieldFrom_inside {blank : Text} {members : List Member} (hblank : isBlank blank = true)
    (h : ∀ m ∈ members, m.Spelled) (pre post key : Text) (turns : ℕ) (hturns : members.length < turns) :
    valueFieldFrom (pre ++ (inside blank members ++ 0x7d :: post))
        (pre ++ inside blank members).length key turns pre.length = valueOf members key := by
  obtain ⟨turns, rfl⟩ : ∃ t, turns = t + 1 := ⟨turns - 1, by omega⟩
  cases members with
  | nil =>
      have hinside : inside blank [] = blank := List.append_nil blank
      rw [hinside]
      exact valueFieldFrom_gap (isGap_of_isBlank hblank) pre post key turns rfl
  | cons m members =>
      rw [List.length_cons] at hturns
      have hm := h m List.mem_cons_self
      generalize hmore : ((members.map Member.text).flatMap fun u ↦ 0x2c :: u) = more
      have htail : more.head? ∈ [none, some 0x2c] := by
        rw [← hmore]
        cases members with
        | nil => exact List.mem_cons_self
        | cons m members => exact List.mem_cons_of_mem _ List.mem_cons_self
      have hinside : inside blank (m :: members) = blank ++ (m.text ++ more) := by
        rw [inside, List.map_cons, commas, hmore]
      rw [hinside, valueFieldFrom_member hm (isGap_of_isBlank hblank) htail pre post key turns (by
        simp only [List.append_assoc]) rfl, valueOf_cons]
      split
      · rfl
      · have hlater := valueFieldFrom_later (fun m' hm' ↦ h m' (List.mem_cons_of_mem m hm')) hm.rear
          (pre ++ blank ++ m.lead ++ quoted m.key ++ m.before ++ [0x3a] ++ m.after ++ m.value) post
          key turns (by omega) rfl
        rw [hmore] at hlater
        rw [← hlater, Member.text]
        simp only [List.append_assoc, List.cons_append, List.nil_append]

theorem length_le_length_inside (blank : Text) (members : List Member) :
    members.length ≤ (inside blank members).length := by
  have hmore (members : List Member) :
      members.length ≤ ((members.map Member.text).flatMap fun u ↦ 0x2c :: u).length := by
    induction members with
    | nil => exact Nat.zero_le _
    | cons m members ih =>
        rw [List.map_cons, List.flatMap_cons, List.length_append, List.length_cons,
          List.length_cons]
        omega
  cases members with
  | nil => exact Nat.zero_le _
  | cons m members =>
      have hmore := hmore members
      have hm : 0 < m.text.length := by
        rw [Member.text, List.length_append, List.length_append, length_quoted]
        omega
      rw [inside, List.map_cons, commas, List.length_append, List.length_append, List.length_cons]
      omega

/-- The value of a key in the first object of a text. -/
theorem readJsonValueField_object {blank : Text} {members : List Member}
    (hblank : isBlank blank = true) (h : ∀ m ∈ members, m.Spelled) {json front back : Text}
    (hfront : (0x7b : UInt8) ∉ front)
    (hjson : trim json = front ++ (spelledObject blank members ++ back)) (key : Text) :
    readJsonValueField json key = valueOf members key := by
  have hopen := find_at [] front (inside blank members ++ [0x7d] ++ back) hfront
  rw [List.nil_append, List.length_nil, Nat.zero_add] at hopen
  have hclose := findMatching_object (piece_inside hblank h) front back
  have hcount := length_le_length_inside blank members
  have hfield := valueFieldFrom_inside hblank h (front ++ [0x7b]) back key
    (front.length + 1 + (inside blank members).length + 1) (by omega)
  have hlength : (front ++ [0x7b]).length = front.length + 1 := List.length_append
  have hsame : front ++ (spelledObject blank members ++ back) =
      front ++ [0x7b] ++ (inside blank members ++ 0x7d :: back) := by
    simp only [spelledObject, List.cons_append, List.append_assoc, List.nil_append]
  rw [List.length_append, hlength] at hfield
  rw [readJsonValueField, hjson]
  change (find (front ++ 0x7b :: (inside blank members ++ [0x7d] ++ back)) 0x7b 0 >>= _) = _
  rw [hopen]
  dsimp only [Option.bind_eq_bind, Option.bind_some]
  change (findMatching (front ++ (0x7b :: (inside blank members ++ [0x7d]) ++ back)) _ _ _).bind _ = _
  rw [hclose, hsame]
  exact hfield

/-! ## What the encoder finds -/

/-- The last character of the value at a place, as the searches for a value find it. -/
def lastAt (s : Text) (start : ℕ) : Option ℕ :=
  match s[start]? with
  | some 0x22 => find s 0x22 (start + 1)
  | some 0x5b => findMatching s start 0x5b 0x5d
  | some 0x7b => findMatching s start 0x7b 0x7d
  | _ => none

/-- An array, an object, or a name in which no quote is escaped. -/
def isWhole (v : Text) : Bool := v.head? ≠ some 0x22 || 0x22 ∉ (v.drop 1).dropLast

theorem not_mem_of_isWhole {s : Text} (h : isWhole (quoted s) = true) : (0x22 : UInt8) ∉ s := by
  have hinner : ((quoted s).drop 1).dropLast = s := List.dropLast_concat
  rw [isWhole, hinner, Bool.or_eq_true, decide_eq_true_iff, decide_eq_true_iff] at h
  exact h.resolve_left fun hne ↦ hne rfl

theorem length_bracketed (c d : UInt8) (u : Text) : (c :: (u ++ [d])).length = u.length + 2 := by
  rw [List.length_cons, List.length_append, List.length_singleton]

theorem lastAt_value {v : Text} (h : TypeText v) (hwhole : isWhole v = true) (pre post : Text) :
    ∃ last, lastAt (pre ++ (v ++ post)) pre.length = some last ∧
      substr (pre ++ (v ++ post)) pre.length (last - pre.length + 1) = v := by
  have hsubstr := substr_at pre v post
  rw [lastAt, getElem?_at]
  cases h with
  | @string s =>
      have hquote := find_at (pre ++ [0x22]) s post (not_mem_of_isWhole hwhole)
      have hsame : pre ++ [0x22] ++ (s ++ 0x22 :: post) = pre ++ (quoted s ++ post) := by
        rw [quoted_eq]
        simp only [List.append_assoc, List.cons_append, List.nil_append]
      have hlength : (pre ++ [0x22]).length = pre.length + 1 := List.length_append
      rw [hsame, hlength] at hquote
      have hsize : pre.length + 1 + s.length - pre.length + 1 = (quoted s).length := by
        rw [length_quoted]
        omega
      exact ⟨_, hquote, hsize ▸ hsubstr⟩
  | @array u hu =>
      have hsize : pre.length + 1 + u.length - pre.length + 1 = (0x5b :: (u ++ [0x5d])).length := by
        rw [length_bracketed 0x5b 0x5d]
        omega
      exact ⟨_, findMatching_array hu pre post, hsize ▸ hsubstr⟩
  | @object u hu =>
      have hsize : pre.length + 1 + u.length - pre.length + 1 = (0x7b :: (u ++ [0x7d])).length := by
        rw [length_bracketed 0x7b 0x7d]
        omega
      exact ⟨_, findMatching_object hu pre post, hsize ▸ hsubstr⟩

theorem lastAt_bind (s : Text) (start : ℕ) (f : ℕ → Option Text) :
    lastAt s start >>= f = match s[start]? with
      | some 0x22 => find s 0x22 (start + 1) >>= f
      | some 0x5b => findMatching s start 0x5b 0x5d >>= f
      | some 0x7b => findMatching s start 0x7b 0x7d >>= f
      | _ => none >>= f := by
  rw [lastAt]
  generalize s[start]? = head
  split <;> rfl

theorem readSecondElement_eq (json : Text) : readSecondElement json = (do
    let firstComma ← find json 0x2c 0
    let last ← lastAt json (skip isSpace json (firstComma + 1))
    some (substr json (skip isSpace json (firstComma + 1))
      (last - skip isSpace json (firstComma + 1) + 1))) := by
  rw [readSecondElement]
  exact bind_congr fun firstComma ↦ (lastAt_bind json _ _).symm

theorem readSwitchObjectField_eq (objectJson key : Text) :
    readSwitchObjectField objectJson key = (do
      let k ← findText objectJson (quoted key) 0
      let colon ← find objectJson 0x3a (k + (quoted key).length)
      let last ← lastAt objectJson (skip isSpace objectJson (colon + 1))
      some (substr objectJson (skip isSpace objectJson (colon + 1))
        (last - skip isSpace objectJson (colon + 1) + 1))) := by
  rw [readSwitchObjectField]
  exact bind_congr fun k ↦ bind_congr fun colon ↦ (lastAt_bind objectJson _ _).symm

/-- The encoder takes what stands behind the colon after the first place of the key. -/
theorem readSwitchObjectField_of_text {objectJson k pre mid after v post : Text}
    (hplace : findText objectJson (quoted k) 0 = some pre.length) (hmid : (0x3a : UInt8) ∉ mid)
    (hafter : isBlank after = true) (hv : TypeText v) (hwhole : isWhole v = true)
    (htext : objectJson = pre ++ (quoted k ++ (mid ++ 0x3a :: (after ++ (v ++ post))))) :
    readSwitchObjectField objectJson k = some v := by
  have hbehindKey : objectJson = (pre ++ quoted k) ++ (mid ++ 0x3a :: (after ++ (v ++ post))) := by
    rw [htext, List.append_assoc]
  have hbehindColon : objectJson = (pre ++ quoted k ++ mid ++ [0x3a]) ++ (after ++ (v ++ post)) := by
    rw [htext]
    simp only [List.append_assoc, List.cons_append, List.nil_append]
  have hatValue : objectJson = (pre ++ quoted k ++ mid ++ [0x3a] ++ after) ++ (v ++ post) := by
    rw [hbehindColon, List.append_assoc (_ ++ [0x3a])]
  have hcolon := find_at (pre ++ quoted k) mid (after ++ (v ++ post)) hmid
  rw [← hbehindKey, List.length_append] at hcolon
  have hstart : pre.length + (quoted k).length + mid.length + 1 =
      (pre ++ quoted k ++ mid ++ [0x3a]).length := by
    rw [List.length_append, List.length_append, List.length_append, List.length_singleton]
  have hskip := skip_value hbehindColon hafter (.type hv)
  obtain ⟨last, hlast, hvalue⟩ := lastAt_value hv hwhole
    (pre ++ quoted k ++ mid ++ [0x3a] ++ after) post
  rw [← hatValue] at hlast hvalue
  rw [readSwitchObjectField_eq, hplace]
  dsimp only [Option.bind_eq_bind, Option.bind_some]
  rw [hcolon]
  dsimp only [Option.bind_some]
  rw [hstart, hskip, hlast]
  dsimp only [Option.bind_some]
  rw [hvalue]

/-- The encoder takes the first object behind the first place of the key. -/
theorem objectBehind_of_text {json k pre mid u post : Text}
    (hplace : findText json (quoted k) 0 = some pre.length) (hmid : (0x7b : UInt8) ∉ mid)
    (hu : Piece u) (htext : json = pre ++ (quoted k ++ (mid ++ (0x7b :: (u ++ [0x7d]) ++ post)))) :
    objectBehind json k = some (0x7b :: (u ++ [0x7d])) := by
  have hbehindKey : json = (pre ++ quoted k) ++ (mid ++ 0x7b :: (u ++ [0x7d] ++ post)) := by
    rw [htext, List.append_assoc]
    rfl
  have hatObject : json = (pre ++ quoted k ++ mid) ++ (0x7b :: (u ++ [0x7d]) ++ post) := by
    rw [htext]
    simp only [List.append_assoc]
  have hopen := find_at (pre ++ quoted k) mid (u ++ [0x7d] ++ post) hmid
  have hclose := findMatching_object hu (pre ++ quoted k ++ mid) post
  have hsubstr := substr_at (pre ++ quoted k ++ mid) (0x7b :: (u ++ [0x7d])) post
  have hlength : (pre ++ quoted k).length + mid.length = (pre ++ quoted k ++ mid).length :=
    List.length_append.symm
  have hsize : (pre ++ quoted k ++ mid).length + 1 + u.length - (pre ++ quoted k ++ mid).length + 1 =
      (0x7b :: (u ++ [0x7d])).length := by
    rw [length_bracketed 0x7b 0x7d]
    omega
  rw [← hbehindKey, hlength] at hopen
  rw [← hatObject] at hclose hsubstr
  rw [objectBehind, hplace]
  dsimp only [Option.bind_eq_bind, Option.bind_some]
  rw [← List.length_append, hopen]
  dsimp only [Option.bind_some]
  rw [hclose]
  dsimp only [Option.bind_some]
  rw [hsize, hsubstr]

/-! ## Places of keys -/

/-- Where the first member with the key begins, if the members begin at `i`. -/
def keyPlaceFrom : ℕ → List Member → Text → Option ℕ
  | _, [], _ => none
  | i, m :: members, key =>
      if m.key = key then some (i + m.lead.length)
      else keyPlaceFrom (i + m.text.length + 1) members key

theorem isSome_keyPlaceFrom (i : ℕ) (members : List Member) (key : Text) :
    (keyPlaceFrom i members key).isSome = (valueOf members key).isSome := by
  induction members generalizing i with
  | nil => rfl
  | cons m members ih =>
      rw [keyPlaceFrom, valueOf_cons]
      split
      · rfl
      · exact ih _

theorem commas_cons (t : Text) (texts : List Text) (hne : texts ≠ []) :
    commas (t :: texts) = t ++ 0x2c :: commas texts := by
  obtain ⟨u, texts, rfl⟩ := List.exists_cons_of_ne_nil hne
  rfl

/-- The text around the place of a key. -/
theorem exists_of_keyPlaceFrom {members : List Member} {key : Text} {n : ℕ} (pre : Text)
    (h : keyPlaceFrom pre.length members key = some n) :
    ∃ m ∈ members, ∃ front post, valueOf members key = some m.value ∧ front.length = n ∧
      pre ++ commas (members.map Member.text) =
        front ++ (quoted key ++ (m.before ++ 0x3a :: (m.after ++ (m.value ++ post)))) := by
  induction members generalizing pre with
  | nil => cases h
  | cons m members ih =>
      rw [keyPlaceFrom] at h
      rw [valueOf_cons]
      split at h
      · rename_i hkey
        refine ⟨m, List.mem_cons_self, pre ++ m.lead,
          m.rear ++ (members.map Member.text).flatMap fun u ↦ 0x2c :: u, if_pos hkey, ?_, ?_⟩
        · rw [List.length_append]
          exact Option.some.inj h
        · rw [List.map_cons, commas, Member.text, hkey]
          simp only [List.append_assoc, List.cons_append]
      · rename_i hkey
        have hne : members.map Member.text ≠ [] := by
          rw [ne_eq, List.map_eq_nil_iff]
          rintro rfl
          cases h
        have hpre : (pre ++ m.text ++ [0x2c]).length = pre.length + m.text.length + 1 := by
          rw [List.length_append, List.length_append, List.length_singleton]
        rw [← hpre] at h
        obtain ⟨m', hm', front, post, hvalue, hfront, htext⟩ := ih _ h
        refine ⟨m', List.mem_cons_of_mem m hm', front, post, (if_neg hkey).trans hvalue, hfront, ?_⟩
        rw [← htext, List.map_cons, commas_cons _ _ hne]
        simp only [List.append_assoc, List.cons_append, List.nil_append]

end JsonPieces

end BedrockProtocol
