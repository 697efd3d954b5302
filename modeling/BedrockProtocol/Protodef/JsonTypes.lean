import BedrockProtocol.Protodef.JsonPieces

/-!
# Types in JSON text

A type is a name, or an array of its kind and of what it is about, with blanks between the tokens.
Encoder and decoder find the same parts of it, although the encoder looks for some keys as a text
in quotes, wherever that stands.
-/

namespace BedrockProtocol

namespace JsonPieces

open SchemaText ProtoDefEncoder

/-! ## Characters of keys -/

/-- The characters of keys are neither quotes nor backslashes. -/
theorem not_mem_of_all {s : Text} (hkey : s.all isKeyByte = true) {c : UInt8}
    (hc : isKeyByte c = false) : c ∉ s := by
  intro hmem
  rw [List.all_eq_true.mp hkey c hmem] at hc
  cases hc

theorem ne_of_mem {s : Text} (hkey : s.all isKeyByte = true) {c d : UInt8} (hc : c ∈ s)
    (hd : isKeyByte d = false) : c ≠ d := by
  rintro rfl
  exact not_mem_of_all hkey hd hc

theorem isBody_of_all {s : Text} (hkey : s.all isKeyByte = true) : isBody s = true := by
  induction s with
  | nil => rfl
  | cons c s ih =>
      have hquote : c ≠ 0x22 := ne_of_mem hkey List.mem_cons_self (by decide)
      have hslash : c ≠ 0x5c := ne_of_mem hkey List.mem_cons_self (by decide)
      have hrest : s.all isKeyByte = true := List.all_eq_true.mpr fun d hd ↦
        List.all_eq_true.mp hkey d (List.mem_cons_of_mem c hd)
      rw [isBody, bodyFrom, if_neg hslash, Bool.and_eq_true]
      exact ⟨decide_eq_true hquote, ih hrest⟩

/-! ## Fields of an object -/

theorem readJsonStringField_eq {json key s : Text} (h : readJsonValueField json key = some (quoted s)) :
    readJsonStringField json key = some s := by
  have htrim : trim (quoted s) = quoted s := trim_eq 0x22 0x22 s (by decide) (by decide)
  rw [readJsonStringField, h]
  dsimp only [Option.bind_eq_bind, Option.bind_some]
  rw [htrim, if_pos (isJsonString_quoted s), unquote_quoted]

theorem readJsonStringField_none {json key : Text} (h : readJsonValueField json key = none) :
    readJsonStringField json key = none := by
  rw [readJsonStringField, h]
  rfl

theorem readJsonBoolField_none {json key : Text} (h : readJsonValueField json key = none) :
    readJsonBoolField json key = none := by
  rw [readJsonBoolField, h]
  rfl

/-! ## A text in quotes -/

/-- The characters that stand around strings. -/
def isMark (c : UInt8) : Bool := isSpace c || c ∈ [0x22, 0x2c, 0x3a, 0x5b, 0x5d, 0x7b, 0x7d]

def Marked (t : Text) : Prop := ∀ c ∈ t.head?, isMark c = true

/-- A key that begins like no mark. -/
structure Searched (k : Text) : Prop where
  noQuote : (0x22 : UInt8) ∉ k
  begins : ∃ c rest, k = c :: rest ∧ isMark c = false

/-- Where the key stands in quotes first. -/
def firstPlace (k s : Text) : Option ℕ :=
  s.tails.findIdx? fun rest ↦ (quoted k).isPrefixOf rest

theorem findText_eq (k s : Text) : findText s (quoted k) 0 = firstPlace k s := by
  rw [findText, List.drop_zero]
  exact Option.map_id'

section Places

variable {k : Text}

theorem firstPlace_cons {c : UInt8} {rest : Text} (h : ¬quoted k <+: c :: rest) :
    firstPlace k (c :: rest) = (firstPlace k rest).map (· + 1) := by
  have hfalse : (quoted k).isPrefixOf (c :: rest) = false :=
    Bool.eq_false_iff.mpr fun htrue ↦ h (List.isPrefixOf_iff_prefix.mp htrue)
  rw [firstPlace, List.tails_cons, List.findIdx?_cons, hfalse, if_neg Bool.false_ne_true]
  rfl

theorem not_prefix_of_ne {c : UInt8} (hc : c ≠ 0x22) (rest : Text) : ¬quoted k <+: c :: rest := by
  intro h
  rw [quoted_eq] at h
  exact hc (List.cons_prefix_cons.mp h).1.symm

theorem firstPlace_append {t : Text} (ht : (0x22 : UInt8) ∉ t) (rest : Text) :
    firstPlace k (t ++ rest) = (firstPlace k rest).map (· + t.length) := by
  induction t with
  | nil => exact Option.map_id'.symm
  | cons c t ih =>
      rw [List.mem_cons, not_or] at ht
      rw [List.cons_append, firstPlace_cons (not_prefix_of_ne (Ne.symm ht.1) _), ih ht.2,
        Option.map_map]
      rfl

/-- A text in quotes is the only one at its place. -/
theorem eq_of_quoted {s rest : Text} (hk : (0x22 : UInt8) ∉ k) (hs : (0x22 : UInt8) ∉ s)
    (h : quoted k <+: quoted s ++ rest) : k = s := by
  obtain ⟨more, hmore⟩ := h
  have hsplit : k ++ 0x22 :: more = s ++ 0x22 :: rest := by
    simpa only [quoted_eq, List.cons_append, List.append_assoc, List.nil_append, List.cons.injEq,
      true_and] using hmore
  have hstop {t : Text} (ht : (0x22 : UInt8) ∉ t) (rest : Text) :
      (t ++ 0x22 :: rest).takeWhile (fun c ↦ decide (c ≠ 0x22)) = t := by
    have hall : ∀ c ∈ t, decide (c ≠ 0x22) = true := fun c hc ↦
      decide_eq_true fun heq ↦ ht (heq ▸ hc)
    rw [List.takeWhile_append_of_pos hall, List.takeWhile_cons_of_neg (by decide), List.append_nil]
  rw [← hstop hk more, hsplit, hstop hs]

end Places

/-- The key in quotes does not begin in the text, whatever mark follows. -/
def Lacks (k t : Text) : Prop :=
  ∀ rest, Marked rest → Marked (t ++ rest) ∧
    firstPlace k (t ++ rest) = (firstPlace k rest).map (· + t.length)

namespace Lacks

variable {k : Text}

theorem nil : Lacks k [] := fun _ h ↦ ⟨h, Option.map_id'.symm⟩

theorem append {t u : Text} (h : Lacks k t) (h' : Lacks k u) : Lacks k (t ++ u) := by
  intro rest hrest
  obtain ⟨hmarked, hu⟩ := h' rest hrest
  obtain ⟨hmarked', ht⟩ := h (u ++ rest) hmarked
  rw [List.append_assoc]
  refine ⟨hmarked', ?_⟩
  rw [ht, hu, Option.map_map]
  congr 1
  funext i
  rw [Function.comp_apply, List.length_append]
  omega

/-- A piece that begins with a mark and has no quotes. -/
theorem plain {c : UInt8} {t : Text} (hc : isMark c = true) (ht : (0x22 : UInt8) ∉ c :: t) :
    Lacks k (c :: t) :=
  fun rest _ ↦ ⟨fun _ hd ↦ Option.some.inj hd ▸ hc, firstPlace_append ht rest⟩

theorem mark {c : UInt8} (hc : isMark c = true) (hquote : c ≠ 0x22) : Lacks k [c] :=
  plain hc fun h ↦ hquote (List.mem_singleton.mp h).symm

theorem blank {t : Text} (h : isBlank t = true) : Lacks k t := by
  cases t with
  | nil => exact nil
  | cons c t =>
      have hspace : isSpace c = true := List.all_eq_true.mp h c List.mem_cons_self
      refine plain ?_ (not_mem_blank h (by decide))
      rw [isMark, hspace, Bool.true_or]

theorem string {s : Text} (hk : Searched k) (hs : (0x22 : UInt8) ∉ s) (hne : s ≠ k) :
    Lacks k (quoted s) := by
  intro rest hrest
  refine ⟨fun c hc ↦ Option.some.inj hc ▸ rfl, ?_⟩
  have hopen : ¬quoted k <+: 0x22 :: (s ++ ([0x22] ++ rest)) := by
    intro h
    have hsame : 0x22 :: (s ++ ([0x22] ++ rest)) = quoted s ++ rest :=
      congrArg (List.cons 0x22) (List.append_assoc s [0x22] rest).symm
    rw [hsame] at h
    exact hne (eq_of_quoted hk.noQuote hs h).symm
  have hclose : ¬quoted k <+: 0x22 :: rest := by
    intro h
    obtain ⟨c, tail, rfl, hc⟩ := hk.begins
    rw [quoted_eq] at h
    obtain ⟨more, hmore⟩ := (List.cons_prefix_cons.mp h).2
    have hmark := hrest c (by rw [← hmore]; rfl)
    rw [hc] at hmark
    cases hmark
  rw [quoted_eq, List.cons_append, List.append_assoc, firstPlace_cons hopen, firstPlace_append hs,
    List.singleton_append, firstPlace_cons hclose, Option.map_map, Option.map_map,
    length_bracketed 0x22 0x22 s]
  congr 1
  funext i
  rw [Function.comp_apply, Function.comp_apply]
  omega

end Lacks

/-- The key is found behind a text that lacks it. -/
theorem findText_at {k pre : Text} (h : Lacks k pre) (post : Text) :
    findText (pre ++ (quoted k ++ post)) (quoted k) 0 = some pre.length := by
  have hmarked : Marked (quoted k ++ post) := fun c hc ↦ Option.some.inj hc ▸ rfl
  have hfirst : firstPlace k (quoted k ++ post) = some 0 := by
    have hprefix : (quoted k).isPrefixOf (quoted k ++ post) = true :=
      List.isPrefixOf_iff_prefix.mpr (List.prefix_append _ _)
    have hcons : quoted k ++ post = 0x22 :: (k ++ [0x22] ++ post) := rfl
    rw [hcons] at hprefix ⊢
    rw [firstPlace, List.tails_cons, List.findIdx?_cons, if_pos hprefix]
  rw [findText_eq, (h _ hmarked).2, hfirst, Option.map_some, Nat.zero_add]

theorem findText_none {k t : Text} (h : Lacks k t) : findText t (quoted k) 0 = none := by
  obtain ⟨-, hplace⟩ := h [] fun c hc ↦ by cases hc
  rw [List.append_nil] at hplace
  rw [findText_eq, hplace]
  rfl

theorem findText_none_of_not_mem {k t : Text} {c : UInt8} (hk : c ∈ k) (ht : c ∉ t) :
    findText t (quoted k) 0 = none := by
  rw [findText_eq, firstPlace]
  refine List.findIdx?_eq_none_iff.mpr fun rest hrest ↦ Bool.eq_false_iff.mpr fun hprefix ↦ ?_
  have hmem : c ∈ quoted k := List.mem_cons_of_mem _ (List.mem_append_left _ hk)
  have hsuffix := (List.mem_tails rest t).mp hrest
  exact ht (hsuffix.subset ((List.isPrefixOf_iff_prefix.mp hprefix).subset hmem))

/-! ## The array of a type -/

/-- A kind of type and what it is about, with blanks in front of the comma. -/
def pairText (kind gap body : Text) : Text := 0x5b :: (quoted kind ++ (gap ++ 0x2c :: (body ++ [0x5d])))

theorem pairText_eq (kind gap body : Text) :
    pairText kind gap body = 0x5b :: (quoted kind ++ (gap ++ 0x2c :: body) ++ [0x5d]) := by
  rw [pairText]
  simp only [List.append_assoc, List.cons_append]

theorem trim_pairText (kind gap body : Text) : trim (pairText kind gap body) = pairText kind gap body := by
  rw [pairText_eq]
  exact trim_eq 0x5b 0x5d _ (by decide) (by decide)

theorem typeText_pairText {kind gap body : Text} (hkind : isBody kind = true) (hgap : isBlank gap = true)
    (hbody : Piece body) : TypeText (pairText kind gap body) := by
  have hcomma : Piece [0x2c] := .char (by decide)
  rw [pairText_eq]
  exact .array ((Piece.string hkind).append ((piece_blank hgap).append (hcomma.append hbody)))

theorem startsWith_pairText (kind gap body : Text) :
    startsWith (pairText kind gap body) (0x5b :: quoted kind) = true := by
  rw [pairText, ← List.cons_append]
  exact List.isPrefixOf_iff_prefix.mpr (List.prefix_append _ _)

section Pairs

variable {kind gap : Text} (hkind : kind.all isKeyByte = true) (hgap : isBlank gap = true)
include hkind hgap

theorem not_mem_kind {c : UInt8} (hc : isKeyByte c = false) (hquote : c ≠ 0x22)
    (hspace : isSpace c = false) : c ∉ quoted kind ++ gap := by
  rw [quoted_eq, List.mem_append, List.mem_cons, List.mem_append, List.mem_singleton]
  rintro ((h | h | h) | h)
  · exact hquote h
  · exact not_mem_of_all hkind hc h
  · exact hquote h
  · exact not_mem_blank hgap hspace h

/-- What a type is about, as the second element of its array. -/
theorem readSecondElement_pairText {lead v : Text} (hlead : isBlank lead = true) (hv : TypeText v)
    (hwhole : isWhole v = true) (rear : Text) :
    readSecondElement (pairText kind gap (lead ++ (v ++ rear))) = some v := by
  generalize hjson : pairText kind gap (lead ++ (v ++ rear)) = json
  have hatComma : json = (0x5b :: (quoted kind ++ gap)) ++ 0x2c :: (lead ++ (v ++ (rear ++ [0x5d]))) := by
    rw [← hjson, pairText]
    simp only [List.append_assoc, List.cons_append]
  have hatLead : json = (0x5b :: (quoted kind ++ gap) ++ [0x2c]) ++ (lead ++ (v ++ (rear ++ [0x5d]))) := by
    rw [hatComma]
    simp only [List.append_assoc, List.cons_append, List.nil_append]
  have hatValue : json = (0x5b :: (quoted kind ++ gap) ++ [0x2c] ++ lead) ++ (v ++ (rear ++ [0x5d])) := by
    rw [hatLead, List.append_assoc (_ ++ [0x2c])]
  have hcomma : (0x2c : UInt8) ∉ 0x5b :: (quoted kind ++ gap) := by
    rw [List.mem_cons, not_or]
    exact ⟨by decide, not_mem_kind hkind hgap (by decide) (by decide) (by decide)⟩
  have hfind := find_at [] (0x5b :: (quoted kind ++ gap)) (lead ++ (v ++ (rear ++ [0x5d]))) hcomma
  rw [List.nil_append, List.length_nil, Nat.zero_add, ← hatComma] at hfind
  have hfront : (0x5b :: (quoted kind ++ gap)).length + 1 =
      (0x5b :: (quoted kind ++ gap) ++ [0x2c]).length := by
    rw [List.length_append, List.length_singleton]
  have hskip := skip_value hatLead hlead (.type hv)
  obtain ⟨last, hlast, hvalue⟩ := lastAt_value hv hwhole
    (0x5b :: (quoted kind ++ gap) ++ [0x2c] ++ lead) (rear ++ [0x5d])
  rw [← hatValue] at hlast hvalue
  rw [readSecondElement_eq, hfind]
  dsimp only [Option.bind_eq_bind, Option.bind_some]
  rw [hfront, hskip, hlast]
  dsimp only [Option.bind_some]
  rw [hvalue]

/-- The members of the object that a type is about. -/
theorem readJsonValueField_pairText {json lead blank rear : Text} {members : List Member}
    (hlead : isBlank lead = true) (hblank : isBlank blank = true) (h : ∀ m ∈ members, m.Spelled)
    (hjson : trim json = pairText kind gap (lead ++ (spelledObject blank members ++ rear))) (key : Text) :
    readJsonValueField json key = valueOf members key := by
  have hfront : (0x7b : UInt8) ∉ 0x5b :: (quoted kind ++ gap) ++ 0x2c :: lead := by
    rw [List.cons_append, List.mem_cons, List.mem_append, List.mem_cons, not_or, not_or, not_or]
    exact ⟨by decide, not_mem_kind hkind hgap (by decide) (by decide) (by decide), by decide,
      not_mem_blank hlead (by decide)⟩
  have hsplit : trim json = (0x5b :: (quoted kind ++ gap) ++ 0x2c :: lead) ++
      (spelledObject blank members ++ (rear ++ [0x5d])) := by
    rw [hjson, pairText]
    simp only [List.append_assoc, List.cons_append]
  exact readJsonValueField_object hblank h hfront hsplit key

/-- The array that a type is about. -/
theorem findSecondArray_pairText {lead u : Text} (hlead : isBlank lead = true) (hu : Piece u)
    (rear : Text) :
    findSecondArray (pairText kind gap (lead ++ (0x5b :: (u ++ [0x5d]) ++ rear))) =
      some (0x5b :: (u ++ [0x5d])) := by
  generalize hjson : pairText kind gap (lead ++ (0x5b :: (u ++ [0x5d]) ++ rear)) = json
  have hatFirst : json = [] ++ ([] ++ 0x5b :: (quoted kind ++ gap ++ 0x2c :: lead ++
      (0x5b :: (u ++ [0x5d]) ++ (rear ++ [0x5d])))) := by
    rw [← hjson, pairText]
    simp only [List.append_assoc, List.cons_append, List.nil_append]
  have hatSecond : json = [0x5b] ++ ((quoted kind ++ gap ++ 0x2c :: lead) ++
      0x5b :: (u ++ [0x5d] ++ (rear ++ [0x5d]))) := by
    rw [hatFirst]
    simp only [List.append_assoc, List.cons_append, List.nil_append]
  have hatArray : json = (0x5b :: (quoted kind ++ gap ++ 0x2c :: lead)) ++
      (0x5b :: (u ++ [0x5d]) ++ (rear ++ [0x5d])) := by
    rw [hatSecond]
    simp only [List.append_assoc, List.cons_append, List.nil_append]
  have hmid : (0x5b : UInt8) ∉ quoted kind ++ gap ++ 0x2c :: lead := by
    rw [List.mem_append, List.mem_cons, not_or, not_or]
    exact ⟨not_mem_kind hkind hgap (by decide) (by decide) (by decide), by decide,
      not_mem_blank hlead (by decide)⟩
  have hfirst : find json 0x5b 0 = some 0 := by
    rw [hatFirst]
    exact find_at [] [] _ List.not_mem_nil
  have hsecond := find_at [0x5b] (quoted kind ++ gap ++ 0x2c :: lead)
    (u ++ [0x5d] ++ (rear ++ [0x5d])) hmid
  rw [← hatSecond, List.length_singleton, Nat.add_comm, ← List.length_cons (a := 0x5b)] at hsecond
  have hclose := findMatching_array hu (0x5b :: (quoted kind ++ gap ++ 0x2c :: lead)) (rear ++ [0x5d])
  have hsubstr := substr_at (0x5b :: (quoted kind ++ gap ++ 0x2c :: lead)) (0x5b :: (u ++ [0x5d]))
    (rear ++ [0x5d])
  rw [← hatArray] at hclose hsubstr
  have hsize : (0x5b :: (quoted kind ++ gap ++ 0x2c :: lead)).length + 1 + u.length -
      (0x5b :: (quoted kind ++ gap ++ 0x2c :: lead)).length + 1 = (0x5b :: (u ++ [0x5d])).length := by
    rw [length_bracketed 0x5b 0x5d u]
    omega
  rw [findSecondArray, hfirst]
  dsimp only [Option.bind_eq_bind, Option.bind_some]
  rw [Nat.zero_add, hsecond]
  dsimp only [Option.bind_some]
  rw [hclose]
  dsimp only [Option.bind_some]
  rw [hsize, hsubstr]

end Pairs

/-! ## The objects of a container -/

/-- An element of an array, with blanks around it. -/
structure Element where
  value : Text
  lead : Text := []
  rear : Text := []

namespace Element

def text (e : Element) : Text := e.lead ++ (e.value ++ e.rear)

/-- The element is an object. -/
structure IsObject (e : Element) : Prop where
  blank : ∀ t ∈ [e.lead, e.rear], isBlank t = true
  value : ∃ u, Piece u ∧ e.value = 0x7b :: (u ++ [0x7d])

theorem IsObject.piece {e : Element} (h : e.IsObject) : Piece e.text := by
  obtain ⟨u, hu, hvalue⟩ := h.value
  have hobject : Piece e.value := hvalue ▸ .object hu
  exact (piece_blank (h.blank _ (by simp))).append (hobject.append (piece_blank (h.blank _ (by simp))))

end Element

/-- What stands between the brackets of an array; `blank` is all of it if there are no elements. -/
def listed (blank : Text) (elements : List Element) : Text := blank ++ commas (elements.map Element.text)

def listText (blank : Text) (elements : List Element) : Text := 0x5b :: (listed blank elements ++ [0x5d])

theorem piece_listed {blank : Text} {elements : List Element} (hblank : isBlank blank = true)
    (h : ∀ e ∈ elements, e.IsObject) : Piece (listed blank elements) := by
  refine (piece_blank hblank).append (piece_commas fun t ht ↦ ?_)
  obtain ⟨e, he, rfl⟩ := List.mem_map.mp ht
  exact (h e he).piece

theorem fieldObjectsFrom_none {fields : Text} {pos : ℕ} (h : find fields 0x7b pos = none) (turns : ℕ) :
    fieldObjectsFrom fields (turns + 1) pos = some [] := by
  rw [fieldObjectsFrom, h]

theorem fieldObjectsFrom_object {u lead : Text} (h : Piece u) (hlead : (0x7b : UInt8) ∉ lead)
    (pre post : Text) (turns : ℕ) :
    fieldObjectsFrom (pre ++ (lead ++ (0x7b :: (u ++ [0x7d]) ++ post))) (turns + 1) pre.length =
      (fieldObjectsFrom (pre ++ (lead ++ (0x7b :: (u ++ [0x7d]) ++ post))) turns
        (pre ++ (lead ++ 0x7b :: (u ++ [0x7d]))).length).map ((0x7b :: (u ++ [0x7d])) :: ·) := by
  have hopen := find_at pre lead (u ++ [0x7d] ++ post) hlead
  rw [← List.cons_append] at hopen
  have hsame : pre ++ (lead ++ (0x7b :: (u ++ [0x7d]) ++ post)) =
      pre ++ lead ++ (0x7b :: (u ++ [0x7d]) ++ post) := (List.append_assoc _ _ _).symm
  have hclose := findMatching_object h (pre ++ lead) post
  have hsubstr := substr_at (pre ++ lead) (0x7b :: (u ++ [0x7d])) post
  have hlength : (pre ++ lead).length = pre.length + lead.length := List.length_append
  have hsize : pre.length + lead.length + 1 + u.length - (pre.length + lead.length) + 1 =
      (0x7b :: (u ++ [0x7d])).length := by
    rw [length_bracketed 0x7b 0x7d u]
    omega
  have hnext : pre.length + lead.length + 1 + u.length + 1 =
      (pre ++ (lead ++ 0x7b :: (u ++ [0x7d]))).length := by
    rw [← List.append_assoc, List.length_append, hlength, length_bracketed 0x7b 0x7d u]
    omega
  rw [← hsame, hlength] at hclose hsubstr
  rw [fieldObjectsFrom, hopen]
  dsimp only
  rw [hclose]
  dsimp only [Option.bind_eq_bind, Option.bind_some]
  rw [hsize, hsubstr, hnext, Option.map_eq_bind]
  rfl

/-- The objects behind a gap, each behind a comma. -/
theorem fieldObjectsFrom_tail {elements : List Element} (h : ∀ e ∈ elements, e.IsObject) {gap : Text}
    (hgap : (0x7b : UInt8) ∉ gap) (pre post : Text) (hpost : (0x7b : UInt8) ∉ post) (turns : ℕ)
    (hturns : elements.length < turns) :
    fieldObjectsFrom (pre ++ (gap ++ (((elements.map Element.text).flatMap fun u ↦ 0x2c :: u) ++ post)))
        turns pre.length =
      some (elements.map Element.value) := by
  induction elements generalizing gap pre turns with
  | nil =>
      obtain ⟨turns, rfl⟩ : ∃ t, turns = t + 1 := ⟨turns - 1, by omega⟩
      have hrest : (0x7b : UInt8) ∉ gap ++ post := by
        rw [List.mem_append, not_or]
        exact ⟨hgap, hpost⟩
      exact fieldObjectsFrom_none (find_none pre _ hrest) turns
  | cons e elements ih =>
      obtain ⟨turns, rfl⟩ : ∃ t, turns = t + 1 := ⟨turns - 1, by omega⟩
      rw [List.length_cons] at hturns
      obtain ⟨hblank, u, hu, hvalue⟩ := h e List.mem_cons_self
      have hlead : (0x7b : UInt8) ∉ gap ++ 0x2c :: e.lead := by
        rw [List.mem_append, List.mem_cons, not_or, not_or]
        exact ⟨hgap, by decide, not_mem_blank (hblank _ (by simp)) (by decide)⟩
      have hrear : (0x7b : UInt8) ∉ e.rear := not_mem_blank (hblank _ (by simp)) (by decide)
      have hstep := fieldObjectsFrom_object hu hlead pre
        (e.rear ++ (((elements.map Element.text).flatMap fun u ↦ 0x2c :: u) ++ post)) turns
      have hmore := ih (fun e' he' ↦ h e' (List.mem_cons_of_mem e he')) hrear
        (pre ++ ((gap ++ 0x2c :: e.lead) ++ 0x7b :: (u ++ [0x7d]))) turns (by omega)
      simp only [List.map_cons, List.flatMap_cons, Element.text, hvalue, List.append_assoc,
        List.cons_append, List.nil_append] at hstep hmore ⊢
      rw [hstep, hmore]
      rfl

theorem length_le_length_flatMap (texts : List Text) :
    texts.length ≤ (texts.flatMap fun u ↦ 0x2c :: u).length := by
  induction texts with
  | nil => exact Nat.zero_le _
  | cons t texts ih =>
      rw [List.flatMap_cons, List.length_append, List.length_cons, List.length_cons]
      omega

theorem fieldObjects_listText {blank : Text} {elements : List Element} (hblank : isBlank blank = true)
    (h : ∀ e ∈ elements, e.IsObject) :
    fieldObjects (listText blank elements) = some (elements.map Element.value) := by
  have hopen : (0x7b : UInt8) ∉ 0x5b :: blank := by
    rw [List.mem_cons, not_or]
    exact ⟨by decide, not_mem_blank hblank (by decide)⟩
  cases elements with
  | nil =>
      have hrest : (0x7b : UInt8) ∉ listText blank [] := by
        rw [listText, listed, List.map_nil, commas, List.append_nil, ← List.cons_append, List.mem_append,
          not_or]
        exact ⟨hopen, by decide⟩
      exact fieldObjectsFrom_none (find_none [] (listText blank []) hrest) _
  | cons e elements =>
      obtain ⟨he, u, hu, hvalue⟩ := h e List.mem_cons_self
      have hlead : (0x7b : UInt8) ∉ 0x5b :: blank ++ e.lead := by
        rw [List.mem_append, not_or]
        exact ⟨hopen, not_mem_blank (he _ (by simp)) (by decide)⟩
      have hrear : (0x7b : UInt8) ∉ e.rear := not_mem_blank (he _ (by simp)) (by decide)
      have hcount := length_le_length_flatMap (elements.map Element.text)
      rw [List.length_map] at hcount
      have hturns : elements.length < (listText blank (e :: elements)).length := by
        rw [listText, listed, List.map_cons, commas, length_bracketed 0x5b 0x5d, List.length_append,
          List.length_append]
        omega
      have hstep := fieldObjectsFrom_object hu hlead []
        (e.rear ++ (((elements.map Element.text).flatMap fun u ↦ 0x2c :: u) ++ [0x5d]))
        (listText blank (e :: elements)).length
      have hmore := fieldObjectsFrom_tail (fun e' he' ↦ h e' (List.mem_cons_of_mem e he')) hrear
        ([] ++ ((0x5b :: blank ++ e.lead) ++ 0x7b :: (u ++ [0x7d]))) [0x5d] (by decide) _ hturns
      have htext : listText blank (e :: elements) = [] ++ ((0x5b :: blank ++ e.lead) ++
          (0x7b :: (u ++ [0x7d]) ++ (e.rear ++
            (((elements.map Element.text).flatMap fun u ↦ 0x2c :: u) ++ [0x5d])))) := by
        rw [listText, listed, List.map_cons, commas, Element.text, hvalue]
        simp only [List.append_assoc, List.cons_append, List.nil_append]
      have hsame : [] ++ ((0x5b :: blank ++ e.lead) ++ 0x7b :: (u ++ [0x7d])) ++ (e.rear ++
          (((elements.map Element.text).flatMap fun u ↦ 0x2c :: u) ++ [0x5d])) =
          listText blank (e :: elements) := by
        rw [htext]
        simp only [List.append_assoc]
      rw [← htext] at hstep
      rw [hsame] at hmore
      rw [fieldObjects]
      refine hstep.trans ?_
      rw [hmore, Option.map_some, List.map_cons, hvalue]

/-! ## Mappers -/

/-- A member whose value is a string, with no quote in the key or in the string. -/
structure Member.IsNamed (m : Member) (name : Text) : Prop where
  spelled : m.Spelled
  value : m.value = quoted name
  noQuote : (0x22 : UInt8) ∉ m.key ∧ (0x22 : UInt8) ∉ name

theorem mapperNumericFrom_none {text : Text} {pos : ℕ} (h : find text 0x22 pos = none)
    (mappedName : Text) (turns : ℕ) : mapperNumericFrom text mappedName (turns + 1) pos = .ok none := by
  rw [mapperNumericFrom]
  dsimp only [Option.bind_eq_bind]
  rw [h]
  rfl

/-- One turn of the loop over the quoted texts. -/
theorem mapperNumericFrom_turn {key mid after name lead : Text} (hlead : (0x22 : UInt8) ∉ lead)
    (hkey : (0x22 : UInt8) ∉ key) (hmid : (0x3a : UInt8) ∉ mid) (hafter : (0x22 : UInt8) ∉ after)
    (hname : (0x22 : UInt8) ∉ name) (pre post mappedName : Text) (turns : ℕ) {text : Text}
    (htext : text = pre ++ (lead ++ (quoted key ++ (mid ++ 0x3a :: (after ++ (quoted name ++ post)))))) :
    mapperNumericFrom text mappedName (turns + 1) pre.length =
      if name = mappedName then some <$> ProtoDefDecoder.stoullText key
      else mapperNumericFrom text mappedName turns
        (pre ++ (lead ++ (quoted key ++ (mid ++ 0x3a :: (after ++ quoted name))))).length := by
  -- The same text, split in front of each quote and of the colon.
  have h0 : text = pre ++ (lead ++ 0x22 :: (key ++ 0x22 :: (mid ++ 0x3a :: (after ++ 0x22 ::
      (name ++ 0x22 :: post))))) := by
    rw [htext]
    simp only [quoted_eq, List.append_assoc, List.cons_append, List.nil_append]
  have h1 : text = (pre ++ lead ++ [0x22]) ++ (key ++ 0x22 :: (mid ++ 0x3a :: (after ++ 0x22 ::
      (name ++ 0x22 :: post)))) := by
    rw [h0]
    simp only [List.append_assoc, List.cons_append, List.nil_append]
  have h2 : text = (pre ++ lead ++ [0x22] ++ key ++ [0x22]) ++ (mid ++ 0x3a :: (after ++ 0x22 ::
      (name ++ 0x22 :: post))) := by
    rw [h0]
    simp only [List.append_assoc, List.cons_append, List.nil_append]
  have h3 : text = (pre ++ lead ++ [0x22] ++ key ++ [0x22] ++ mid ++ [0x3a]) ++ (after ++ 0x22 ::
      (name ++ 0x22 :: post)) := by
    rw [h0]
    simp only [List.append_assoc, List.cons_append, List.nil_append]
  have h4 : text = (pre ++ lead ++ [0x22] ++ key ++ [0x22] ++ mid ++ [0x3a] ++ after ++ [0x22]) ++
      (name ++ 0x22 :: post) := by
    rw [h0]
    simp only [List.append_assoc, List.cons_append, List.nil_append]
  have hk1 := find_at pre lead (key ++ 0x22 :: (mid ++ 0x3a :: (after ++ 0x22 ::
    (name ++ 0x22 :: post)))) hlead
  have hk2 := find_at (pre ++ lead ++ [0x22]) key (mid ++ 0x3a :: (after ++ 0x22 ::
    (name ++ 0x22 :: post))) hkey
  have hcolon := find_at (pre ++ lead ++ [0x22] ++ key ++ [0x22]) mid (after ++ 0x22 ::
    (name ++ 0x22 :: post)) hmid
  have hv1 := find_at (pre ++ lead ++ [0x22] ++ key ++ [0x22] ++ mid ++ [0x3a]) after
    (name ++ 0x22 :: post) hafter
  have hv2 := find_at (pre ++ lead ++ [0x22] ++ key ++ [0x22] ++ mid ++ [0x3a] ++ after ++ [0x22]) name
    post hname
  have hfound := substr_at (pre ++ lead ++ [0x22]) key (0x22 :: (mid ++ 0x3a :: (after ++ 0x22 ::
    (name ++ 0x22 :: post))))
  have hvalue := substr_at (pre ++ lead ++ [0x22] ++ key ++ [0x22] ++ mid ++ [0x3a] ++ after ++ [0x22])
    name (0x22 :: post)
  have hend : (pre ++ (lead ++ (quoted key ++ (mid ++ 0x3a :: (after ++ quoted name))))).length =
      pre.length + lead.length + key.length + mid.length + after.length + name.length + 5 := by
    simp only [List.length_append, List.length_cons, length_quoted]
    omega
  rw [← h0] at hk1
  rw [← h1] at hk2 hfound
  rw [← h2] at hcolon
  rw [← h3] at hv1
  rw [← h4] at hv2 hvalue
  clear h0 h1 h2 h3 h4 htext
  simp only [List.length_append, List.length_singleton] at hk1 hk2 hcolon hv1 hv2 hfound hvalue
  have hsize : pre.length + lead.length + 1 + key.length - (pre.length + lead.length) - 1 =
      key.length := by omega
  have hsize' : pre.length + lead.length + 1 + key.length + 1 + mid.length + 1 + after.length + 1 +
      name.length - (pre.length + lead.length + 1 + key.length + 1 + mid.length + 1 + after.length) - 1 =
      name.length := by omega
  have hnext : pre.length + lead.length + 1 + key.length + 1 + mid.length + 1 + after.length + 1 +
      name.length + 1 =
      pre.length + lead.length + key.length + mid.length + after.length + name.length + 5 := by omega
  rw [mapperNumericFrom, hend]
  dsimp only [Option.bind_eq_bind]
  rw [hk1]
  dsimp only [Option.bind_some]
  rw [hk2]
  dsimp only [Option.bind_some]
  rw [hcolon]
  dsimp only [Option.bind_some]
  rw [hv1]
  dsimp only [Option.bind_some]
  rw [hv2]
  dsimp only [Option.bind_some]
  rw [hsize, hfound, hsize', hvalue, hnext]

/-- The number of the first member with the name. -/
def firstNumber (members : List Member) (mappedName : Text) : Except String (Option ℕ) :=
  match members.find? fun m ↦ m.value = quoted mappedName with
  | none => .ok none
  | some m => some <$> ProtoDefDecoder.stoullText m.key

theorem firstNumber_cons {m : Member} {name : Text} (h : m.value = quoted name) (members : List Member)
    (mappedName : Text) :
    firstNumber (m :: members) mappedName =
      if name = mappedName then some <$> ProtoDefDecoder.stoullText m.key
      else firstNumber members mappedName := by
  rw [firstNumber, List.find?_cons, h]
  by_cases hname : name = mappedName
  · rw [hname, decide_eq_true rfl, if_pos rfl]
  · have hne : quoted name ≠ quoted mappedName := by
      intro heq
      rw [quoted_eq, quoted_eq] at heq
      exact hname (List.append_cancel_right (List.cons.inj heq).2)
    rw [decide_eq_false hne, if_neg hname]
    rfl

theorem mapperNumericFrom_tail {members : List Member} (h : ∀ m ∈ members, ∃ name, m.IsNamed name)
    {gap : Text} (hgap : (0x22 : UInt8) ∉ gap) (pre mappedName : Text) (turns : ℕ)
    (hturns : members.length < turns) :
    mapperNumericFrom (pre ++ (gap ++ (((members.map Member.text).flatMap fun u ↦ 0x2c :: u) ++ [0x7d])))
        mappedName turns pre.length =
      firstNumber members mappedName := by
  induction members generalizing gap pre turns with
  | nil =>
      obtain ⟨turns, rfl⟩ : ∃ t, turns = t + 1 := ⟨turns - 1, by omega⟩
      have hrest : (0x22 : UInt8) ∉ gap ++ [0x7d] := by
        rw [List.mem_append, not_or]
        exact ⟨hgap, by decide⟩
      exact mapperNumericFrom_none (find_none pre _ hrest) mappedName turns
  | cons m members ih =>
      obtain ⟨turns, rfl⟩ : ∃ t, turns = t + 1 := ⟨turns - 1, by omega⟩
      rw [List.length_cons] at hturns
      obtain ⟨name, hm⟩ := h m List.mem_cons_self
      have hlead : (0x22 : UInt8) ∉ gap ++ 0x2c :: m.lead := by
        rw [List.mem_append, List.mem_cons, not_or, not_or]
        exact ⟨hgap, by decide, not_mem_blank hm.spelled.lead (by decide)⟩
      have htext : pre ++ (gap ++ ((((m :: members).map Member.text).flatMap fun u ↦ 0x2c :: u) ++
          [0x7d])) =
          pre ++ ((gap ++ 0x2c :: m.lead) ++ (quoted m.key ++ (m.before ++ 0x3a :: (m.after ++
            (quoted name ++ (m.rear ++ (((members.map Member.text).flatMap fun u ↦ 0x2c :: u) ++
              [0x7d]))))))) := by
        rw [List.map_cons, List.flatMap_cons, Member.text, hm.value]
        simp only [List.append_assoc, List.cons_append]
      have hstep := mapperNumericFrom_turn hlead hm.noQuote.1
        (not_mem_blank hm.spelled.before (by decide)) (not_mem_blank hm.spelled.after (by decide))
        hm.noQuote.2 pre _ mappedName turns htext
      have hmore := ih (fun m' hm' ↦ h m' (List.mem_cons_of_mem m hm'))
        (not_mem_blank hm.spelled.rear (by decide))
        (pre ++ ((gap ++ 0x2c :: m.lead) ++ (quoted m.key ++ (m.before ++ 0x3a :: (m.after ++
          quoted name))))) turns (by omega)
      have hsame : pre ++ ((gap ++ 0x2c :: m.lead) ++ (quoted m.key ++ (m.before ++ 0x3a :: (m.after ++
          quoted name)))) ++ (m.rear ++ (((members.map Member.text).flatMap fun u ↦ 0x2c :: u) ++
            [0x7d])) =
          pre ++ (gap ++ ((((m :: members).map Member.text).flatMap fun u ↦ 0x2c :: u) ++ [0x7d])) := by
        rw [htext]
        simp only [List.append_assoc, List.cons_append]
      rw [hsame] at hmore
      rw [hstep, hmore, firstNumber_cons hm.value]

/-- The encoder finds the key of the first member with the name. -/
theorem mapperNumericFrom_object {blank : Text} {members : List Member} (hblank : isBlank blank = true)
    (h : ∀ m ∈ members, ∃ name, m.IsNamed name) (mappedName : Text) (turns : ℕ)
    (hturns : members.length < turns) :
    mapperNumericFrom (spelledObject blank members) mappedName turns 0 =
      firstNumber members mappedName := by
  obtain ⟨turns, rfl⟩ : ∃ t, turns = t + 1 := ⟨turns - 1, by omega⟩
  have hopen : (0x22 : UInt8) ∉ 0x7b :: blank := by
    rw [List.mem_cons, not_or]
    exact ⟨by decide, not_mem_blank hblank (by decide)⟩
  cases members with
  | nil =>
      have hrest : (0x22 : UInt8) ∉ spelledObject blank [] := by
        rw [spelledObject, inside, List.map_nil, commas, List.append_nil, ← List.cons_append,
          List.mem_append, not_or]
        exact ⟨hopen, by decide⟩
      exact mapperNumericFrom_none (find_none [] _ hrest) mappedName turns
  | cons m members =>
      rw [List.length_cons] at hturns
      obtain ⟨name, hm⟩ := h m List.mem_cons_self
      have hlead : (0x22 : UInt8) ∉ 0x7b :: blank ++ m.lead := by
        rw [List.mem_append, not_or]
        exact ⟨hopen, not_mem_blank hm.spelled.lead (by decide)⟩
      have htext : spelledObject blank (m :: members) =
          [] ++ ((0x7b :: blank ++ m.lead) ++ (quoted m.key ++ (m.before ++ 0x3a :: (m.after ++
            (quoted name ++ (m.rear ++ (((members.map Member.text).flatMap fun u ↦ 0x2c :: u) ++
              [0x7d]))))))) := by
        rw [spelledObject, inside, List.map_cons, commas, Member.text, hm.value]
        simp only [List.append_assoc, List.cons_append, List.nil_append]
      have hstep := mapperNumericFrom_turn hlead hm.noQuote.1
        (not_mem_blank hm.spelled.before (by decide)) (not_mem_blank hm.spelled.after (by decide))
        hm.noQuote.2 [] _ mappedName turns htext
      have hmore := mapperNumericFrom_tail (fun m' hm' ↦ h m' (List.mem_cons_of_mem m hm'))
        (not_mem_blank hm.spelled.rear (by decide))
        ([] ++ ((0x7b :: blank ++ m.lead) ++ (quoted m.key ++ (m.before ++ 0x3a :: (m.after ++
          quoted name))))) mappedName turns (by omega)
      have hsame : [] ++ ((0x7b :: blank ++ m.lead) ++ (quoted m.key ++ (m.before ++ 0x3a :: (m.after ++
          quoted name)))) ++ (m.rear ++ (((members.map Member.text).flatMap fun u ↦ 0x2c :: u) ++
            [0x7d])) =
          spelledObject blank (m :: members) := by
        rw [htext]
        simp only [List.append_assoc, List.cons_append]
      rw [hsame] at hmore
      rw [firstNumber_cons hm.value, ← hmore]
      exact hstep

theorem commas_append (texts : List Text) (t : Text) (later : List Text) :
    commas (texts ++ t :: later) =
      (texts.flatMap fun u ↦ u ++ [0x2c]) ++ (t ++ later.flatMap fun u ↦ 0x2c :: u) := by
  induction texts with
  | nil => rfl
  | cons u texts ih =>
      rw [List.cons_append, commas_cons _ _ (by simp), ih, List.flatMap_cons]
      simp only [List.append_assoc, List.cons_append, List.nil_append]

/-- The object of a key that the type does not mention before. -/
theorem objectBehind_pairText {kind gap lead blank k : Text} (hk : Searched k)
    (hkind : (0x22 : UInt8) ∉ kind) (hne : kind ≠ k) (hgap : isBlank gap = true)
    (hlead : isBlank lead = true) (hblank : isBlank blank = true) {earlier : List Member}
    (hlacks : ∀ e ∈ earlier, Lacks k e.text) {m : Member} (hm : m.Spelled) (hkey : m.key = k) {u : Text}
    (hu : Piece u) (hvalue : m.value = 0x7b :: (u ++ [0x7d])) (later : List Member) (rear : Text) :
    objectBehind (pairText kind gap (lead ++ (spelledObject blank (earlier ++ m :: later) ++ rear))) k =
      some (0x7b :: (u ++ [0x7d])) := by
  generalize hpre : 0x5b :: (quoted kind ++ (gap ++ (0x2c :: (lead ++ (0x7b :: (blank ++
    (((earlier.map Member.text).flatMap fun u ↦ u ++ [0x2c]) ++ m.lead))))))) = pre
  generalize hpost : m.rear ++ (((later.map Member.text).flatMap fun u ↦ 0x2c :: u) ++
    0x7d :: (rear ++ [0x5d])) = post
  have htext : pairText kind gap (lead ++ (spelledObject blank (earlier ++ m :: later) ++ rear)) =
      pre ++ (quoted k ++ ((m.before ++ 0x3a :: m.after) ++ (0x7b :: (u ++ [0x7d]) ++ post))) := by
    rw [pairText, spelledObject, inside, List.map_append, List.map_cons, commas_append, Member.text,
      hkey, hvalue, ← hpre, ← hpost]
    simp only [List.append_assoc, List.cons_append, List.nil_append]
  have hmark {c : UInt8} (hc : isMark c = true) (hquote : c ≠ 0x22) : Lacks k [c] := .mark hc hquote
  have hearlier : Lacks k ((earlier.map Member.text).flatMap fun u ↦ u ++ [0x2c]) := by
    clear htext hpre
    induction earlier with
    | nil => exact .nil
    | cons e earlier ih =>
        rw [List.map_cons, List.flatMap_cons]
        exact ((hlacks e List.mem_cons_self).append (hmark rfl (by decide))).append
          (ih fun e' he' ↦ hlacks e' (List.mem_cons_of_mem e he'))
  have hpreLacks : Lacks k pre := by
    rw [← hpre]
    have hinside : Lacks k ([0x7b] ++ (blank ++
        (((earlier.map Member.text).flatMap fun u ↦ u ++ [0x2c]) ++ m.lead))) :=
      (hmark rfl (by decide)).append ((Lacks.blank hblank).append
        (hearlier.append (.blank hm.lead)))
    have hbehind : Lacks k ([0x2c] ++ (lead ++ ([0x7b] ++ (blank ++
        (((earlier.map Member.text).flatMap fun u ↦ u ++ [0x2c]) ++ m.lead))))) :=
      (hmark rfl (by decide)).append ((Lacks.blank hlead).append hinside)
    have hopening : Lacks k [0x5b] := hmark rfl (by decide)
    exact hopening.append ((Lacks.string hk hkind hne).append ((Lacks.blank hgap).append hbehind))
  have hplace := findText_at hpreLacks ((m.before ++ 0x3a :: m.after) ++ (0x7b :: (u ++ [0x7d]) ++ post))
  rw [← htext] at hplace
  have hmid : (0x7b : UInt8) ∉ m.before ++ 0x3a :: m.after := by
    rw [List.mem_append, List.mem_cons, not_or, not_or]
    exact ⟨not_mem_blank hm.before (by decide), by decide, not_mem_blank hm.after (by decide)⟩
  exact objectBehind_of_text hplace hmid hu htext

end JsonPieces

end BedrockProtocol
