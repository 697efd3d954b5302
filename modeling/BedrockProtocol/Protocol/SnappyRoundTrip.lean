import BedrockProtocol.Protocol.SnappyCodec

/-!
# What the Snappy compressor writes, the decompressor reads

The invariant of the compressor is that the elements written so far produce the
part of the input before `nextLiteral`.  Each element steps it: a literal by the
bytes it carries, a copy by bytes that were compared with an earlier position.
-/

namespace BedrockProtocol

namespace SnappyCodec

/-- A sequence of elements that takes the output from one text to another. -/
inductive Elements (declaredLength : ℕ) : List UInt8 → List UInt8 → List UInt8 → Prop
  | nil (output : List UInt8) : Elements declaredLength [] output output
  | cons {bytes rest output output' output'' : List UInt8} :
      bytes ≠ [] → output.length < declaredLength →
      Reads (readElement declaredLength output) bytes output' →
      Elements declaredLength rest output' output'' →
      Elements declaredLength (bytes ++ rest) output output''

namespace Elements

variable {declaredLength : ℕ} {bytes rest output output' output'' : List UInt8}

theorem single (hne : bytes ≠ []) (hlt : output.length < declaredLength)
    (h : Reads (readElement declaredLength output) bytes output') :
    Elements declaredLength bytes output output' := by
  simpa using cons hne hlt h (nil output')

theorem append (h : Elements declaredLength bytes output output')
    (h' : Elements declaredLength rest output' output'') :
    Elements declaredLength (bytes ++ rest) output output'' := by
  induction h with
  | nil output => exact h'
  | cons hne hlt hread _ ih =>
      rw [List.append_assoc]
      exact cons hne hlt hread (ih h')

/-- At the end of the input the loop has applied every element. -/
theorem readElements (h : Elements declaredLength bytes output output') (fuel offset : ℕ)
    (hfuel : bytes.length ≤ fuel) :
    SnappyCodec.readElements declaredLength fuel output ⟨offset, bytes⟩ =
      .ok (output', ⟨offset + bytes.length, []⟩) := by
  induction h generalizing fuel offset with
  | nil output =>
      cases fuel with
      | zero => rfl
      | succ fuel => rfl
  | @cons bytes rest output output' output'' hne hlt hread _ ih =>
      have hpos : 0 < bytes.length := List.length_pos_of_ne_nil hne
      rw [List.length_append] at hfuel
      obtain ⟨fuel, rfl⟩ : ∃ f, fuel = f + 1 := ⟨fuel - 1, by omega⟩
      have hstep : SnappyCodec.readElements declaredLength (fuel + 1) output
          ⟨offset, bytes ++ rest⟩ =
            SnappyCodec.readElements declaredLength fuel output'
              ⟨offset + bytes.length, rest⟩ := by
        have hgo : ¬ ((bytes ++ rest).length = 0 ∨ declaredLength ≤ output.length) := by
          rw [List.length_append]
          omega
        change (if (bytes ++ rest).length = 0 ∨ declaredLength ≤ output.length then
            (pure output : Reader _)
          else do
            let output ← readElement declaredLength output
            SnappyCodec.readElements declaredLength fuel output) ⟨offset, bytes ++ rest⟩ = _
        rw [if_neg hgo]
        change (readElement declaredLength output ⟨offset, bytes ++ rest⟩ >>= _) = _
        rw [hread]
        rfl
      rw [hstep, ih fuel (offset + bytes.length) (by omega), List.length_append, Nat.add_assoc]

end Elements

/-! ## Reading one element back -/

theorem reads_readLittleEndian {k v : ℕ} (message : String) (h : v < 256 ^ k) :
    Reads (readLittleEndian k message) (leBytes k v) v := by
  have htake := Reads.take (s := fun _ ↦ message) (leBytes k v) (length_leBytes k v)
  have hread := htake.bind (k := fun bytes ↦ pure (leValue bytes)) (Reads.pure _)
  rwa [List.append_nil, leValue_leBytes_of_lt h] at hread

/-- After the tag and the length, a literal reads its own bytes. -/
theorem reads_readLiteral {declaredLength tag length : ℕ} {output header bytes : List UInt8}
    (hlength : Reads (readLiteralLength (tag >>> 2)) header length)
    (hbytes : bytes.length = length) (hfit : output.length + length ≤ declaredLength) :
    Reads (readLiteral declaredLength output tag) (header ++ bytes) (output ++ bytes) := by
  refine hlength.bind (reads_remaining_bind fun remaining hremaining ↦ ?_)
  rw [if_neg (by omega), if_neg (by omega)]
  have hread := (Reads.take (s := fun _ ↦ "snappy literal is truncated") bytes hbytes).bind
    (k := fun bytes ↦ pure (output ++ bytes)) (Reads.pure _)
  rwa [List.append_nil] at hread

theorem lengthBytes_bounds (n : ℕ) : 1 ≤ lengthBytes n ∧ lengthBytes n ≤ 4 := by
  unfold lengthBytes
  split_ifs <;> omega

theorem lt_pow_lengthBytes {n : ℕ} (h : n < 2 ^ 32) : n < 256 ^ lengthBytes n := by
  unfold lengthBytes
  simp only [Nat.shiftRight_eq_div_pow]
  split_ifs <;> omega

theorem shortLiteral_tag : ∀ n < 60, n <<< 2 < 256 ∧ (n <<< 2) &&& 0x03 = 0 ∧
    (n <<< 2) >>> 2 = n := by
  decide

theorem longLiteral_tag : ∀ k ≤ 4, (59 + k) <<< 2 < 256 ∧ ((59 + k) <<< 2) &&& 0x03 = 0 ∧
    ((59 + k) <<< 2) >>> 2 = 59 + k := by
  decide

theorem copyOne_tag : ∀ n < 8, ∀ h < 8, (0x01 ||| (n <<< 2) ||| (h <<< 5)) < 256 ∧
    (0x01 ||| (n <<< 2) ||| (h <<< 5)) &&& 0x03 = 1 ∧
    ((0x01 ||| (n <<< 2) ||| (h <<< 5)) >>> 2) &&& 0x07 = n ∧
    ((0x01 ||| (n <<< 2) ||| (h <<< 5)) &&& 0xe0) <<< 3 = h <<< 8 := by
  decide

theorem copyTwo_tag : ∀ n < 64, ((n <<< 2) ||| 0x02) < 256 ∧ ((n <<< 2) ||| 0x02) &&& 0x03 = 2 ∧
    ((n <<< 2) ||| 0x02) >>> 2 = n := by
  decide

/-- A literal of `length` bytes extends the output by them. -/
theorem reads_literal {declaredLength offset length : ℕ} {input output : List UInt8}
    (hpos : 0 < length) (hmax : length ≤ 2 ^ 32) (hin : offset + length ≤ input.length)
    (hfit : output.length + length ≤ declaredLength) :
    Reads (readElement declaredLength output) (emitLiteral input offset length)
      (output ++ (input.drop offset).take length) := by
  have hbytes : ((input.drop offset).take length).length = length := by
    rw [List.length_take, List.length_drop]
    omega
  have hmod : (length - 1) % 2 ^ 32 = length - 1 := Nat.mod_eq_of_lt (by omega)
  rw [emitLiteral, if_neg (by omega), hmod]
  by_cases hshort : length ≤ 60
  · obtain ⟨hlt, hkind, hlen⟩ := shortLiteral_tag (length - 1) (by omega)
    have hlength : Reads (readLiteralLength (((length - 1) <<< 2) >>> 2)) [] length := by
      rw [hlen, readLiteralLength, if_pos (by omega), Nat.sub_add_cancel hpos]
      exact Reads.pure _
    simp only [if_pos hshort]
    refine (Reads.byte _).bind ?_
    rw [toNat_ofNat_of_lt hlt, if_pos hkind]
    exact reads_readLiteral hlength hbytes hfit
  · obtain ⟨hk1, hk4⟩ := lengthBytes_bounds (length - 1)
    obtain ⟨hlt, hkind, hlen⟩ := longLiteral_tag (lengthBytes (length - 1)) hk4
    have hlength : Reads (readLiteralLength (((59 + lengthBytes (length - 1)) <<< 2) >>> 2))
        (leBytes (lengthBytes (length - 1)) (length - 1)) length := by
      rw [hlen, readLiteralLength, if_neg (by omega), Nat.add_sub_cancel_left]
      have hread := (reads_readLittleEndian "snappy literal length is truncated"
        (lt_pow_lengthBytes (n := length - 1) (by omega))).bind
          (k := fun lengthMinusOne ↦ pure (lengthMinusOne + 1)) (Reads.pure _)
      rwa [List.append_nil, Nat.sub_add_cancel hpos] at hread
    simp only [if_neg hshort, List.cons_append]
    refine (Reads.byte _).bind_cons ?_
    rw [toNat_ofNat_of_lt hlt, if_pos hkind]
    exact reads_readLiteral hlength hbytes hfit

theorem reads_applyCopy {declaredLength copyLength copyOffset : ℕ} {output : List UInt8}
    (hpos : 0 < copyOffset) (hback : copyOffset ≤ output.length)
    (hfit : output.length + copyLength ≤ declaredLength) :
    Reads (applyCopy declaredLength output copyLength copyOffset) []
      (copyBack copyOffset copyLength output) := by
  rw [applyCopy, if_neg (by omega), if_neg (by omega)]
  exact Reads.pure _

theorem reads_copyOne {declaredLength offset length : ℕ} {output : List UInt8}
    (hlen4 : 4 ≤ length) (hlen11 : length ≤ 11) (hpos : 0 < offset) (hoffset : offset < 2048)
    (hback : offset ≤ output.length) (hfit : output.length + length ≤ declaredLength) :
    Reads (readElement declaredLength output) (emitCopyOne offset length)
      (copyBack offset length output) := by
  have hhigh : offset >>> 8 < 8 := by
    rw [Nat.shiftRight_eq_div_pow]
    omega
  obtain ⟨hlt, hkind, hlen, hoff⟩ := copyOne_tag (length - 4) (by omega) (offset >>> 8) hhigh
  have hsplit : ((offset >>> 8) <<< 8) ||| (offset % 256) = offset := by
    have hlow : offset % 256 < 2 ^ 8 := Nat.mod_lt _ (by norm_num)
    rw [Nat.or_comm, or_shiftLeft_of_lt hlow, Nat.shiftRight_eq_div_pow]
    omega
  have hlow : Reads (readLittleEndian 1 "snappy copy-1 offset is truncated")
      [UInt8.ofNat offset] (offset % 256) := by
    have hread := reads_readLittleEndian (k := 1) (v := offset % 256)
      "snappy copy-1 offset is truncated" (Nat.mod_lt _ (by norm_num))
    simpa [leBytes] using hread
  refine (Reads.byte _).bind_cons ?_
  simp only [toNat_ofNat_of_lt hlt, hkind, one_ne_zero, ↓reduceIte]
  refine hlow.bind_last ?_
  rw [hlen, hoff, hsplit, Nat.add_sub_cancel' hlen4]
  exact reads_applyCopy hpos hback hfit

theorem reads_copyTwo {declaredLength offset length : ℕ} {output : List UInt8}
    (hlen1 : 1 ≤ length) (hlen64 : length ≤ 64) (hpos : 0 < offset) (hoffset : offset < 65536)
    (hback : offset ≤ output.length) (hfit : output.length + length ≤ declaredLength) :
    Reads (readElement declaredLength output) (emitCopyTwo offset length)
      (copyBack offset length output) := by
  obtain ⟨hlt, hkind, hlen⟩ := copyTwo_tag (length - 1) (by omega)
  have hlow : Reads (readLittleEndian 2 "snappy copy-2 offset is truncated")
      [UInt8.ofNat offset, UInt8.ofNat (offset >>> 8)] offset := by
    have hread := reads_readLittleEndian (k := 2) (v := offset)
      "snappy copy-2 offset is truncated" (by omega)
    have hhigh : offset / 256 % 256 = offset / 256 := Nat.mod_eq_of_lt (by omega)
    simpa [leBytes, Nat.shiftRight_eq_div_pow, hhigh] using hread
  refine (Reads.byte _).bind_cons ?_
  simp only [toNat_ofNat_of_lt hlt, hkind, OfNat.ofNat_ne_zero, OfNat.ofNat_ne_one, ↓reduceIte]
  refine hlow.bind_last ?_
  rw [hlen, Nat.add_sub_cancel' hlen1]
  exact reads_applyCopy hpos hback hfit

/-! ## The elements of a whole block -/

/-- The elements take the output from the first `a` bytes of the input to the
first `b`. -/
def Produces (input bytes : List UInt8) (a b : ℕ) : Prop :=
  Elements input.length bytes (input.take a) (input.take b)

/-- Positions `source` and `target` hold the same `n` bytes. -/
def Agree (input : List UInt8) (source target n : ℕ) : Prop :=
  ∀ i < n, input[source + i]? = input[target + i]?

section Produces

variable {input : List UInt8} {source target n : ℕ}

theorem Produces.nil (a : ℕ) : Produces input [] a a := Elements.nil _

theorem Produces.append {xs ys : List UInt8} {a b c : ℕ} (h : Produces input xs a b)
    (h' : Produces input ys b c) : Produces input (xs ++ ys) a c :=
  Elements.append h h'

theorem Agree.mono {m : ℕ} (h : Agree input source target n) (hm : m ≤ n) :
    Agree input source target m :=
  fun i hi ↦ h i (by omega)

theorem Agree.shift {k : ℕ} (h : Agree input source target n) (hk : k ≤ n) :
    Agree input (source + k) (target + k) (n - k) := by
  intro i hi
  have := h (k + i) (by omega)
  rwa [← Nat.add_assoc, ← Nat.add_assoc] at this

theorem produces_literal {a b : ℕ} (hab : a ≤ b) (hb : b ≤ input.length)
    (hmax : input.length < 2 ^ 32) : Produces input (emitLiteral input a (b - a)) a b := by
  rcases Nat.eq_or_lt_of_le hab with rfl | hlt
  · simpa [emitLiteral] using @Produces.nil input a
  · have hlen : (input.take a).length = a := by
      rw [List.length_take]
      omega
    have htext : input.take a ++ (input.drop a).take (b - a) = input.take b := by
      rw [← List.take_add]
      congr 1
      omega
    have hread : Reads (readElement input.length (input.take a)) (emitLiteral input a (b - a))
        (input.take a ++ (input.drop a).take (b - a)) :=
      reads_literal (by omega) (by omega) (by omega) (by omega)
    rw [htext] at hread
    refine Elements.single ?_ (by omega) hread
    rw [emitLiteral, if_neg (by omega)]
    split_ifs <;> simp

theorem produces_copyTwo (hlt : source < target) (hn1 : 1 ≤ n) (hn64 : n ≤ 64)
    (hin : target + n ≤ input.length) (hnear : target - source < 65536)
    (hagree : Agree input source target n) :
    Produces input (emitCopyTwo (target - source) n) target (target + n) := by
  have hlen : (input.take target).length = target := by
    rw [List.length_take]
    omega
  have hread : Reads (readElement input.length (input.take target))
      (emitCopyTwo (target - source) n) (copyBack (target - source) n (input.take target)) :=
    reads_copyTwo hn1 hn64 (Nat.sub_pos_of_lt hlt) hnear (by omega) (by omega)
  rw [copyBack_take input n source target hlt hin hagree] at hread
  exact Elements.single (by simp [emitCopyTwo]) (by omega) hread

theorem produces_copyOne (hlt : source < target) (hn4 : 4 ≤ n) (hn11 : n ≤ 11)
    (hin : target + n ≤ input.length) (hnear : target - source < 2048)
    (hagree : Agree input source target n) :
    Produces input (emitCopyOne (target - source) n) target (target + n) := by
  have hlen : (input.take target).length = target := by
    rw [List.length_take]
    omega
  have hread : Reads (readElement input.length (input.take target))
      (emitCopyOne (target - source) n) (copyBack (target - source) n (input.take target)) :=
    reads_copyOne hn4 hn11 (Nat.sub_pos_of_lt hlt) hnear (by omega) (by omega)
  rw [copyBack_take input n source target hlt hin hagree] at hread
  exact Elements.single (by simp [emitCopyOne]) (by omega) hread

theorem produces_finalCopy (hlt : source < target) (hn1 : 1 ≤ n) (hn64 : n ≤ 64)
    (hin : target + n ≤ input.length) (hnear : target - source < 65536)
    (hagree : Agree input source target n) :
    Produces input (emitFinalCopy (target - source) n) target (target + n) := by
  unfold emitFinalCopy
  split
  · rename_i h
    exact produces_copyOne hlt h.2.1 h.2.2 hin h.1 hagree
  · exact produces_copyTwo hlt hn1 hn64 hin hnear hagree

/-- A copy that leaves something over, then the copy of the rest. -/
theorem Produces.copyTwo_append {k : ℕ} {rest : List UInt8} (hlt : source < target)
    (hk1 : 1 ≤ k) (hk64 : k ≤ 64) (hkn : k ≤ n) (hin : target + n ≤ input.length)
    (hnear : target - source < 65536) (hagree : Agree input source target n)
    (hrest : Produces input rest (target + k) (target + k + (n - k))) :
    Produces input (emitCopyTwo (target - source) k ++ rest) target (target + n) := by
  have hfirst := produces_copyTwo hlt hk1 hk64 (by omega) hnear (hagree.mono hkn)
  have hend : target + k + (n - k) = target + n := by omega
  rw [hend] at hrest
  exact hfirst.append hrest

theorem produces_copyFrom (fuel : ℕ) (hlt : source < target) (hn1 : 1 ≤ n) (hfuel : n ≤ fuel)
    (hin : target + n ≤ input.length) (hnear : target - source < 65536)
    (hagree : Agree input source target n) :
    Produces input (emitCopyFrom (target - source) fuel n) target (target + n) := by
  induction fuel generalizing source target n with
  | zero => omega
  | succ fuel ih =>
      -- Source and target move together, so every element has the same offset.
      have hsame (k : ℕ) : target + k - (source + k) = target - source := by omega
      unfold emitCopyFrom
      split
      · have hrest := @ih (source + 64) (target + 64) (n - 64)
          (by omega) (by omega) (by omega) (by omega) (by omega) (hagree.shift (by omega))
        rw [hsame] at hrest
        exact .copyTwo_append hlt (by omega) le_rfl (by omega) hin hnear hagree hrest
      · split
        · have hrest := @produces_finalCopy input (source + 60) (target + 60) (n - 60)
            (by omega) (by omega) (by omega) (by omega) (by omega) (hagree.shift (by omega))
          rw [hsame] at hrest
          exact .copyTwo_append hlt (by omega) (by omega) (by omega) hin hnear hagree hrest
        · exact produces_finalCopy hlt hn1 (by omega) hin hnear hagree

end Produces

/-! ## The scan -/

/-- Equal four-byte words are four equal bytes. -/
theorem agree_of_load32_eq {input : List UInt8} {source target : ℕ}
    (hs : source + 4 ≤ input.length) (ht : target + 4 ≤ input.length)
    (h : load32 input source = load32 input target) : Agree input source target 4 := by
  have hwords := leValue_injective (by simp; omega) h
  intro i hi
  have hbyte := congrArg (fun l ↦ l[i]?) hwords
  simpa [List.getElem?_take, hi] using hbyte

/-- The match grows only over equal bytes and stays inside the fragment. -/
theorem extendMatch_spec {input : List UInt8} {candidate position fragmentEnd : ℕ} (fuel m : ℕ)
    (hend : position + m ≤ fragmentEnd) (hagree : Agree input candidate position m) :
    m ≤ extendMatch input candidate position fragmentEnd fuel m ∧
      position + extendMatch input candidate position fragmentEnd fuel m ≤ fragmentEnd ∧
      Agree input candidate position
        (extendMatch input candidate position fragmentEnd fuel m) := by
  induction fuel generalizing m with
  | zero => exact ⟨le_rfl, hend, hagree⟩
  | succ fuel ih =>
      unfold extendMatch
      split
      · rename_i hnext
        have hagree' : Agree input candidate position (m + 1) := by
          intro i hi
          rcases Nat.lt_succ_iff_lt_or_eq.mp hi with hlt | rfl
          · exact hagree i hlt
          · exact hnext.2
        obtain ⟨hle, hend', hagree''⟩ := ih (m + 1) (by omega) hagree'
        exact ⟨by omega, hend', hagree''⟩
      · exact ⟨le_rfl, hend, hagree⟩

/-- Every table entry lies before the position of the scan. -/
def TableBefore (table : ℕ → Option ℕ) (position : ℕ) : Prop :=
  ∀ hash entry, table hash = some entry → entry < position

theorem TableBefore.update {table : ℕ → Option ℕ} {position position' entry hash : ℕ}
    (h : TableBefore table position) (hle : position ≤ position') (hentry : entry < position') :
    TableBefore (Function.update table hash (some entry)) position' := by
  intro hash' entry' hlookup
  rcases eq_or_ne hash' hash with rfl | hne
  · rw [Function.update_self, Option.some.injEq] at hlookup
    omega
  · rw [Function.update_of_ne hne] at hlookup
    have := h hash' entry' hlookup
    omega

theorem produces_compressScan {input : List UInt8} {fragmentBegin fragmentEnd : ℕ}
    (hmax : input.length < 2 ^ 32) (hend : fragmentEnd ≤ input.length)
    (hsize : fragmentEnd ≤ fragmentBegin + SNAPPY_FRAGMENT_SIZE) (hfour : 4 ≤ fragmentEnd)
    (fuel : ℕ) (table : ℕ → Option ℕ) (nextLiteral position : ℕ)
    (hlit : nextLiteral ≤ position) (hpos : position ≤ fragmentEnd)
    (htable : TableBefore table position) :
    Produces input
      (compressScan input fragmentBegin fragmentEnd fuel table nextLiteral position)
      nextLiteral fragmentEnd := by
  induction fuel generalizing table nextLiteral position with
  | zero => exact produces_literal (by omega) hend hmax
  | succ fuel ih =>
      unfold compressScan
      split
      · rename_i hmore
        -- Without a match the scan moves on one byte.
        have hskip (hash : ℕ) : Produces input (compressScan input fragmentBegin fragmentEnd fuel
            (Function.update table hash (some position)) nextLiteral (position + 1))
            nextLiteral fragmentEnd :=
          ih _ nextLiteral (position + 1) (by omega) (by omega)
            (htable.update (by omega) (by omega))
        dsimp only
        split
        · exact hskip _
        · rename_i candidate hcandidate
          split
          · exact hskip _
          · rename_i hmatch
            rw [not_or, not_lt, not_not] at hmatch
            obtain ⟨hbegin, hload⟩ := hmatch
            have hbefore := htable _ _ hcandidate
            have hagree4 := agree_of_load32_eq (by omega) (by omega) hload
            obtain ⟨hlen4, hinside, hagree⟩ :=
              @extendMatch_spec input candidate position fragmentEnd (fragmentEnd - position) 4
                (by omega) hagree4
            set m := extendMatch input candidate position fragmentEnd
              (fragmentEnd - position) 4 with hm
            have hdistance : (position - candidate) % 2 ^ 32 = position - candidate :=
              Nat.mod_eq_of_lt (by omega)
            have hnear : position - candidate < 65536 := by
              rw [SNAPPY_FRAGMENT_SIZE] at hsize
              omega
            have helements : Produces input (emitLiteral input nextLiteral (position - nextLiteral)
                ++ emitCopy ((position - candidate) % 2 ^ 32) m) nextLiteral (position + m) := by
              rw [hdistance]
              exact (produces_literal hlit (by omega) hmax).append
                (produces_copyFrom m hbefore (by omega) le_rfl (by omega) hnear hagree)
            split
            · exact helements.append (produces_literal hinside hend hmax)
            · refine helements.append (ih _ _ _ le_rfl hinside ?_)
              exact (htable.update (by omega) (by omega)).update (le_refl (position + m)) (by omega)
      · exact produces_literal (by omega) hend hmax

theorem produces_compressFragment {input : List UInt8} {fragmentBegin fragmentEnd : ℕ}
    (hmax : input.length < 2 ^ 32) (hbegin : fragmentBegin ≤ fragmentEnd)
    (hend : fragmentEnd ≤ input.length)
    (hsize : fragmentEnd ≤ fragmentBegin + SNAPPY_FRAGMENT_SIZE) :
    Produces input (compressFragment input fragmentBegin fragmentEnd) fragmentBegin
      fragmentEnd := by
  unfold compressFragment
  split
  · exact produces_literal hbegin hend hmax
  · refine produces_compressScan hmax hend hsize (by omega) _ _ _ _ le_rfl hbegin ?_
    intro hash entry h
    cases h

theorem produces_compressFragments {input : List UInt8} (hmax : input.length < 2 ^ 32)
    (fuel fragmentBegin : ℕ) (hbegin : fragmentBegin ≤ input.length)
    (hfuel : input.length - fragmentBegin ≤ fuel) :
    Produces input (compressFragments input fuel fragmentBegin) fragmentBegin input.length := by
  induction fuel generalizing fragmentBegin with
  | zero =>
      obtain rfl : fragmentBegin = input.length := by omega
      exact Produces.nil _
  | succ fuel ih =>
      unfold compressFragments
      split
      · have hpositive : 0 < SNAPPY_FRAGMENT_SIZE := by decide
        exact (produces_compressFragment hmax (by omega) (by omega) (by omega)).append
          (ih _ (by omega) (by omega))
      · obtain rfl : fragmentBegin = input.length := by omega
        exact Produces.nil _

/-! ## The declared length -/

theorem takesGroups_readLengthByte : TakesGroups readLengthByte 32 := by
  intro shift b hfit
  refine (Reads.byte b).bind_last ?_
  have hnibble : ∀ n < 16, n &&& 0xf0 = 0 := by decide
  have hgroup : ¬ (shift = 28 ∧ b.toNat &&& 0xf0 ≠ 0) := by
    rintro ⟨rfl, hb⟩
    exact hb (hnibble _ (by omega))
  rw [if_neg hgroup]
  exact Reads.pure b

theorem reads_readVarUInt32 {v : ℕ} (hv : v < 2 ^ 32) :
    Reads readVarUInt32 (writeVarUInt32 v) v := by
  refine reads_remaining_bind fun n hn ↦ ?_
  have hpos := length_leb128_pos 4 v
  have hne : n ≠ 0 := by
    rw [writeVarUInt32] at hn
    omega
  rw [if_neg hne]
  exact reads_leb128 takesGroups_readLengthByte (by omega) hv (by omega)

theorem decompress_compress {input block : List UInt8} (h : compress input = .ok block) :
    decompress block = .ok input := by
  unfold compress at h
  split at h
  · cases h
  · rename_i hsize
    obtain rfl : _ = block := Except.ok.inj h
    have hmax : input.length < 2 ^ 32 := by omega
    have helements := produces_compressFragments hmax input.length 0 (by omega) (by omega)
    rw [Produces, List.take_zero, List.take_length] at helements
    have hlength := (reads_readVarUInt32 hmax).start (compressFragments input input.length 0)
    have hrun := helements.readElements (compressFragments input input.length 0).length
      (writeVarUInt32 input.length).length le_rfl
    rw [decompress, decompressBlock, Reader.bind_run hlength, Reader.remaining_run,
      Reader.bind_run hrun, if_neg (not_not.mpr rfl), Reader.remaining_run]
    rfl

/-- Every input the compressor takes comes back. -/
theorem decompress_compress_of_lt {input : List UInt8} (h : input.length < 2 ^ 32) :
    ∃ block, compress input = .ok block ∧ decompress block = .ok input := by
  have hok : compress input =
      .ok (writeVarUInt32 input.length ++ compressFragments input input.length 0) := by
    rw [compress, if_neg (by omega)]
  exact ⟨_, hok, decompress_compress hok⟩

/-- Compressing and then decompressing a text of any length that 32 bits hold is
the identity: across fragments, and for matches that overlap or are long. -/
theorem snappy_round_trip {input : List UInt8} (h : input.length ≤ 2 ^ 32 - 1) :
    (compress input >>= decompress) = .ok input := by
  have hlt : input.length < 2 ^ 32 := by omega
  obtain ⟨block, hcompress, hdecompress⟩ := decompress_compress_of_lt hlt
  rw [hcompress, ok_bind, hdecompress]

/-- One match that overlaps the bytes it produces, longer than a single copy. -/
theorem snappy_round_trip_run :
    (compress (List.replicate 200 7) >>= decompress) = .ok (List.replicate 200 7) :=
  snappy_round_trip (by rw [List.length_replicate]; omega)

end SnappyCodec

end BedrockProtocol
