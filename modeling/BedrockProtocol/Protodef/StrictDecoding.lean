import BedrockProtocol.Protodef.ProtoDefPacketDecoder

/-!
# Payloads that are cut short

The strict decoder rejects bytes that are left, and the decoder under it goes on at the end
of the payload where a byte is optional.  So a payload that is cut off in front of such a
byte is accepted if nothing is needed behind it.
-/

namespace BedrockProtocol

namespace ProtoDefPacketDecoder

open ProtoDefDecoder SchemaText

section Acceptance

variable (resolveType : Text → Option Text) (packetName : Text) (store : List (Text × Text))

/-- The strict decoder comes back with the fields of the payload. -/
def Accepts (payload : List UInt8) : Prop :=
  ∃ fuel result, decodePacketStrict resolveType fuel packetName payload store = .ok result

end Acceptance

variable {resolveType : Text → Option Text} {packetName typeJson : Text}
  {store : List (Text × Text)} {payload : List UInt8}

theorem accepts_iff (hschema : resolveType (txt "packet_" ++ packetName) = some typeJson) :
    Accepts resolveType packetName store payload ↔
      ∃ (fuel : ℕ) (decoded : Decoded) (c : Cursor), decode resolveType store true fuel typeJson []
        {} (Cursor.start payload) = .ok (decoded, c) ∧ c.rest = [] := by
  refine exists_congr fun fuel ↦ ?_
  simp only [decodePacketStrict, decodePacketImpl, hschema]
  cases hrun : decode resolveType store true fuel typeJson [] {} (Cursor.start payload) with
  | error e =>
      refine iff_of_false ?_ ?_
      · rintro ⟨result, h⟩
        cases h
      · rintro ⟨decoded, c, h, -⟩
        cases h
  | ok p =>
      obtain ⟨decoded, c⟩ := p
      constructor
      · rintro ⟨result, h⟩
        by_cases hrest : c.rest = []
        · exact ⟨decoded, c, rfl, hrest⟩
        · have hremaining : c.remaining ≠ 0 := by
            rw [Cursor.remaining, ne_eq, List.length_eq_zero_iff]
            exact hrest
          change (if c.remaining ≠ 0 then _ else _) = _ at h
          rw [if_pos hremaining] at h
          cases h
      · rintro ⟨_, _, ⟨⟩, hrest⟩
        have hremaining : ¬c.remaining ≠ 0 := by
          rw [Cursor.remaining, hrest]
          exact not_not_intro rfl
        exact ⟨_, show (if c.remaining ≠ 0 then _ else _) = _ from if_neg hremaining⟩

/-- An accepted payload whose bytes are all needed where the decoder comes to them has no
accepted proper front.  So are the bytes of every payload where no type of the schema can do
without one. -/
theorem truncation_rejected_of_readsMandatory
    (hschema : resolveType (txt "packet_" ++ packetName) = some typeJson)
    (hrest : ∀ sub, Reaches resolveType store typeJson sub → ¬TakesRest sub)
    (haccepts : Accepts resolveType packetName store payload) :
    (ReadsMandatory resolveType store typeJson payload →
      ∀ front, front <+: payload → front ≠ payload → ¬Accepts resolveType packetName store front) ∧
    ((∀ sub, Reaches resolveType store typeJson sub → ¬ReadsOptionally sub) →
      ReadsMandatory resolveType store typeJson payload) := by
  obtain ⟨fuel, decoded, c, hrun, hend⟩ := (accepts_iff hschema).mp haccepts
  refine ⟨?_, readsMandatory_of_decode hrun⟩
  rintro hmandatory front ⟨suffix, rfl⟩ hne hfront
  obtain ⟨frontFuel, decoded', c', hrun', hend'⟩ := (accepts_iff hschema).mp hfront
  obtain ⟨fuel', hwhole⟩ := hmandatory.of_front hrest hrun'
  -- the payload is decoded to its end, and so that the suffix is left
  have hsame := (decode_fuel (le_max_left fuel fuel') hrun).symm.trans
    (decode_fuel (le_max_right fuel fuel') hwhole)
  have hleft : c.rest = c'.rest ++ suffix :=
    congrArg Cursor.rest (Prod.ext_iff.mp (Except.ok.inj hsame)).2
  rw [hend, hend', List.nil_append] at hleft
  exact hne (by rw [← hleft, List.append_nil])

def byteTypes (typeName : Text) : Option Text :=
  if typeName = txt "packet_byte" then some (txt "\"u8\"") else none

def longTypes (typeName : Text) : Option Text :=
  if typeName = txt "packet_long" then some (txt "\"li32\"") else none

/-- The packet of one byte is accepted without it. -/
theorem truncated_byte_accepted :
    ¬∀ (resolveType : Text → Option Text) (packetName typeJson : Text) (store : List (Text × Text))
      (payload : List UInt8), resolveType (txt "packet_" ++ packetName) = some typeJson →
      (∀ sub, Reaches resolveType store typeJson sub → ¬TakesRest sub) →
      Accepts resolveType packetName store payload →
      ∀ front, front <+: payload → front ≠ payload →
        ¬Accepts resolveType packetName store front := by
  intro h
  refine h byteTypes (txt "byte") (txt "\"u8\"") [] [7] rfl (fun sub hreaches ↦ ?_) ⟨1, _, rfl⟩ []
    (by decide) (by decide) ⟨1, _, rfl⟩
  rw [eq_of_reaches_primitive (by decide) rfl hreaches]
  decide

/-- A packet of four bytes is not accepted with three of them. -/
theorem truncated_long_rejected : ¬Accepts longTypes (txt "long") [] [7, 0, 0] := by
  have hreaches {sub : Text} (h : Reaches longTypes [] (txt "\"li32\"") sub) :
      sub = txt "\"li32\"" := eq_of_reaches_primitive (by decide) rfl h
  have hschema : longTypes (txt "packet_" ++ txt "long") = some (txt "\"li32\"") := rfl
  have haccepts : Accepts longTypes (txt "long") [] [7, 0, 0, 0] := ⟨1, _, rfl⟩
  have hrejected :=
    truncation_rejected_of_readsMandatory hschema (fun sub h ↦ hreaches h ▸ by decide) haccepts
  have hmandatory := hrejected.2 fun sub h ↦ hreaches h ▸ by decide
  exact hrejected.1 hmandatory _ (by decide) (by decide)

end ProtoDefPacketDecoder

end BedrockProtocol
