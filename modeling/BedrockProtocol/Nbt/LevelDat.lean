import BedrockProtocol.Nbt.RoundTrip

/-!
# NBT files

`BedrockNbtFile.cpp`: documents as whole inputs.  A `level.dat` file has eight bytes in
front of its document, the storage version and the length of the payload.  An input of
unknown encoding is recognised by this header or else by which of the two encodings it
can be read with.
-/

namespace BedrockProtocol

structure BedrockNbtMetadata where
  buffer : List UInt8 := []
  startOffset : ℕ := 0
  size : ℕ := 0

structure BedrockLevelDatHeader where
  version : UInt32 := 0
  payloadLength : UInt32 := 0
  deriving DecidableEq, Repr

structure BedrockNbtParseResult where
  parsed : NbtDocument
  encoding : BedrockNbtEncoding := .littleEndian
  metadata : BedrockNbtMetadata := {}
  levelHeader : Option BedrockLevelDatHeader := none

namespace BedrockNbt

def readLevelHeader (data : List UInt8) : Except String BedrockLevelDatHeader :=
  if data.length < 8 then .error "Bedrock level.dat header is truncated"
  else
    let readU32Le (offset : ℕ) : UInt32 := .ofNat (leValue ((data.drop offset).take 4))
    .ok ⟨readU32Le 0, readU32Le 4⟩

/-- One root may be followed by another compound and by nothing else. -/
def verifyDetectedPayload (result : BedrockNbtParseResult) : Except String Unit :=
  let metadata := result.metadata
  let consumed := metadata.startOffset + metadata.size
  if metadata.buffer.length < consumed then
    .error "NBT parser reported an invalid consumed size"
  else
    match metadata.buffer[consumed]? with
    | some next =>
        if next ≠ NbtTagType.compound.toByte then
          .error ("unexpected trailing bytes after detected NBT root at byte " ++
            toString metadata.size)
        else .ok ()
    | none => .ok ()

def writeUncompressed (document : NbtDocument) (encoding : BedrockNbtEncoding)
    (limits : BedrockNbtLimits) : Except String (List UInt8) :=
  write encoding limits document

def hasBedrockLevelHeader (data : List UInt8) : Bool :=
  4 ≤ data.length ∧ data[1]? = some 0 ∧ data[2]? = some 0 ∧ data[3]? = some 0

/-- What a `BinaryStreamError` says. -/
def streamErrors : List String :=
  ["not enough bytes in BinaryStream", "VarUInt too big", "VarULong too big"]

def parseAs (data : List UInt8) (encoding : BedrockNbtEncoding) (startOffset : ℕ)
    (limits : BedrockNbtLimits) : Except String BedrockNbtParseResult :=
  if data.length < startOffset then .error "NBT start offset exceeds input size"
  else
    match read encoding limits ⟨startOffset, data.drop startOffset⟩ with
    | .error message =>
        .error (if message ∈ streamErrors then "failed to parse NBT: " ++ message else message)
    | .ok (parsed, stream) => .ok
        { parsed, encoding,
          metadata := { buffer := data, startOffset, size := stream.offset - startOffset } }

def parseUncompressed (data : List UInt8) (encoding : BedrockNbtEncoding)
    (limits : BedrockNbtLimits) : Except String NbtDocument := do
  let result ← parseAs data encoding 0 limits
  pure result.parsed

/-- A document from the start of the input, with nothing unexplained behind it. -/
def parseDetected (data : List UInt8) (encoding : BedrockNbtEncoding)
    (limits : BedrockNbtLimits) : Except String BedrockNbtParseResult := do
  let result ← parseAs data encoding 0 limits
  verifyDetectedPayload result
  pure result

def parse (data : List UInt8) (encoding : Option BedrockNbtEncoding)
    (limits : BedrockNbtLimits) : Except String BedrockNbtParseResult :=
  match encoding with
  | some encoding => parseAs data encoding 0 limits
  | none =>
      if 8 ≤ data.length ∧ hasBedrockLevelHeader data then do
        let header ← readLevelHeader data
        let result ← parseAs data .littleEndian 8 limits
        pure { result with levelHeader := some header }
      else
        match parseDetected data .littleEndian limits with
        | .ok result => .ok result
        | .error littleError =>
            match parseDetected data .littleVarInt limits with
            | .ok result => .ok result
            | .error varIntError =>
                .error ("unable to detect Bedrock NBT encoding (little-endian: " ++ littleError ++
                  "; little-varint: " ++ varIntError ++ ")")

def parseLevelDat (data : List UInt8) (limits : BedrockNbtLimits) :
    Except String BedrockNbtParseResult :=
  if ¬ hasBedrockLevelHeader data then .error "input does not have a Bedrock level.dat header"
  else do
    let header ← readLevelHeader data
    let actualPayloadLength := data.length - 8
    if header.payloadLength.toNat ≠ actualPayloadLength then
      throw ("Bedrock level.dat payload length mismatch: header declares " ++
        toString header.payloadLength.toNat ++ ", input contains " ++ toString actualPayloadLength)
    else
      let result ← parseAs data .littleEndian 8 limits
      if result.metadata.size ≠ actualPayloadLength then
        throw "Bedrock level.dat contains trailing bytes after its NBT root"
      else pure { result with levelHeader := some header }

def writeLevelDat (document : NbtDocument) (version : UInt32) (limits : BedrockNbtLimits) :
    Except String (List UInt8) := do
  let payload ← writeUncompressed document .littleEndian limits
  if 2 ^ 32 - 1 < payload.length then
    throw "Bedrock level.dat NBT payload exceeds uint32 length"
  else pure (leBytes 4 version.toNat ++ (leBytes 4 payload.length ++ payload))

theorem FloatsRepresentable.compound {children : List (List UInt8 × NbtValue)}
    (h : ∀ child ∈ children, FloatsRepresentable child.2) :
    FloatsRepresentable (.compound children) :=
  .intro (fun hfloat ↦ (nomatch hfloat)) (fun hlist ↦ (nomatch hlist)) fun _ ↦ h

/-! ## Reading a file that was written -/

section LevelDat

variable {limits : BedrockNbtLimits} {document : NbtDocument} {bytes payload : List UInt8}
  {version : UInt32}

theorem writeLevelDat_eq_ok (h : writeLevelDat document version limits = .ok bytes) :
    ∃ payload : List UInt8, write .littleEndian limits document = .ok payload ∧
      payload.length < 2 ^ 32 ∧
      bytes = leBytes 4 version.toNat ++ (leBytes 4 payload.length ++ payload) := by
  obtain ⟨payload, hpayload, h⟩ := bind_eq_ok.mp h
  split_ifs at h with hlarge
  exact ⟨payload, hpayload, by omega, (Except.ok.inj h).symm⟩

/-- The signature is that the version fits a byte. -/
theorem hasBedrockLevelHeader_iff (version : UInt32) (rest : List UInt8) :
    hasBedrockLevelHeader (leBytes 4 version.toNat ++ rest) = true ↔ version < 256 := by
  have hlt := version.toNat_lt
  have hzero (n : ℕ) (hn : n < 256) : UInt8.ofNat n = 0 ↔ n = 0 := by
    rw [← UInt8.toNat_inj, toNat_ofNat_of_lt hn]
    rfl
  rw [hasBedrockLevelHeader, decide_eq_true_iff, UInt32.lt_iff_toNat_lt]
  simp only [leBytes, List.cons_append, List.nil_append, List.getElem?_cons_succ,
    List.getElem?_cons_zero, Option.some.injEq, List.length_cons]
  rw [hzero _ (Nat.mod_lt _ (by decide)), hzero _ (Nat.mod_lt _ (by decide)),
    hzero _ (Nat.mod_lt _ (by decide))]
  change _ ↔ version.toNat < 256
  omega

theorem readLevelHeader_append (hpayload : payload.length < 2 ^ 32) :
    readLevelHeader (leBytes 4 version.toNat ++ (leBytes 4 payload.length ++ payload)) =
      .ok ⟨version, .ofNat payload.length⟩ := by
  have hfirst : leValue (leBytes 4 version.toNat) = version.toNat :=
    leValue_leBytes_of_lt version.toNat_lt
  have hsecond : leValue (leBytes 4 payload.length) = payload.length :=
    leValue_leBytes_of_lt hpayload
  have hdrop : (leBytes 4 version.toNat ++ (leBytes 4 payload.length ++ payload)).drop 4 =
      leBytes 4 payload.length ++ payload := List.drop_left' (length_leBytes 4 _)
  rw [readLevelHeader, if_neg (by simp; omega)]
  simp only [hdrop, List.drop_zero, List.take_left' (length_leBytes 4 _), hfirst, hsecond,
    UInt32.ofNat_toNat]

/-- A document in the middle of an input, at whatever offset it starts. -/
theorem parseAs_append {encoding : BedrockNbtEncoding} {front : List UInt8}
    (hread : Reads (read encoding limits) payload document) (rest : List UInt8) :
    parseAs (front ++ (payload ++ rest)) encoding front.length limits = .ok
      { parsed := document, encoding,
        metadata := { buffer := front ++ (payload ++ rest), startOffset := front.length,
                      size := payload.length } } := by
  rw [parseAs, if_neg (by simp), List.drop_left' rfl, hread]
  simp

/-- A file that was written is read back as far as its version fits a byte, up to the fields
that a tag does not use. -/
theorem parseLevelDat_writeLevelDat (hfloats : FloatsRepresentable document.root)
    (hwrite : writeLevelDat document version limits = .ok bytes) :
    parseLevelDat bytes limits =
      if version < 256 then .ok
        { parsed := tidiedDocument document, encoding := .littleEndian,
          metadata := { buffer := bytes, startOffset := 8, size := bytes.length - 8 },
          levelHeader := some ⟨version, .ofNat (bytes.length - 8)⟩ }
      else .error "input does not have a Bedrock level.dat header" := by
  obtain ⟨payload, hpayload, hsmall, hbytes⟩ := writeLevelDat_eq_ok hwrite
  have hlength : bytes.length - 8 = payload.length := by
    rw [hbytes]
    simp
    omega
  have hheader := hasBedrockLevelHeader_iff version (leBytes 4 payload.length ++ payload)
  rw [← hbytes] at hheader
  by_cases hversion : version < 256
  · have hparse := @parseAs_append limits _ payload .littleEndian
      (leBytes 4 version.toNat ++ leBytes 4 payload.length) (reads_read hfloats hpayload) []
    have hfront : (leBytes 4 version.toNat ++ leBytes 4 payload.length).length = 8 := by simp
    have hread := @readLevelHeader_append payload version hsmall
    have hsize : (UInt32.ofNat payload.length).toNat = payload.length := by
      rw [UInt32.toNat_ofNat']
      omega
    rw [List.append_nil, List.append_assoc, ← hbytes, hfront] at hparse
    rw [← hbytes] at hread
    rw [if_pos hversion, parseLevelDat, if_neg (not_not.mpr (hheader.mpr hversion)), hread, ok_bind]
    simp only [hlength, hsize, hparse, ne_eq, not_true_eq_false, if_false, ok_bind]
    rfl
  · rw [if_neg hversion, parseLevelDat, if_pos fun h ↦ hversion (hheader.mp h)]

/-- Exactly which documents and versions come back from a file. -/
theorem parseLevelDat_returns_iff (hfloats : FloatsRepresentable document.root)
    (hwrite : writeLevelDat document version limits = .ok bytes) :
    (∃ result, parseLevelDat bytes limits = .ok result ∧ result.parsed = document ∧
      result.levelHeader = some ⟨version, .ofNat (bytes.length - 8)⟩) ↔
      version < 256 ∧ tidiedDocument document = document := by
  rw [parseLevelDat_writeLevelDat hfloats hwrite]
  constructor
  · rintro ⟨result, hresult, hparsed, -⟩
    split at hresult
    · rename_i hversion
      obtain rfl := Except.ok.inj hresult
      exact ⟨hversion, hparsed⟩
    · cases hresult
  · rintro ⟨hversion, htidied⟩
    rw [if_pos hversion]
    exact ⟨_, rfl, htidied, rfl⟩

theorem parseLevelDat_returns_floatDocument :
    ∃ bytes result, writeLevelDat floatDocument 8 {} = .ok bytes ∧
      parseLevelDat bytes {} = .ok result ∧ result.parsed = floatDocument ∧
      result.levelHeader = some ⟨8, .ofNat (bytes.length - 8)⟩ := by
  obtain ⟨bytes, hwrite⟩ : ∃ bytes, writeLevelDat floatDocument 8 {} = .ok bytes := ⟨_, rfl⟩
  obtain ⟨result, hresult⟩ :=
    (parseLevelDat_returns_iff floatDocument_floats hwrite).mpr ⟨by decide, rfl⟩
  exact ⟨bytes, result, hwrite, hresult⟩

/-- The empty document of storage version 256 is refused. -/
theorem levelDat_version_256 :
    ¬ (∀ (document : NbtDocument) (version : UInt32) (limits : BedrockNbtLimits)
      (bytes : List UInt8), FloatsRepresentable document.root →
        writeLevelDat document version limits = .ok bytes →
        ∃ result, parseLevelDat bytes limits = .ok result ∧ result.parsed = document ∧
          result.levelHeader = some ⟨version, .ofNat (bytes.length - 8)⟩) := by
  intro hall
  obtain ⟨result, hresult, -⟩ := hall ⟨[], .compound []⟩ 256 {}
    [0, 1, 0, 0, 4, 0, 0, 0, 10, 0, 0, 0] (.compound (List.forall_mem_nil _)) rfl
  cases hresult

end LevelDat

end BedrockNbt

end BedrockProtocol
