import BedrockProtocol.World.LevelChunkReaders

/-!
# The payload readers and a first byte that is the packet id

`PacketPayloadReader` takes a packet or its payload, and tells them apart by the first
byte: if it is the id of the packet it is dropped.  The payload of a `GamePacket` has no
header, so a first byte that is the id belongs to the data.
-/

namespace BedrockProtocol

namespace PayloadCursor

variable (cursor : PayloadCursor)

def i32le : Reader ℤ :=
  (fun bytes ↦ toSigned 32 (leValue bytes)) <$> Reader.take 4 fun _ ↦ cursor.notEnough "i32le"

/-- The bits of the number. -/
def f32le : Reader UInt32 :=
  (fun bytes ↦ UInt32.ofNat (leValue bytes)) <$> Reader.take 4 fun _ ↦ cursor.notEnough "f32le"

def string : Reader (List UInt8) := do
  let len ← cursor.uvarint
  Reader.take len fun _ ↦ cursor.notEnough "string"

end PayloadCursor

structure PlayStatusPacket where
  status : ℤ
  deriving DecidableEq

structure PayloadTextPacket where
  type : UInt8
  needsTranslation : Bool
  message : List UInt8
  sourceName : List UInt8 := []
  parameters : List (List UInt8) := []
  xuid : List UInt8 := []
  platformChatId : List UInt8 := []
  filteredMessage : List UInt8 := []
  deriving DecidableEq

structure StartGamePacket where
  entityUniqueId : ℤ
  runtimeEntityId : ℕ
  playerGameMode : ℤ
  /-- An alias of `playerGameMode`, as `x`, `y` and `z` are of the position. -/
  gameMode : ℤ
  positionX : UInt32
  positionY : UInt32
  positionZ : UInt32
  x : UInt32
  y : UInt32
  z : UInt32
  rotationX : UInt32
  rotationY : UInt32

namespace PacketPayloadReader

def uvarlong : Reader ℕ := readLeb128 (fun _ ↦ payloadReaderCursor.u8) "uvarlong too long" 64 10 0 0

def svarlong : Reader ℤ := (fun raw ↦ toSigned 64 (decodeZigZag 64 raw)) <$> uvarlong

/-! ## What follows the header -/

def playStatusFields : Reader PlayStatusPacket := do
  let status ← payloadReaderCursor.i32le
  pure { status }

/-- A field that may be missing; `none` if it is there but broken. -/
def trailingString : Reader (Option (List UInt8)) := fun cursor ↦
  if cursor.rest = [] then .ok (some [], cursor)
  else
    match payloadReaderCursor.string cursor with
    | .ok (field, cursor') => .ok (some field, cursor')
    | .error _ => .ok (none, cursor)

def textFields : Reader PayloadTextPacket := do
  let type ← payloadReaderCursor.u8
  let needsTranslation ← payloadReaderCursor.boolean
  let sourceName ←
    (if type = 1 ∨ type = 7 ∨ type = 8 then payloadReaderCursor.string else pure [])
  let message ← payloadReaderCursor.string
  let parameters ←
    (if type = 2 ∨ type = 3 ∨ type = 4 then do
        let count ← payloadReaderCursor.uvarint
        Reader.many payloadReaderCursor.string count
      else pure [])
  let out : PayloadTextPacket := { type, needsTranslation, message, sourceName, parameters }
  -- a broken field at the end is not an error: the packet is returned as it is so far
  match ← trailingString with
  | none => pure out
  | some xuid =>
      match ← trailingString with
      | none => pure { out with xuid }
      | some platformChatId =>
          match ← trailingString with
          | none => pure { out with xuid, platformChatId }
          | some filteredMessage => pure { out with xuid, platformChatId, filteredMessage }

def levelChunkFields : Reader LevelChunkPacket := do
  let chunkX ← payloadReaderCursor.svarint
  let chunkZ ← payloadReaderCursor.svarint
  let dimension ← payloadReaderCursor.svarint
  let subChunkCount ← payloadReaderCursor.uvarint
  let cacheEnabled ← payloadReaderCursor.boolean
  let dataSize ← payloadReaderCursor.uvarint
  let remaining ← Reader.remaining
  if remaining < dataSize then throw "level_chunk dataSize is larger than remaining payload"
  else
    let data ← payloadReaderCursor.bytes dataSize
    pure { chunkX, chunkZ, dimension, subChunkCount, cacheEnabled, dataSize, data }

def startGameFields : Reader StartGamePacket := do
  let entityUniqueId ← svarlong
  let runtimeEntityId ← uvarlong
  let playerGameMode ← payloadReaderCursor.svarint
  let positionX ← payloadReaderCursor.f32le
  let positionY ← payloadReaderCursor.f32le
  let positionZ ← payloadReaderCursor.f32le
  let rotationX ← payloadReaderCursor.f32le
  let rotationY ← payloadReaderCursor.f32le
  pure
    { entityUniqueId, runtimeEntityId, playerGameMode, gameMode := playerGameMode
      positionX, positionY, positionZ, x := positionX, y := positionY, z := positionZ
      rotationX, rotationY }

/-! ## The readers -/

/-- Parse a payload from its first byte. -/
def parse {α : Type} (fields : Reader α) (payload : List UInt8) : Except String α :=
  Prod.fst <$> fields (Cursor.start payload)

def readPlayStatus (packetOrPayload : List UInt8) : Except String PlayStatusPacket :=
  parse playStatusFields (payloadFromPacketOrPayload packetOrPayload 2)

def readText (packetOrPayload : List UInt8) : Except String PayloadTextPacket :=
  parse textFields (payloadFromPacketOrPayload packetOrPayload 9)

def readStartGame (packetOrPayload : List UInt8) : Except String StartGamePacket :=
  parse startGameFields (payloadFromPacketOrPayload packetOrPayload 11)

theorem payloadFromPacketOrPayload_of_ne {payload : List UInt8} {packetId : ℕ}
    (h : payload.head? ≠ some (UInt8.ofNat packetId)) :
    payloadFromPacketOrPayload payload packetId = payload := if_neg h

@[simp] theorem payloadFromPacketOrPayload_cons (packetId : ℕ) (rest : List UInt8) :
    payloadFromPacketOrPayload (UInt8.ofNat packetId :: rest) packetId = rest := if_pos rfl

end PacketPayloadReader

/-- The kinds of packets that have a reader. -/
inductive PayloadKind
  | playStatus
  | text
  | levelChunk
  | startGame

namespace PayloadKind

open PacketPayloadReader

def packetId : PayloadKind → ℕ
  | playStatus => 2
  | text => 9
  | levelChunk => 58
  | startGame => 11

abbrev Packet : PayloadKind → Type
  | playStatus => PlayStatusPacket
  | text => PayloadTextPacket
  | levelChunk => LevelChunkPacket
  | startGame => StartGamePacket

def fields : (kind : PayloadKind) → Reader kind.Packet
  | playStatus => playStatusFields
  | text => textFields
  | levelChunk => levelChunkFields
  | startGame => startGameFields

/-- The reader of the kind; for a `GamePacket` it is given the packet's payload. -/
def read : (kind : PayloadKind) → List UInt8 → Except String kind.Packet
  | playStatus => readPlayStatus
  | text => readText
  | levelChunk => readLevelChunk
  | startGame => readStartGame

theorem read_eq_parse (kind : PayloadKind) (payload : List UInt8) :
    kind.read payload = parse kind.fields (payloadFromPacketOrPayload payload kind.packetId) := by
  cases kind <;> rfl

/-- How many zeros make a packet of the kind. -/
def blankSize : PayloadKind → ℕ
  | playStatus => 4
  | text => 3
  | levelChunk => 6
  | startGame => 23

/-- The id in place of the first zero is read as data. -/
theorem parse_blank (kind : PayloadKind) :
    (parse kind.fields
      (UInt8.ofNat kind.packetId :: List.replicate (kind.blankSize - 1) 0)).toBool = true := by
  cases kind <;> decide +kernel

theorem parse_short (kind : PayloadKind) :
    (parse kind.fields (List.replicate (kind.blankSize - 1) 0)).toBool = false := by
  cases kind <;> decide +kernel

end PayloadKind

open PacketPayloadReader in
/-- The payloads that start with a given byte, or are empty, are all read from there if and
only if the byte is not the id. -/
theorem PayloadKind.read_from_start_iff (kind : PayloadKind) (first : Option UInt8) :
    (∀ payload, payload.head? = first → kind.read payload = parse kind.fields payload) ↔
      first ≠ some (UInt8.ofNat kind.packetId) := by
  constructor
  · rintro hread rfl
    have hsame := hread (UInt8.ofNat kind.packetId :: List.replicate (kind.blankSize - 1) 0) rfl
    rw [kind.read_eq_parse, payloadFromPacketOrPayload_cons] at hsame
    have hblank := kind.parse_blank
    rw [← hsame, kind.parse_short] at hblank
    cases hblank
  · rintro hfirst payload rfl
    rw [kind.read_eq_parse, payloadFromPacketOrPayload_of_ne hfirst]

open PacketPayloadReader in
/-- A text of type 9, `json_whisper`, with the message `A`: the type is taken for the id. -/
theorem readText_json_whisper :
    parse textFields [9, 0, 1, 65] = .ok { type := 9, needsTranslation := false, message := [65] } ∧
      readText [9, 0, 1, 65] = .error "not enough bytes for string" := by
  decide +kernel

open PacketPayloadReader in
/-- What is left of a status whose first byte is 2 is the status itself only if it is too short
or repeats that byte. -/
theorem readPlayStatus_two_iff (rest : List UInt8) :
    readPlayStatus (2 :: rest) = parse playStatusFields (2 :: rest) ↔
      rest.length < 3 ∨ rest.take 4 = [2, 2, 2, 2] := by
  have hread (payload : List UInt8) : parse playStatusFields payload =
      if 4 ≤ payload.length then .ok ⟨toSigned 32 (leValue (payload.take 4))⟩
      else .error "not enough bytes for i32le" := by
    split
    · rename_i hlength
      have htake : Reader.take 4 (fun _ ↦ payloadReaderCursor.notEnough "i32le")
          (Cursor.start payload) = .ok (payload.take 4, ⟨0 + 4, payload.drop 4⟩) := if_pos hlength
      have hword := congrArg (Except.map fun p : List UInt8 × Cursor ↦
        (toSigned 32 (leValue p.1), p.2)) htake
      rw [parse, playStatusFields, Reader.bind_run hword]
      rfl
    · rename_i hlength
      have htake : Reader.take 4 (fun _ ↦ payloadReaderCursor.notEnough "i32le")
          (Cursor.start payload) = .error "not enough bytes for i32le" := if_neg hlength
      have hword := congrArg (Except.map fun p : List UInt8 × Cursor ↦
        (toSigned 32 (leValue p.1), p.2)) htake
      rw [parse, playStatusFields, Reader.bind_error hword]
      rfl
  have hdrop : readPlayStatus (2 :: rest) = parse playStatusFields rest :=
    congrArg _ (payloadFromPacketOrPayload_cons 2 rest)
  rw [hdrop, hread, hread]
  match rest with
  | [] | [_] | [_, _] => simp
  | [_, _, _] => simp
  | a :: b :: c :: d :: rest =>
      have hlt (bytes : List UInt8) (h : bytes.length = 4) : leValue bytes < 2 ^ 32 := by
        have := leValue_lt bytes
        rwa [h] at this
      have hwords : toSigned 32 (leValue [a, b, c, d]) = toSigned 32 (leValue [2, a, b, c]) ↔
          [a, b, c, d] = [2, a, b, c] :=
        ⟨fun h ↦ leValue_injective rfl (toSigned_injective (hlt _ rfl) (hlt _ rfl) h),
          fun h ↦ by rw [h]⟩
      simp [hwords]
      grind

end BedrockProtocol
