import BedrockProtocol.Lib.Leb128
import BedrockProtocol.Lib.Text
import BedrockProtocol.Lib.Words

/-!
# The login packet

`LoginPacket.cpp`: the packet number as a varint, the protocol version as a
big-endian word and, behind their common length, the identity and the client
data, each with its length as a little-endian word in front.
-/

namespace BedrockProtocol

structure LoginPacketData where
  protocolVersion : ℕ
  identity : Text
  client : Text

namespace LoginPacketCodec

def PACKET_ID_LOGIN : ℕ := 1

def readVarUInt : Reader ℕ :=
  readLeb128 (fun _ ↦ Reader.byte fun _ ↦ "readVarUInt out of range") "VarUInt too big" 32 5 0 0

def readU32LE : Reader ℕ := do
  let bytes ← Reader.take 4 fun _ ↦ "readU32LE out of range"
  pure (leValue bytes)

def readU32BE : Reader ℕ := do
  let bytes ← Reader.take 4 fun _ ↦ "readU32BE out of range"
  pure (leValue bytes.reverse)

def readStringU32LE : Reader Text := do
  let len ← readU32LE
  Reader.take len fun _ ↦ "string length exceeds buffer"

def readLogin : Reader LoginPacketData := do
  let header ← readVarUInt
  -- the low ten bits hold the packet number
  if header &&& 0x3ff ≠ PACKET_ID_LOGIN then throw "not a LoginPacket"
  let protocolVersion ← readU32BE
  let payloadLen ← readVarUInt
  if (← Reader.remaining) < payloadLen then
    throw "login payload length exceeds packet size"
  let payloadStart ← Reader.offset
  let identity ← readStringU32LE
  let client ← readStringU32LE
  if (← Reader.offset) ≠ payloadStart + payloadLen then
    throw "login payload has trailing bytes"
  if (← Reader.remaining) ≠ 0 then throw "packet has trailing bytes"
  pure ⟨protocolVersion, identity, client⟩

def writeStringU32LE (s : Text) : Except String (List UInt8) :=
  if 2 ^ 32 - 1 < s.length then .error "string too large"
  else .ok (leBytes 4 s.length ++ s)

def encode (protocolVersion : ℕ) (identity client : Text) : Except String (List UInt8) := do
  let identity ← writeStringU32LE identity
  let client ← writeStringU32LE client
  let tokensPayload := identity ++ client
  pure (leb128 4 PACKET_ID_LOGIN ++ beBytes 4 protocolVersion ++
    leb128 4 (tokensPayload.length % 2 ^ 32) ++ tokensPayload)

def decode (packet : List UInt8) : Except String LoginPacketData := do
  let (login, _) ← readLogin (Cursor.start packet)
  pure login

end LoginPacketCodec

end BedrockProtocol
