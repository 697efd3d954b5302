import BedrockProtocol.Protodef.ProtoDefJson

/-!
# ES384 tokens

`BedrockAuthJwt.cpp` and the text helpers of `BedrockKeyExchange.cpp`.  A token
is a header, a payload and a signature in base64url, joined by dots.  OpenSSL is
a parameter: its base64 block decoder, its reader of public keys and its ECDSA
verification over SHA-384.
-/

namespace BedrockProtocol

/-- What the token code uses of OpenSSL, and the clock. -/
structure OpenSsl (Key : Type) where
  /-- `EVP_DecodeBlock`; `none` stands for a negative result. -/
  decodeBlock : Text → Option (List UInt8)
  /-- `d2i_PUBKEY` on the whole buffer. -/
  d2iPubkey : List UInt8 → Option Key
  isEc : Key → Bool
  isSecp384r1 : Key → Bool
  /-- `EVP_DigestVerify` with SHA-384 over the message and the two halves of a
  signature. -/
  digestVerify : Key → Text → List UInt8 → Bool
  /-- `std::time`. -/
  now : ℤ

namespace BedrockKeyExchange

/-- The parts of a text between dots. -/
def splitDots : Text → List Text
  | [] => [[]]
  | c :: rest =>
      if c = 0x2e then [] :: splitDots rest
      else
        match splitDots rest with
        | [] => [[c]]
        | part :: parts => (c :: part) :: parts

def splitJwt (jwt : Text) : Except String (List Text) :=
  let parts := splitDots jwt
  if parts.length < 2 then .error "JWT has less than 2 parts" else .ok parts

variable {Key : Type} (openssl : OpenSsl Key)

/-- Fill up to a multiple of four with `=`. -/
def padBase64 (b64 : Text) : Text :=
  b64 ++ List.replicate ((4 - b64.length % 4) % 4) 0x3d

def base64Decode (input : Text) : Except String (List UInt8) :=
  let b64 := padBase64 (input.filter fun c ↦ !isSpace c)
  match openssl.decodeBlock b64 with
  | none => .error "EVP_DecodeBlock failed"
  | some out =>
      let padChars := (if b64.getLast? = some 0x3d then 1 else 0) +
        (if b64.dropLast.getLast? = some 0x3d then 1 else 0)
      .ok (if padChars ≤ out.length then out.take (out.length - padChars) else out)

def base64UrlDecode (b64url : Text) : Except String (List UInt8) :=
  base64Decode openssl
    (b64url.map fun c ↦ if c = 0x2d then 0x2b else if c = 0x5f then 0x2f else c)

def extractJwtHeaderJson (jwt : Text) : Except String Text := do
  let parts ← splitJwt jwt
  base64UrlDecode openssl (parts.getD 0 [])

end BedrockKeyExchange

structure BedrockVerifiedJwt where
  headerJson : Text
  payloadJson : Text

namespace BedrockAuthJwt

open BedrockKeyExchange

/-- The three parts of a token. -/
structure JwtParts where
  header : Text
  payload : Text
  signature : Text

def splitJwtExact (jwt : Text) : Except String JwtParts :=
  match splitDots jwt with
  | [header, payload, signature] => .ok ⟨header, payload, signature⟩
  | _ => .error "jwt malformed"

def jsonNumber (value : ProtoDefValue) (field : String) : Except String UInt64 :=
  match value with
  | .int value => .ok (doubleOfInt value)
  | .uint value => .ok (doubleOfInt value)
  | .double bits => .ok bits
  | _ => .error ("invalid " ++ field ++ " value")

variable {Key : Type} (openssl : OpenSsl Key)

/-- `nbf` and `exp`, where the payload has them. -/
def validateJwtTimes (payload : ProtoDefValue) : Except String Unit :=
  match payload with
  | .object _ => do
      let now := doubleOfInt openssl.now
      match payload.get (txt "nbf") with
      | some nbf => do
          let value ← jsonNumber nbf "nbf"
          if doubleLt now value then throw "jwt not active"
      | none => pure ()
      match payload.get (txt "exp") with
      | some exp => do
          let value ← jsonNumber exp "exp"
          if doubleLe value now then throw "jwt expired"
      | none => pure ()
  | _ => .ok ()

/-- The public key that a base64 text holds, if it is one for ES384. -/
def publicKeyOf (publicKeyDerBase64 : Text) : Except String Key := do
  let publicDer ← base64Decode openssl publicKeyDerBase64
  match openssl.d2iPubkey publicDer with
  | none => throw "secretOrPublicKey is not valid key material"
  | some key =>
      if !openssl.isEc key then throw "ES384 requires an EC public key"
      else if !openssl.isSecp384r1 key then throw "ES384 requires curve secp384r1"
      else pure key

def verifyJoseEs384 (signingInput : Text) (joseSignature : List UInt8)
    (publicKeyDerBase64 : Text) : Except String Unit :=
  if joseSignature.length ≠ 96 then .error "invalid ES384 signature length"
  else do
    let key ← publicKeyOf openssl publicKeyDerBase64
    if !openssl.digestVerify key signingInput joseSignature then throw "invalid signature"
    else pure ()

/-- A header has to be an object that names the algorithm. -/
def checkAlgorithm (header : ProtoDefValue) : Except String Unit :=
  match header with
  | .object _ =>
      match header.get (txt "alg") with
      | some (.string algorithm) =>
          if algorithm = txt "ES384" then .ok () else .error "invalid algorithm"
      | _ => .error "invalid algorithm"
  | _ => .error "invalid token"

def verifyEs384Jwt (jwt publicKeyDerBase64 : Text) : Except String BedrockVerifiedJwt := do
  let parts ← splitJwtExact jwt
  if parts.signature.all (fun c ↦ c = 0x20 ∨ c = 0x09 ∨ c = 0x0d ∨ c = 0x0a) then
    throw "jwt signature is required"
  else
    let headerJson ← base64UrlDecode openssl parts.header
    let payloadJson ← base64UrlDecode openssl parts.payload
    let header ← ProtoDefJson.parse headerJson
    checkAlgorithm header
    let payload ← ProtoDefJson.parse payloadJson
    let joseSignature ← base64UrlDecode openssl parts.signature
    verifyJoseEs384 openssl (parts.header ++ 0x2e :: parts.payload) joseSignature
      publicKeyDerBase64
    validateJwtTimes openssl payload
    pure ⟨headerJson, payloadJson⟩

/-- The token's signature verifies under the key. -/
def SignatureVerifies (jwt publicKeyDerBase64 : Text) : Prop :=
  ∃ parts joseSignature, splitJwtExact jwt = .ok parts ∧
    base64UrlDecode openssl parts.signature = .ok joseSignature ∧
    verifyJoseEs384 openssl (parts.header ++ 0x2e :: parts.payload) joseSignature
      publicKeyDerBase64 = .ok ()

/-- No token has a signature that verifies under two keys.  This is asked of the tokens at hand:
somebody who chooses a signature can make a second key for it. -/
def Unforgeable (tokens : List Text) : Prop :=
  ∀ token ∈ tokens, ∀ parts joseSignature, splitJwtExact token = .ok parts →
    base64UrlDecode openssl parts.signature = .ok joseSignature → ∀ key key',
      openssl.digestVerify key (parts.header ++ 0x2e :: parts.payload) joseSignature = true →
      openssl.digestVerify key' (parts.header ++ 0x2e :: parts.payload) joseSignature = true →
      key = key'

variable {openssl} {jwt publicKeyDerBase64 : Text}

theorem signatureVerifies_of_verifyEs384Jwt {verified : BedrockVerifiedJwt}
    (h : verifyEs384Jwt openssl jwt publicKeyDerBase64 = .ok verified) :
    SignatureVerifies openssl jwt publicKeyDerBase64 := by
  unfold verifyEs384Jwt at h
  obtain ⟨parts, hparts, h⟩ := bind_eq_ok.mp h
  split at h
  · cases h
  · obtain ⟨headerJson, -, h⟩ := bind_eq_ok.mp h
    obtain ⟨payloadJson, -, h⟩ := bind_eq_ok.mp h
    obtain ⟨header, -, h⟩ := bind_eq_ok.mp h
    obtain ⟨_, -, h⟩ := bind_eq_ok.mp h
    obtain ⟨payload, -, h⟩ := bind_eq_ok.mp h
    obtain ⟨joseSignature, hsignature, h⟩ := bind_eq_ok.mp h
    obtain ⟨_, hverify, -⟩ := bind_eq_ok.mp h
    exact ⟨parts, joseSignature, hparts, hsignature, hverify⟩

theorem verifyJoseEs384_eq_ok {signingInput : Text} {joseSignature : List UInt8} :
    verifyJoseEs384 openssl signingInput joseSignature publicKeyDerBase64 = .ok () ↔
      joseSignature.length = 96 ∧ ∃ key, publicKeyOf openssl publicKeyDerBase64 = .ok key ∧
        openssl.digestVerify key signingInput joseSignature = true := by
  unfold verifyJoseEs384
  by_cases hlength : joseSignature.length = 96
  · rw [if_neg (not_not.mpr hlength), bind_eq_ok]
    constructor
    · rintro ⟨key, hkey, hdigest⟩
      refine ⟨hlength, key, hkey, ?_⟩
      cases hverify : openssl.digestVerify key signingInput joseSignature with
      | true => rfl
      | false => simp [hverify] at hdigest
    · rintro ⟨-, key, hkey, hdigest⟩
      exact ⟨key, hkey, by simp [hdigest]⟩
  · rw [if_pos hlength]
    simp [hlength]

/-- Only the key that the text stands for matters. -/
theorem SignatureVerifies.of_publicKeyOf_eq {other : Text}
    (h : SignatureVerifies openssl jwt publicKeyDerBase64)
    (hkey : publicKeyOf openssl publicKeyDerBase64 = publicKeyOf openssl other) :
    SignatureVerifies openssl jwt other := by
  obtain ⟨parts, joseSignature, hparts, hsignature, hverify⟩ := h
  refine ⟨parts, joseSignature, hparts, hsignature, ?_⟩
  rw [verifyJoseEs384_eq_ok] at hverify ⊢
  rwa [← hkey]

/-- Two texts under which one token verifies stand for the same key. -/
theorem publicKeyOf_eq_of_signatureVerifies {tokens : List Text}
    (hunique : Unforgeable openssl tokens) (hjwt : jwt ∈ tokens) {other : Text}
    (h : SignatureVerifies openssl jwt publicKeyDerBase64)
    (h' : SignatureVerifies openssl jwt other) :
    publicKeyOf openssl publicKeyDerBase64 = publicKeyOf openssl other := by
  obtain ⟨parts, joseSignature, hparts, hsignature, hverify⟩ := h
  obtain ⟨parts', joseSignature', hparts', hsignature', hverify'⟩ := h'
  rw [hparts] at hparts'
  obtain rfl := Except.ok.inj hparts'
  rw [hsignature] at hsignature'
  obtain rfl := Except.ok.inj hsignature'
  obtain ⟨-, key, hkey, hdigest⟩ := verifyJoseEs384_eq_ok.mp hverify
  obtain ⟨-, key', hkey', hdigest'⟩ := verifyJoseEs384_eq_ok.mp hverify'
  rw [hkey, hkey', hunique jwt hjwt parts joseSignature hparts hsignature key key' hdigest hdigest']

end BedrockAuthJwt

end BedrockProtocol
