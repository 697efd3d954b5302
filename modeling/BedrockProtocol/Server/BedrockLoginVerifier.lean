import BedrockProtocol.Auth.BedrockAuthJwt
import BedrockProtocol.LoginPacket
import Mathlib.Data.List.Forall2

/-!
# Login verification

`BedrockLoginVerifier.cpp`: every token of the login chain is checked under a
key that the token before it handed on, the first one under the key in its own
header.  A login counts as authenticated when a token of the chain names
Mojang's public key in its header.
-/

namespace BedrockProtocol

structure BedrockLoginProfile where
  name : Text := []
  uuid : Text := []
  xuid : Text := []

structure BedrockLoginVerificationResult where
  key : Text
  data : ProtoDefValue
  userData : ProtoDefValue
  skinData : ProtoDefValue
  profile : BedrockLoginProfile
  version : ℕ
  didVerify : Bool
  disconnectNotAuthenticated : Bool

namespace BedrockLoginVerifier

open BedrockAuthJwt BedrockKeyExchange

def jsTruthy : Option ProtoDefValue → Bool
  | none => false
  | some .null => false
  | some (.bool value) => value
  | some (.int value) => value ≠ 0
  | some (.uint value) => value ≠ 0
  | some (.double bits) => doubleRank bits ≠ 0 ∧ !isNaN bits
  | some (.string value) => value ≠ []
  | some (.bytes _) => true
  | some (.object _) => true
  | some (.array _) => true

def requireObject (value : ProtoDefValue) (message : String) : Except String Unit :=
  match value with
  | .object _ => .ok ()
  | _ => .error message

def requireString (value : Option ProtoDefValue) (message : String) : Except String Text :=
  match value with
  | some (.string text) => .ok text
  | _ => .error message

def optionalString (value : Option ProtoDefValue) : Text :=
  match value with
  | some (.string text) => text
  | _ => []

/-- The field of a value that is an object. -/
def objectField (value : ProtoDefValue) (key : Text) : Option ProtoDefValue :=
  match value with
  | .object _ => value.get key
  | _ => none

/-- The `x5u` of a parsed header. -/
def headerX5u (header : ProtoDefValue) : Except String Text := do
  requireObject header "Invalid login JWT header"
  requireString (header.get (txt "x5u")) "Invalid login JWT x5u"

def chainFromValue (value : ProtoDefValue) : Except String (List Text) :=
  match value with
  | .array items =>
      items.mapM fun token ↦ requireString (some token) "Invalid login packet chain token"
  | _ => .error "Invalid login packet chain"

def extractChain (identityJson : Text) : Except String (List Text) := do
  let authChain ← ProtoDefJson.parse identityJson
  requireObject authChain "Invalid login packet auth chain"
  let certificate := authChain.get (txt "Certificate")
  if jsTruthy certificate then
    let certificateJson ← requireString certificate "Invalid login packet Certificate"
    let certificateChain ← ProtoDefJson.parse certificateJson
    requireObject certificateChain "Invalid login packet Certificate"
    match certificateChain.get (txt "chain") with
    | none => throw "Invalid login packet Certificate chain"
    | some chain => chainFromValue chain
  else
    match authChain.get (txt "chain") with
    | some chain =>
        if jsTruthy (some chain) then chainFromValue chain
        else throw "Invalid login packet: missing chain or Certificate"
    | none => throw "Invalid login packet: missing chain or Certificate"

/-- The fields that a decoded payload contributes, as `Object.assign` has them. -/
def mergeFields (source : ProtoDefValue) : List (Text × ProtoDefValue) :=
  match source with
  | .object fields => fields
  | .array items => items.mapIdx fun i item ↦ (decimal i, item)
  | .string text => text.mapIdx fun i c ↦ (decimal i, .string [c])
  | _ => []

def shallowMerge (target source : ProtoDefValue) : ProtoDefValue :=
  .object ((mergeFields source).foldl (fun fields field ↦ ProtoDefValue.assign field.1 field.2 fields)
    target.objectValue)

def mojangPublicKey : Text :=
  txt "MHYwEAYHKoZIzj0CAQYFK4EEACIDYgAECRXueJeTDqNRRgJi/vlRufByu/2G0i2Ebt6YMar5QX/" ++
  txt "R0DIIyrJMcUpruK4QveTfJSTp3Shlq4Gk34cD/4GUWwkv0DVuzeuB+tXija7HBxii03NHDbPAD0A" ++
  txt "KnLr2wdAp"

/-- The variables of the loop over the chain. -/
structure VerifyState where
  data : ProtoDefValue
  didVerify : Bool
  publicKey : Text
  finalKey : Text

/-- The XUID among the data of the tokens so far. -/
def accumulatedXuid (data : ProtoDefValue) : Option ProtoDefValue :=
  match data.get (txt "extraData") with
  | some extraData => objectField extraData (txt "XUID")
  | none => none

/-- The keys after a token: its `identityPublicKey`, or else its `x5u`. -/
def advanceKeys (finalKey x5u : Text) (decoded : ProtoDefValue) : Except String (Text × Text) :=
  let identityPublicKey := objectField decoded (txt "identityPublicKey")
  if jsTruthy identityPublicKey then do
    let key ← requireString identityPublicKey "Invalid identityPublicKey"
    pure (key, key)
  else .ok (x5u, finalKey)

variable {Key : Type} (openssl : OpenSsl Key)

def jwtX5u (token : Text) : Except String Text := do
  let headerJson ← extractJwtHeaderJson openssl token
  let header ← ProtoDefJson.parse headerJson
  headerX5u header

/-- One turn of the loop. -/
def verifyToken (state : VerifyState) (token : Text) : Except String VerifyState := do
  let verified ← verifyEs384Jwt openssl token state.publicKey
  let header ← ProtoDefJson.parse verified.headerJson
  let decoded ← ProtoDefJson.parse verified.payloadJson
  let x5u ← headerX5u header
  let didVerify := state.didVerify ||
    (x5u = mojangPublicKey ∧ !jsTruthy (accumulatedXuid state.data))
  let (publicKey, finalKey) ← advanceKeys state.finalKey x5u decoded
  pure ⟨shallowMerge state.data decoded, didVerify, publicKey, finalKey⟩

def verifyChain : VerifyState → List Text → Except String VerifyState
  | state, [] => .ok state
  | state, token :: chain => do
      let state ← verifyToken openssl state token
      verifyChain state chain

/-- The profile of the merged user data. -/
def profileOf (userData : ProtoDefValue) : Except String BedrockLoginProfile :=
  match userData with
  | .object _ => do
      let lowerXuid := userData.get (txt "xuid")
      let xuid ← if jsTruthy lowerXuid then requireString lowerXuid "Invalid profile xuid"
        else pure (optionalString (userData.get (txt "XUID")))
      pure ⟨optionalString (userData.get (txt "displayName")),
        optionalString (userData.get (txt "identity")), xuid⟩
  | _ => .ok {}

def verify (login : LoginPacketData) (offline : Bool) :
    Except String BedrockLoginVerificationResult := do
  let chain ← extractChain login.identity
  match chain with
  | [] => throw "Invalid login packet: empty chain"
  | first :: _ =>
      let publicKey ← jwtX5u openssl first
      let state ← verifyChain openssl ⟨.object [], false, publicKey, []⟩ chain
      let verifiedSkin ← verifyEs384Jwt openssl login.client state.finalKey
      let skinData ← ProtoDefJson.parse verifiedSkin.payloadJson
      let userData := (state.data.get (txt "extraData")).getD .null
      let profile ← profileOf userData
      pure { key := state.finalKey
             data := state.data
             userData
             skinData
             profile
             version := login.protocolVersion
             didVerify := state.didVerify
             disconnectNotAuthenticated := !offline && !state.didVerify }

/-! ## What a token says and what it is checked under -/

/-- The header key and the payload of a token, whoever signed it. -/
structure TokenView where
  x5u : Text
  decoded : ProtoDefValue

def viewToken (token : Text) : Except String TokenView := do
  let parts ← splitJwtExact token
  let headerJson ← base64UrlDecode openssl parts.header
  let header ← ProtoDefJson.parse headerJson
  let x5u ← headerX5u header
  let payloadJson ← base64UrlDecode openssl parts.payload
  let decoded ← ProtoDefJson.parse payloadJson
  pure ⟨x5u, decoded⟩

/-- The key that the next token is checked under. -/
def TokenView.handsOn (view : TokenView) : Text :=
  let identityPublicKey := objectField view.decoded (txt "identityPublicKey")
  if jsTruthy identityPublicKey then optionalString identityPublicKey else view.x5u

/-- The keys that the tokens are checked under, the first of them given. -/
def checkedKeys : Text → List TokenView → List Text
  | _, [] => []
  | key, view :: views => key :: checkedKeys view.handsOn views

/-- Some token names Mojang's key in its header before a payload has brought a
XUID. -/
def NamesMojang : ProtoDefValue → List TokenView → Prop
  | _, [] => False
  | data, view :: views =>
      (view.x5u = mojangPublicKey ∧ jsTruthy (accumulatedXuid data) = false) ∨
        NamesMojang (shallowMerge data view.decoded) views

/-- Some token is checked under a key that is Mojang's. -/
def CheckedUnderMojang (views : List TokenView) : Prop :=
  ∃ first ∈ views.head?, ∃ key ∈ checkedKeys first.x5u views,
    publicKeyOf openssl key = publicKeyOf openssl mojangPublicKey

section Soundness

variable {openssl}

theorem verifyEs384Jwt_view {token key : Text} {verified : BedrockVerifiedJwt}
    (h : verifyEs384Jwt openssl token key = .ok verified) :
    ∃ parts, splitJwtExact token = .ok parts ∧
      base64UrlDecode openssl parts.header = .ok verified.headerJson ∧
      base64UrlDecode openssl parts.payload = .ok verified.payloadJson := by
  unfold verifyEs384Jwt at h
  obtain ⟨parts, hparts, h⟩ := bind_eq_ok.mp h
  split at h
  · cases h
  · obtain ⟨headerJson, hheader, h⟩ := bind_eq_ok.mp h
    obtain ⟨payloadJson, hpayload, h⟩ := bind_eq_ok.mp h
    obtain ⟨header, -, h⟩ := bind_eq_ok.mp h
    obtain ⟨_, -, h⟩ := bind_eq_ok.mp h
    obtain ⟨payload, -, h⟩ := bind_eq_ok.mp h
    obtain ⟨joseSignature, -, h⟩ := bind_eq_ok.mp h
    obtain ⟨_, -, h⟩ := bind_eq_ok.mp h
    obtain ⟨_, -, h⟩ := bind_eq_ok.mp h
    obtain rfl := Except.ok.inj h
    exact ⟨parts, hparts, hheader, hpayload⟩

theorem advanceKeys_fst {finalKey x5u : Text} {decoded : ProtoDefValue} {keys : Text × Text}
    (h : advanceKeys finalKey x5u decoded = .ok keys) :
    keys.1 = TokenView.handsOn ⟨x5u, decoded⟩ := by
  unfold advanceKeys at h
  unfold TokenView.handsOn
  dsimp only at h ⊢
  split_ifs at h ⊢ with htruthy
  · obtain ⟨key, hkey, h⟩ := bind_eq_ok.mp h
    obtain rfl := Except.ok.inj h
    unfold requireString at hkey
    split at hkey
    · rename_i text htext
      obtain rfl := Except.ok.inj hkey
      rw [htext]
      rfl
    · cases hkey
  · obtain rfl := Except.ok.inj h
    rfl

/-- One turn: the token verifies under the key of the state, and the state moves
on by what the token says. -/
theorem verifyToken_eq_ok {state state' : VerifyState} {token : Text}
    (h : verifyToken openssl state token = .ok state') :
    ∃ view, viewToken openssl token = .ok view ∧
      SignatureVerifies openssl token state.publicKey ∧
      state'.publicKey = view.handsOn ∧
      state'.data = shallowMerge state.data view.decoded ∧
      (state'.didVerify = true ↔ state.didVerify = true ∨
        (view.x5u = mojangPublicKey ∧ jsTruthy (accumulatedXuid state.data) = false)) := by
  unfold verifyToken at h
  obtain ⟨verified, hverified, h⟩ := bind_eq_ok.mp h
  obtain ⟨header, hheader, h⟩ := bind_eq_ok.mp h
  obtain ⟨decoded, hdecoded, h⟩ := bind_eq_ok.mp h
  obtain ⟨x5u, hx5u, h⟩ := bind_eq_ok.mp h
  obtain ⟨⟨publicKey, finalKey⟩, hkeys, h⟩ := bind_eq_ok.mp h
  obtain rfl := Except.ok.inj h
  obtain ⟨parts, hparts, hheaderJson, hpayloadJson⟩ := verifyEs384Jwt_view hverified
  refine ⟨⟨x5u, decoded⟩, ?_, signatureVerifies_of_verifyEs384Jwt hverified,
    advanceKeys_fst hkeys, rfl, by simp⟩
  simp only [viewToken, hparts, hheaderJson, hheader, hx5u, hpayloadJson, hdecoded, ok_bind,
    pure_eq_ok]

/-- The whole chain: every token verifies under its checked key, and the flag is
set exactly when a token names Mojang's key. -/
theorem verifyChain_eq_ok {chain : List Text} {state state' : VerifyState}
    (h : verifyChain openssl state chain = .ok state') :
    ∃ views, chain.mapM (viewToken openssl) = .ok views ∧
      List.Forall₂ (SignatureVerifies openssl) chain (checkedKeys state.publicKey views) ∧
      (state'.didVerify = true ↔ state.didVerify = true ∨ NamesMojang state.data views) := by
  induction chain generalizing state with
  | nil =>
      obtain rfl := Except.ok.inj h
      exact ⟨[], rfl, List.Forall₂.nil, by simp [NamesMojang]⟩
  | cons token chain ih =>
      unfold verifyChain at h
      obtain ⟨next, hnext, h⟩ := bind_eq_ok.mp h
      obtain ⟨view, hview, hverifies, hkey, hdata, hflag⟩ := verifyToken_eq_ok hnext
      obtain ⟨views, hviews, hall, hflags⟩ := ih h
      refine ⟨view :: views, ?_, ?_, ?_⟩
      · rw [List.mapM_cons, hview, ok_bind, hviews]
        rfl
      · rw [hkey] at hall
        exact List.Forall₂.cons hverifies hall
      · rw [hflags, hflag, hdata, NamesMojang, or_assoc]

/-- The first key is the one in the header of the first token. -/
theorem jwtX5u_eq {token x5u : Text} {view : TokenView} (h : jwtX5u openssl token = .ok x5u)
    (hview : viewToken openssl token = .ok view) : x5u = view.x5u := by
  unfold viewToken at hview
  obtain ⟨parts, hparts, hview⟩ := bind_eq_ok.mp hview
  obtain ⟨headerJson, hheaderJson, hview⟩ := bind_eq_ok.mp hview
  obtain ⟨header, hheader, hview⟩ := bind_eq_ok.mp hview
  obtain ⟨key, hkey, hview⟩ := bind_eq_ok.mp hview
  obtain ⟨payloadJson, -, hview⟩ := bind_eq_ok.mp hview
  obtain ⟨decoded, -, hview⟩ := bind_eq_ok.mp hview
  obtain rfl := Except.ok.inj hview
  have hjson : extractJwtHeaderJson openssl token = .ok headerJson := by
    unfold splitJwtExact at hparts
    split at hparts
    · rename_i header payload signature hdots
      obtain rfl := Except.ok.inj hparts
      simp [extractJwtHeaderJson, splitJwt, hdots, hheaderJson]
    · cases hparts
  simp only [jwtX5u, hjson, ok_bind, hheader, hkey] at h
  exact (Except.ok.inj h).symm

theorem exists_key_of_mem {R : Text → Text → Prop} {tokens keys : List Text}
    (h : List.Forall₂ R tokens keys) {token : Text} (htoken : token ∈ tokens) :
    ∃ key ∈ keys, R token key := by
  induction h with
  | nil => simp at htoken
  | @cons a b _ _ hab _ ih =>
      rcases List.mem_cons.mp htoken with rfl | htoken
      · exact ⟨b, by simp, hab⟩
      · obtain ⟨key, hkey, hR⟩ := ih htoken
        exact ⟨key, by simp [hkey], hR⟩

theorem exists_token_of_mem {R : Text → Text → Prop} {tokens keys : List Text}
    (h : List.Forall₂ R tokens keys) {key : Text} (hkey : key ∈ keys) :
    ∃ token ∈ tokens, R token key :=
  exists_key_of_mem h.flip hkey

/-- A login on which `verify` returns has a chain whose tokens verify under their
checked keys, starting with the key in the first header. -/
theorem verify_eq_ok {login : LoginPacketData} {offline : Bool}
    {result : BedrockLoginVerificationResult}
    (h : verify openssl login offline = .ok result) :
    ∃ chain views, ∃ first ∈ views.head?, extractChain login.identity = .ok chain ∧
      chain.mapM (viewToken openssl) = .ok views ∧
      List.Forall₂ (SignatureVerifies openssl) chain (checkedKeys first.x5u views) ∧
      (result.didVerify = true ↔ NamesMojang (.object []) views) := by
  unfold verify at h
  obtain ⟨chain, hchain, h⟩ := bind_eq_ok.mp h
  cases chain with
  | nil => cases h
  | cons token chain =>
      obtain ⟨publicKey, hkey, h⟩ := bind_eq_ok.mp h
      obtain ⟨state, hstate, h⟩ := bind_eq_ok.mp h
      obtain ⟨verifiedSkin, -, h⟩ := bind_eq_ok.mp h
      obtain ⟨skinData, -, h⟩ := bind_eq_ok.mp h
      obtain ⟨profile, -, h⟩ := bind_eq_ok.mp h
      obtain rfl := Except.ok.inj h
      obtain ⟨views, hviews, hall, hflag⟩ := verifyChain_eq_ok hstate
      have hmap := hviews
      rw [List.mapM_cons] at hmap
      obtain ⟨first, hfirst, hmap⟩ := bind_eq_ok.mp hmap
      obtain ⟨rest, -, hmap⟩ := bind_eq_ok.mp hmap
      obtain rfl := Except.ok.inj hmap
      refine ⟨token :: chain, first :: rest, first, rfl, hchain, hviews, ?_, by simpa using hflag⟩
      rwa [← jwtX5u_eq hkey hfirst]

/-- For a login on which `verify` returns: an authenticated login has a token
signed by Mojang's key as soon as, whenever a token names Mojang's key in its
header, some token is checked under that key; and only then, if no token of the
chain verifies under two keys. -/
theorem didVerify_authentic {login : LoginPacketData} {offline : Bool}
    {result : BedrockLoginVerificationResult}
    (hverify : verify openssl login offline = .ok result) :
    ∃ chain views, extractChain login.identity = .ok chain ∧
      chain.mapM (viewToken openssl) = .ok views ∧
      ((NamesMojang (.object []) views → CheckedUnderMojang openssl views) →
        result.didVerify = true →
          ∃ token ∈ chain, SignatureVerifies openssl token mojangPublicKey) ∧
      (Unforgeable openssl chain →
        ((result.didVerify = true →
            ∃ token ∈ chain, SignatureVerifies openssl token mojangPublicKey) ↔
          (NamesMojang (.object []) views → CheckedUnderMojang openssl views))) := by
  obtain ⟨chain, views, first, hfirst, hchain, hviews, hall, hflag⟩ := verify_eq_ok hverify
  have hsigned : CheckedUnderMojang openssl views →
      ∃ token ∈ chain, SignatureVerifies openssl token mojangPublicKey := by
    rintro ⟨first', hfirst', key, hkey, hsame⟩
    rw [Option.mem_unique hfirst' hfirst] at hkey
    obtain ⟨token, htoken, hverifies⟩ := exists_token_of_mem hall hkey
    exact ⟨token, htoken, hverifies.of_publicKeyOf_eq hsame⟩
  have hchecked (hunique : Unforgeable openssl chain) :
      (∃ token ∈ chain, SignatureVerifies openssl token mojangPublicKey) →
        CheckedUnderMojang openssl views := by
    rintro ⟨token, htoken, hverifies⟩
    obtain ⟨key, hkey, hunder⟩ := exists_key_of_mem hall htoken
    exact ⟨first, hfirst, key, hkey,
      publicKeyOf_eq_of_signatureVerifies hunique htoken hunder hverifies⟩
  refine ⟨chain, views, hchain, hviews, ?_, fun hunique ↦ ?_⟩
  · intro hcondition hdid
    exact hsigned (hcondition (hflag.mp hdid))
  · constructor
    · intro hclaim hnames
      exact hchecked hunique (hclaim (hflag.mpr hnames))
    · intro hcondition hdid
      exact hsigned (hcondition (hflag.mp hdid))

end Soundness

/-! ## A forged chain -/

/-- A P-384 key of somebody else. -/
def attackerKey : Text :=
  txt "MHYwEAYHKoZIzj0CAQYFK4EEACIDYgAEt25+3GPEObf6P2MPUss4jsY7DgQsh7ALETZZs8REvM1HegsTKZCC" ++
  txt "oGy5dS9MT98K22gV3cqtUDyPJOMdME5114Op6IiUrAMnhRs8sa2euupx/O1D7dP5cBftq7q2FO0A"

/-- A token that the attacker signs under the key in its own header, handing on the
same key. -/
def selfSignedToken : Text :=
  txt "eyJhbGciOiJFUzM4NCIsIng1dSI6Ik1IWXdFQVlIS29aSXpqMENBUVlGSzRFRUFDSURZZ0FFdDI1KzNHUEVP" ++
  txt "YmY2UDJNUFVzczRqc1k3RGdRc2g3QUxFVFpaczhSRXZNMUhlZ3NUS1pDQ29HeTVkUzlNVDk4SzIyZ1YzY3F0" ++
  txt "VUR5UEpPTWRNRTUxMTRPcDZJaVVyQU1uaFJzOHNhMmV1dXB4L08xRDdkUDVjQmZ0cTdxMkZPMEEifQ.eyJpZ" ++
  txt "GVudGl0eVB1YmxpY0tleSI6Ik1IWXdFQVlIS29aSXpqMENBUVlGSzRFRUFDSURZZ0FFdDI1KzNHUEVPYmY2U" ++
  txt "DJNUFVzczRqc1k3RGdRc2g3QUxFVFpaczhSRXZNMUhlZ3NUS1pDQ29HeTVkUzlNVDk4SzIyZ1YzY3F0VUR5U" ++
  txt "EpPTWRNRTUxMTRPcDZJaVVyQU1uaFJzOHNhMmV1dXB4L08xRDdkUDVjQmZ0cTdxMkZPMEEifQ.e9p-" ++
  txt "o7Kf_tA7ZW8rW7KZlW9twd5bytOpkTihoZ0ORBia5EOxfrtzUD56EHLDsm_uaAz4YCEv6px6GHumd2Qf_SPE" ++
  txt "W0K_HrbflwX48cMU98Y33cBP5g_qiDRXKFaHopwc"

/-- A token with Mojang's key in its header, signed by the attacker. -/
def forgedToken : Text :=
  txt "eyJhbGciOiJFUzM4NCIsIng1dSI6Ik1IWXdFQVlIS29aSXpqMENBUVlGSzRFRUFDSURZZ0FFQ1JYdWVKZVRE" ++
  txt "cU5SUmdKaS92bFJ1ZkJ5dS8yRzBpMkVidDZZTWFyNVFYL1IwRElJeXJKTWNVcHJ1SzRRdmVUZkpTVHAzU2hs" ++
  txt "cTRHazM0Y0QvNEdVV3drdjBEVnV6ZXVCK3RYaWphN0hCeGlpMDNOSERiUEFEMEFLbkxyMndkQXAifQ.e30.2" ++
  txt "VdYoctR96Rd_7-pwLKwNq7Ty0JWkfY_mHbM0YxBeIt7czxpRLX-" ++
  txt "zU_pSZAMC_o5KJWUXAE_Xcd4KWZNoc5AY98F8Nj-4uP_62Dmz6hgltNvI16kbVWQ2awWib7dUzI6"

/-- Client data signed by the attacker. -/
def clientToken : Text :=
  txt "eyJhbGciOiJFUzM4NCJ9.e30.9QmW0K8gzg_QSiVv14ZCD5T96Xy9lfp2_51a0ZOixU78457OUIoL8_ek9Lv" ++
  txt "6s54fnC1haiAiYbd4zDnrW1d_skcj4ROMj8Q5jefjOtQIlxf6479kp6LT5livsFqeXmrf"

def base64Value (c : UInt8) : Option ℕ :=
  if 0x41 ≤ c ∧ c ≤ 0x5a then some (c.toNat - 0x41)
  else if 0x61 ≤ c ∧ c ≤ 0x7a then some (c.toNat - 0x61 + 26)
  else if 0x30 ≤ c ∧ c ≤ 0x39 then some (c.toNat - 0x30 + 52)
  else if c = 0x2b then some 62
  else if c = 0x2f then some 63
  else if c = 0x3d then some 0
  else none

/-- Three bytes from every four characters. -/
def decodeQuads : Text → Option (List UInt8)
  | [] => some []
  | a :: b :: c :: d :: rest => do
      let a ← base64Value a
      let b ← base64Value b
      let c ← base64Value c
      let d ← base64Value d
      let bytes ← decodeQuads rest
      let word := ((a * 64 + b) * 64 + c) * 64 + d
      pure (UInt8.ofNat (word / 65536) :: UInt8.ofNat (word / 256) :: UInt8.ofNat word :: bytes)
  | _ => none

/-- A key is its DER bytes; the signatures that verify are the three of the
attacker, under the attacker's key. -/
def attackerOpenSsl : OpenSsl (List UInt8) where
  decodeBlock := decodeQuads
  d2iPubkey := some
  isEc := fun _ ↦ true
  isSecp384r1 := fun _ ↦ true
  digestVerify := fun key message signature ↦
    decodeQuads attackerKey = some key ∧
      [selfSignedToken, forgedToken, clientToken].any fun token ↦
        match splitDots token with
        | [header, payload, encoded] =>
            message = header ++ 0x2e :: payload ∧
              decodeQuads (encoded.map fun c ↦
                if c = 0x2d then 0x2b else if c = 0x5f then 0x2f else c) = some signature
        | _ => false
  now := 0

def forgedLogin : LoginPacketData where
  protocolVersion := 0
  identity := txt "\x7b\"chain\":[\"" ++ selfSignedToken ++ txt "\",\"" ++ forgedToken ++ txt "\"]\x7d"
  client := clientToken

theorem verify_forgedLogin : ∃ result, verify attackerOpenSsl forgedLogin false = .ok result ∧
    result.didVerify = true ∧ result.disconnectNotAuthenticated = false := by
  have hflags : (verify attackerOpenSsl forgedLogin false).toOption.map
      (fun result ↦ (result.didVerify, result.disconnectNotAuthenticated)) =
        some (true, false) := by decide +kernel
  cases hverify : verify attackerOpenSsl forgedLogin false with
  | error message =>
      rw [hverify] at hflags
      cases hflags
  | ok result =>
      rw [hverify] at hflags
      simp only [Except.toOption, Option.map_some, Option.some.injEq, Prod.mk.injEq] at hflags
      exact ⟨result, rfl, hflags⟩

/-- Only the attacker signs, so every signature has one key. -/
theorem decodeQuads_of_digestVerify {key message signature : List UInt8}
    (h : attackerOpenSsl.digestVerify key message signature = true) :
    decodeQuads attackerKey = some key := by
  simp only [attackerOpenSsl, decide_eq_true_eq] at h
  exact h.1

theorem attackerOpenSsl_unforgeable (tokens : List Text) : Unforgeable attackerOpenSsl tokens := by
  intro token _ parts joseSignature _ _ key key' hkey hkey'
  have hsame := (decodeQuads_of_digestVerify hkey).symm.trans (decodeQuads_of_digestVerify hkey')
  exact Option.some.inj hsame

theorem not_signatureVerifies_mojang (token : Text) :
    ¬ SignatureVerifies attackerOpenSsl token mojangPublicKey := by
  rintro ⟨parts, joseSignature, -, -, hverify⟩
  obtain ⟨-, key, hkey, hdigest⟩ := verifyJoseEs384_eq_ok.mp hverify
  have hmojang : (publicKeyOf attackerOpenSsl mojangPublicKey).toOption ≠
      decodeQuads attackerKey := by decide +kernel
  rw [hkey, decodeQuads_of_digestVerify hdigest] at hmojang
  exact hmojang rfl

/-- The forged chain is accepted as authenticated, and no token at all verifies
under Mojang's key. -/
theorem forgedLogin_authenticated :
    (∃ result, verify attackerOpenSsl forgedLogin false = .ok result ∧
      result.didVerify = true ∧ result.disconnectNotAuthenticated = false) ∧
    ∀ token, ¬ SignatureVerifies attackerOpenSsl token mojangPublicKey :=
  ⟨verify_forgedLogin, not_signatureVerifies_mojang⟩

/-- The forged login is authenticated although no token verifies under Mojang's key:
a token names the key, and none is checked under it. -/
theorem didVerify_authentic_forgedLogin :
    ∃ result chain views, verify attackerOpenSsl forgedLogin false = .ok result ∧
      extractChain forgedLogin.identity = .ok chain ∧
      chain.mapM (viewToken attackerOpenSsl) = .ok views ∧
      NamesMojang (.object []) views ∧ ¬ CheckedUnderMojang attackerOpenSsl views := by
  obtain ⟨result, hverify, hdid, -⟩ := verify_forgedLogin
  obtain ⟨chain, views, hchain, hviews, -, hexact⟩ := didVerify_authentic hverify
  have hclaim : ¬ (result.didVerify = true →
      ∃ token ∈ chain, SignatureVerifies attackerOpenSsl token mojangPublicKey) := by
    intro hclaim
    obtain ⟨token, -, hverifies⟩ := hclaim hdid
    exact not_signatureVerifies_mojang token hverifies
  rw [hexact (attackerOpenSsl_unforgeable chain), Classical.not_imp] at hclaim
  exact ⟨result, chain, views, hverify, hchain, hviews, hclaim⟩

end BedrockLoginVerifier

end BedrockProtocol
