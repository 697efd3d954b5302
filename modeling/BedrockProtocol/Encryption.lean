import BedrockProtocol.Lib.Words

/-!
# The encrypted session

`BedrockEncryption.cpp`: every batch of an encrypted session is followed by the
first eight bytes of a SHA-256 digest over the send counter, the batch and the
key, and both together run through one cipher stream.  The receiver decrypts,
splits the checksum off, recomputes it with its own counter and advances that
counter whether or not the two agree.

OpenSSL is a parameter: `Evp` stands for the cipher contexts, `sha256` for the
digest.
-/

namespace BedrockProtocol

inductive BedrockCipherMode
  | encrypt
  | decrypt
  deriving DecidableEq, Repr

inductive BedrockCipherAlgorithm
  | aes256Cfb8
  | aes256GcmNoTag
  deriving DecidableEq, Repr

/-- The OpenSSL cipher contexts: initialisation for a key and an initial
vector, and the update call that turns input bytes into output bytes. -/
structure Evp (σ : Type) where
  init : BedrockCipherAlgorithm → BedrockCipherMode → List UInt8 → List UInt8 → Except String σ
  update : σ → List UInt8 → Except String (List UInt8 × σ)

/-- A stream object: the algorithm it was created for and its live context. -/
structure BedrockCipherStream (σ : Type) where
  algorithm : BedrockCipherAlgorithm
  ctx : σ

structure BedrockChecksumVerification where
  packetPlaintext : List UInt8
  receivedChecksum : List UInt8
  expectedChecksum : List UInt8
  deriving DecidableEq, Repr

/-- `BedrockChecksumVerification::matches`. -/
def BedrockChecksumVerification.checksumMatches (v : BedrockChecksumVerification) : Bool :=
  v.receivedChecksum == v.expectedChecksum

namespace BedrockEncryption

/-! ## Cipher streams -/

/-- Protocol 431 switched from CFB8 to the tagless streaming form of GCM. -/
def GCM_PROTOCOL_VERSION : ℕ := 431

def cipherAlgorithmForProtocol (protocolVersion : ℕ) : BedrockCipherAlgorithm :=
  if protocolVersion < GCM_PROTOCOL_VERSION then .aes256Cfb8 else .aes256GcmNoTag

section Streams

variable {σ : Type} (evp : Evp σ)

def BedrockAesGcmStream (secretKeyBytes iv16 : List UInt8) (mode : BedrockCipherMode) :
    Except String (BedrockCipherStream σ) := do
  if secretKeyBytes.length ≠ 32 then
    throw "BedrockAesGcmStream secretKeyBytes must be 32 bytes"
  if iv16.length < 12 then
    throw "BedrockAesGcmStream iv16 must contain at least 12 bytes"
  let ctx ← evp.init .aes256GcmNoTag mode secretKeyBytes (iv16.take 12)
  pure ⟨.aes256GcmNoTag, ctx⟩

def BedrockAesCfb8Stream (secretKeyBytes iv16 : List UInt8) (mode : BedrockCipherMode) :
    Except String (BedrockCipherStream σ) := do
  if secretKeyBytes.length ≠ 32 then
    throw "BedrockAesCfb8Stream secretKeyBytes must be 32 bytes"
  if iv16.length ≠ 16 then
    throw "BedrockAesCfb8Stream iv16 must be 16 bytes"
  let ctx ← evp.init .aes256Cfb8 mode secretKeyBytes iv16
  pure ⟨.aes256Cfb8, ctx⟩

def createCipherStream (protocolVersion : ℕ) (secretKeyBytes iv16 : List UInt8)
    (mode : BedrockCipherMode) : Except String (BedrockCipherStream σ) :=
  if cipherAlgorithmForProtocol protocolVersion = .aes256Cfb8 then
    BedrockAesCfb8Stream evp secretKeyBytes iv16 mode
  else BedrockAesGcmStream evp secretKeyBytes iv16 mode

/-- `BedrockCipherStream::process`, the same in both stream classes: an empty
input never reaches the context. -/
def process (stream : BedrockCipherStream σ) (input : List UInt8) :
    Except String (List UInt8 × BedrockCipherStream σ) := do
  if input = [] then pure ([], stream)
  else
    let (out, ctx) ← evp.update stream.ctx input
    pure (out, { stream with ctx })

end Streams

/-! ## Checksums -/

/-- Where `encryption.js` cuts the checksum off: a negative slice index is
normalised by adding the length and clamped at zero. -/
def nodeChecksumSliceBoundary (size : ℕ) : ℕ :=
  if 8 ≤ size then size - 8
  else if 4 < size then 2 * size - 8 else 0

def writeU64LE (v : ℕ) : List UInt8 := leBytes 8 v

variable (sha256 : List UInt8 → List UInt8)

def computeChecksum (packetPlaintext : List UInt8) (sendCounter : ℕ)
    (secretKeyBytes : List UInt8) : Except String (List UInt8) :=
  if secretKeyBytes.length ≠ 32 then .error "secretKeyBytes must be 32 bytes"
  else .ok ((sha256 (writeU64LE sendCounter ++ packetPlaintext ++ secretKeyBytes)).take 8)

def makeAesPlaintext (packetPlaintext : List UInt8) (sendCounter : ℕ)
    (secretKeyBytes : List UInt8) : Except String (List UInt8) := do
  let check ← computeChecksum sha256 packetPlaintext sendCounter secretKeyBytes
  pure (packetPlaintext ++ check)

/-- A `uint64_t` counter after `++`. -/
def nextCounter (counter : ℕ) : ℕ := (counter + 1) % 2 ^ 64

/-- The verification and the receive counter after it. -/
def verifyAesPlaintext (aesPlaintext : List UInt8) (receiveCounter : ℕ)
    (secretKeyBytes : List UInt8) : Except String (BedrockChecksumVerification × ℕ) := do
  let boundary := nodeChecksumSliceBoundary aesPlaintext.length
  let packetPlaintext := aesPlaintext.take boundary
  let receivedChecksum := aesPlaintext.drop boundary
  let expectedChecksum ← computeChecksum sha256 packetPlaintext receiveCounter secretKeyBytes
  pure (⟨packetPlaintext, receivedChecksum, expectedChecksum⟩, nextCounter receiveCounter)

section Session

variable {σ : Type} (evp : Evp σ)

/-- One end of an encrypted session: its stream and its counter. -/
structure Endpoint (σ : Type) where
  stream : BedrockCipherStream σ
  counter : ℕ

/-- Encrypt one batch: checksum with the counter, advance it, run the stream. -/
def send (key : List UInt8) (sender : Endpoint σ) (packetPlaintext : List UInt8) :
    Except String (List UInt8 × Endpoint σ) := do
  let aesPlaintext ← makeAesPlaintext sha256 packetPlaintext sender.counter key
  let (encrypted, stream) ← process evp sender.stream aesPlaintext
  pure (encrypted, ⟨stream, nextCounter sender.counter⟩)

/-- An empty cipher write produces no event: no verification, no state change. -/
def decryptAndVerify (key : List UInt8) (receiver : Endpoint σ) (encrypted : List UInt8) :
    Except String (Option BedrockChecksumVerification × Endpoint σ) := do
  if encrypted = [] then pure (none, receiver)
  else
    let (plain, stream) ← process evp receiver.stream encrypted
    let (verification, counter) ← verifyAesPlaintext sha256 plain receiver.counter key
    pure (some verification, ⟨stream, counter⟩)

/-- Send a sequence of batches one after another. -/
def sendAll (key : List UInt8) : Endpoint σ → List (List UInt8) →
    Except String (List (List UInt8) × Endpoint σ)
  | sender, [] => pure ([], sender)
  | sender, p :: ps => do
      let (encrypted, sender) ← send sha256 evp key sender p
      let (rest, sender) ← sendAll key sender ps
      pure (encrypted :: rest, sender)

/-- Receive a sequence of payloads one after another. -/
def receiveAll (key : List UInt8) : Endpoint σ → List (List UInt8) →
    Except String (List (Option BedrockChecksumVerification) × Endpoint σ)
  | receiver, [] => pure ([], receiver)
  | receiver, c :: cs => do
      let (verification, receiver) ← decryptAndVerify sha256 evp key receiver c
      let (rest, receiver) ← receiveAll key receiver cs
      pure (verification :: rest, receiver)

end Session

/-! ## What is assumed of the ciphers and the digest -/

/-- The contexts are byte streams: an update returns as many bytes as it was
given. -/
def ByteStreams {σ : Type} (evp : Evp σ) : Prop :=
  ∀ s input out s', evp.update s input = .ok (out, s') → out.length = input.length

/-- Encryption and decryption contexts created for one key and initial vector
are inverse to each other and stay so as both are advanced. -/
structure InverseStreams {σ : Type} (evp : Evp σ) (paired : σ → σ → Prop) : Prop where
  init : ∀ algorithm key iv e d, evp.init algorithm .encrypt key iv = .ok e →
    evp.init algorithm .decrypt key iv = .ok d → paired e d
  update : ∀ e d input, paired e d → ∃ out e' d',
    evp.update e input = .ok (out, e') ∧ evp.update d out = .ok (input, d') ∧ paired e' d'

/-- A SHA-256 digest has 32 bytes. -/
def DigestLength : Prop := ∀ input, (sha256 input).length = 32

variable {sha256}

/-! ## One batch -/

theorem computeChecksum_eq {key : List UInt8} (hkey : key.length = 32) (p : List UInt8) (n : ℕ) :
    computeChecksum sha256 p n key = .ok ((sha256 (writeU64LE n ++ p ++ key)).take 8) := by
  simp [computeChecksum, hkey]

theorem computeChecksum_length (hsha : DigestLength sha256) {key p check : List UInt8} {n : ℕ}
    (h : computeChecksum sha256 p n key = .ok check) : check.length = 8 := by
  unfold computeChecksum at h
  split at h
  · cases h
  · cases h
    rw [List.length_take, hsha]
    rfl

/-- Splitting off the last eight bytes recovers the batch and its checksum. -/
theorem verifyAesPlaintext_append {key p check : List UInt8} {n : ℕ} (hlen : check.length = 8)
    (hcheck : computeChecksum sha256 p n key = .ok check) :
    verifyAesPlaintext sha256 (p ++ check) n key = .ok (⟨p, check, check⟩, nextCounter n) := by
  have hboundary : nodeChecksumSliceBoundary (p ++ check).length = p.length := by
    simp [nodeChecksumSliceBoundary, hlen]
  rw [verifyAesPlaintext, hboundary, List.take_left, List.drop_left, hcheck]
  rfl

/-- Only a plaintext that ends in exactly its own checksum is accepted. -/
theorem eq_append_of_verifyAesPlaintext (hsha : DigestLength sha256) {key plain : List UInt8}
    {n n' : ℕ} {v : BedrockChecksumVerification}
    (h : verifyAesPlaintext sha256 plain n key = .ok (v, n')) (hv : v.checksumMatches = true) :
    ∃ check, computeChecksum sha256 v.packetPlaintext n key = .ok check ∧ check.length = 8 ∧
      plain = v.packetPlaintext ++ check := by
  unfold verifyAesPlaintext at h
  cases hc : computeChecksum sha256 (plain.take (nodeChecksumSliceBoundary plain.length)) n key with
  | error e => simp [hc] at h
  | ok check =>
      simp only [hc, ok_bind, pure_eq_ok, Except.ok.injEq, Prod.mk.injEq] at h
      obtain ⟨rfl, -⟩ := h
      have hreceived : plain.drop (nodeChecksumSliceBoundary plain.length) = check := by
        simpa [BedrockChecksumVerification.checksumMatches] using hv
      refine ⟨check, hc, computeChecksum_length hsha hc, ?_⟩
      rw [← hreceived, List.take_append_drop]

/-! ## Runs -/

section Runs

variable {σ : Type} {evp : Evp σ} {paired : σ → σ → Prop}

/-- The two ends agree: same counter, inverse contexts. -/
def Synchronised (paired : σ → σ → Prop) (sender receiver : Endpoint σ) : Prop :=
  paired sender.stream.ctx receiver.stream.ctx ∧ sender.counter = receiver.counter

/-- One batch keeps the two ends synchronised and arrives unchanged. -/
theorem decryptAndVerify_send (hinv : InverseStreams evp paired) (hbytes : ByteStreams evp)
    (hsha : DigestLength sha256) {key : List UInt8} (hkey : key.length = 32)
    {sender receiver : Endpoint σ} (hsync : Synchronised paired sender receiver)
    (p : List UInt8) :
    ∃ encrypted sender' receiver' check,
      send sha256 evp key sender p = .ok (encrypted, sender') ∧
      decryptAndVerify sha256 evp key receiver encrypted =
        .ok (some ⟨p, check, check⟩, receiver') ∧
      sender'.counter = nextCounter sender.counter ∧
      Synchronised paired sender' receiver' := by
  obtain ⟨hpaired, hcounter⟩ := hsync
  have hcheck : computeChecksum sha256 p sender.counter key = _ :=
    computeChecksum_eq hkey p sender.counter
  set check := (sha256 (writeU64LE sender.counter ++ p ++ key)).take 8
  have hlen : check.length = 8 := computeChecksum_length hsha hcheck
  have hne : p ++ check ≠ [] := by
    intro h
    have := congrArg List.length h
    simp [hlen] at this
  obtain ⟨out, e', d', he, hd, hpaired'⟩ :=
    hinv.update sender.stream.ctx receiver.stream.ctx (p ++ check) hpaired
  have hout : out ≠ [] := by
    intro h
    have := hbytes _ _ _ _ he
    simp [h, hlen] at this
  have hverify := verifyAesPlaintext_append hlen (hcounter ▸ hcheck)
  refine ⟨out, ⟨{ sender.stream with ctx := e' }, nextCounter sender.counter⟩,
    ⟨{ receiver.stream with ctx := d' }, nextCounter receiver.counter⟩, check, ?_, ?_, rfl,
    hpaired', by simp [hcounter]⟩
  · simp only [send, makeAesPlaintext, hcheck, process, if_neg hne, he, ok_bind, pure_eq_ok]
  · simp only [decryptAndVerify, if_neg hout, process, hd, hverify, ok_bind, pure_eq_ok]

/-- A whole run: every batch sent is received, verified and unchanged, and the
ends are synchronised again after it. -/
theorem receiveAll_sendAll (hinv : InverseStreams evp paired) (hbytes : ByteStreams evp)
    (hsha : DigestLength sha256) {key : List UInt8} (hkey : key.length = 32)
    (ps : List (List UInt8)) {sender receiver : Endpoint σ}
    (hsync : Synchronised paired sender receiver) :
    ∃ cs sender' receiver' , ∃ vs : List BedrockChecksumVerification,
      sendAll sha256 evp key sender ps = .ok (cs, sender') ∧
      receiveAll sha256 evp key receiver cs = .ok (vs.map some, receiver') ∧
      vs.map BedrockChecksumVerification.packetPlaintext = ps ∧
      (∀ v ∈ vs, v.checksumMatches = true) ∧
      sender'.counter = nextCounter^[ps.length] sender.counter ∧
      Synchronised paired sender' receiver' := by
  induction ps generalizing sender receiver with
  | nil => exact ⟨[], sender, receiver, [], rfl, rfl, rfl, by simp, rfl, hsync⟩
  | cons p ps ih =>
      obtain ⟨c, s₁, r₁, check, hsend, hreceive, hcount, hsync₁⟩ :=
        decryptAndVerify_send hinv hbytes hsha hkey hsync p
      obtain ⟨cs, s₂, r₂, vs, hsends, hreceives, hps, hmatch, hcounts, hsync₂⟩ := ih hsync₁
      refine ⟨c :: cs, s₂, r₂, ⟨p, check, check⟩ :: vs, ?_, ?_, by simp [hps], ?_, ?_, hsync₂⟩
      · simp only [sendAll, hsend, hsends, ok_bind, pure_eq_ok]
      · simp only [receiveAll, hreceive, hreceives, ok_bind, pure_eq_ok, List.map_cons]
      · simpa [BedrockChecksumVerification.checksumMatches] using hmatch
      · rw [hcounts, hcount, List.length_cons, Function.iterate_succ_apply]

/-- One more batch after a run. -/
theorem sendAll_append {key : List UInt8} {ps : List (List UInt8)} {p c : List UInt8}
    {cs : List (List UInt8)} {sender sender' sender'' : Endpoint σ}
    (hrun : sendAll sha256 evp key sender ps = .ok (cs, sender'))
    (hsend : send sha256 evp key sender' p = .ok (c, sender'')) :
    sendAll sha256 evp key sender (ps ++ [p]) = .ok (cs ++ [c], sender'') := by
  induction ps generalizing sender cs with
  | nil =>
      simp only [sendAll, pure_eq_ok, Except.ok.injEq, Prod.mk.injEq] at hrun
      obtain ⟨rfl, rfl⟩ := hrun
      simp [sendAll, hsend]
  | cons q ps ih =>
      simp only [sendAll] at hrun
      obtain ⟨⟨first, next⟩, hfirst, hrest⟩ := bind_eq_ok.mp hrun
      obtain ⟨⟨others, last⟩, hothers, hsame⟩ := bind_eq_ok.mp hrest
      simp only [pure_eq_ok, Except.ok.injEq, Prod.mk.injEq] at hsame
      obtain ⟨rfl, rfl⟩ := hsame
      simp [sendAll, hfirst, ih hothers]

theorem key_length_of_createCipherStream {protocolVersion : ℕ} {key iv16 : List UInt8}
    {mode : BedrockCipherMode} {stream : BedrockCipherStream σ}
    (h : createCipherStream evp protocolVersion key iv16 mode = .ok stream) :
    key.length = 32 := by
  by_contra hkey
  unfold createCipherStream at h
  split at h <;> simp [BedrockAesCfb8Stream, BedrockAesGcmStream, hkey] at h

/-- The two streams of a session start out paired. -/
theorem paired_of_createCipherStream (hinv : InverseStreams evp paired)
    {protocolVersion : ℕ} {key iv16 : List UInt8} {e d : BedrockCipherStream σ}
    (he : createCipherStream evp protocolVersion key iv16 .encrypt = .ok e)
    (hd : createCipherStream evp protocolVersion key iv16 .decrypt = .ok d) :
    paired e.ctx d.ctx := by
  have hkey := key_length_of_createCipherStream he
  unfold createCipherStream at he hd
  split at he
  · rename_i halg
    rw [if_pos halg] at hd
    by_cases hiv : iv16.length = 16
    · simp only [BedrockAesCfb8Stream, hkey, hiv, ne_eq, not_true_eq_false, if_false,
        bind_eq_ok, pure_eq_ok, Except.ok.injEq] at he hd
      obtain ⟨ce, hce, rfl⟩ := he
      obtain ⟨cd, hcd, rfl⟩ := hd
      exact hinv.init _ _ _ _ _ hce hcd
    · simp [BedrockAesCfb8Stream, hkey, hiv] at he
  · rename_i halg
    rw [if_neg halg] at hd
    by_cases hiv : iv16.length < 12
    · simp [BedrockAesGcmStream, hkey, hiv] at he
    · simp only [BedrockAesGcmStream, hkey, hiv, ne_eq, not_true_eq_false, if_false,
        bind_eq_ok, pure_eq_ok, Except.ok.injEq] at he hd
      obtain ⟨ce, hce, rfl⟩ := he
      obtain ⟨cd, hcd, rfl⟩ := hd
      exact hinv.init _ _ _ _ _ hce hcd

theorem process_length (hbytes : ByteStreams evp) {stream stream' : BedrockCipherStream σ}
    {input out : List UInt8} (h : process evp stream input = .ok (out, stream')) :
    out.length = input.length := by
  unfold process at h
  split at h
  · rename_i hnil
    cases h
    simp [hnil]
  · obtain ⟨⟨out', ctx⟩, hup, hok⟩ := bind_eq_ok.mp h
    cases hok
    exact hbytes _ _ _ _ hup

theorem iterate_nextCounter_zero (n : ℕ) : nextCounter^[n] 0 = n % 2 ^ 64 := by
  induction n with
  | zero => rfl
  | succ n ih => rw [Function.iterate_succ_apply', ih, nextCounter, Nat.mod_add_mod]

/-- Whatever is received, a match means that the decrypted bytes are a batch
followed by exactly the checksum of the receive counter, that batch and the key. -/
theorem decryptAndVerify_checksumMatches (hbytes : ByteStreams evp) (hsha : DigestLength sha256)
    {key encrypted : List UInt8} {receiver receiver' : Endpoint σ}
    {v : BedrockChecksumVerification}
    (h : decryptAndVerify sha256 evp key receiver encrypted = .ok (some v, receiver'))
    (hv : v.checksumMatches = true) :
    ∃ plain stream' check, process evp receiver.stream encrypted = .ok (plain, stream') ∧
      computeChecksum sha256 v.packetPlaintext receiver.counter key = .ok check ∧
      check.length = 8 ∧ plain = v.packetPlaintext ++ check ∧ 8 ≤ encrypted.length := by
  unfold decryptAndVerify at h
  split at h
  · cases h
  · obtain ⟨⟨plain, stream'⟩, hprocess, h⟩ := bind_eq_ok.mp h
    obtain ⟨⟨v', n⟩, hverify, h⟩ := bind_eq_ok.mp h
    cases h
    obtain ⟨check, hcheck, hlen, hplain⟩ := eq_append_of_verifyAesPlaintext hsha hverify hv
    refine ⟨plain, stream', check, hprocess, hcheck, hlen, hplain, ?_⟩
    have hsame := process_length hbytes hprocess
    have := congrArg List.length hplain
    rw [List.length_append, hlen] at this
    omega

/-- A session created with one key and initial vector at both ends, counters
starting at zero: every sequence of batches arrives unchanged and verified with
the counters in step; and no payload whatever verifies unless it decrypts to a
batch followed by its eight-byte checksum. -/
theorem encrypted_session_agrees (hinv : InverseStreams evp paired) (hbytes : ByteStreams evp)
    (hsha : DigestLength sha256) {protocolVersion : ℕ} {key iv16 : List UInt8}
    {encryptStream decryptStream : BedrockCipherStream σ}
    (he : createCipherStream evp protocolVersion key iv16 .encrypt = .ok encryptStream)
    (hd : createCipherStream evp protocolVersion key iv16 .decrypt = .ok decryptStream) :
    (∀ ps : List (List UInt8),
      ∃ cs sender receiver, ∃ vs : List BedrockChecksumVerification,
        sendAll sha256 evp key ⟨encryptStream, 0⟩ ps = .ok (cs, sender) ∧
        receiveAll sha256 evp key ⟨decryptStream, 0⟩ cs = .ok (vs.map some, receiver) ∧
        vs.map BedrockChecksumVerification.packetPlaintext = ps ∧
        (∀ v ∈ vs, v.checksumMatches = true) ∧
        sender.counter = ps.length % 2 ^ 64 ∧ receiver.counter = sender.counter) ∧
    (∀ (receiver receiver' : Endpoint σ) (encrypted : List UInt8)
        (v : BedrockChecksumVerification),
      decryptAndVerify sha256 evp key receiver encrypted = .ok (some v, receiver') →
      v.checksumMatches = true →
      ∃ plain stream' check, process evp receiver.stream encrypted = .ok (plain, stream') ∧
        computeChecksum sha256 v.packetPlaintext receiver.counter key = .ok check ∧
        check.length = 8 ∧ plain = v.packetPlaintext ++ check ∧ 8 ≤ encrypted.length) := by
  have hkey := key_length_of_createCipherStream he
  have hpaired := paired_of_createCipherStream hinv he hd
  refine ⟨fun ps ↦ ?_, fun _ _ _ _ ↦ decryptAndVerify_checksumMatches hbytes hsha⟩
  obtain ⟨cs, sender, receiver, vs, hsend, hreceive, hps, hmatch, hcount, -, hsame⟩ :=
    receiveAll_sendAll hinv hbytes hsha hkey ps
      (show Synchronised _ ⟨encryptStream, 0⟩ ⟨decryptStream, 0⟩ from ⟨hpaired, rfl⟩)
  refine ⟨cs, sender, receiver, vs, hsend, hreceive, hps, hmatch, ?_, hsame.symm⟩
  rw [hcount, iterate_nextCounter_zero]

end Runs

/-! A keystream cipher and a checksum function that meet the assumptions. -/

/-- Add the key bytes, cyclically, by exclusive or. -/
def xorEvp : Evp (List UInt8 × ℕ) where
  init _ _ key _ := .ok (key, 0)
  update s input := .ok
    (input.mapIdx fun i b ↦ b ^^^ s.1.getD ((s.2 + i) % 32) 0, (s.1, s.2 + input.length))

def sumDigest (input : List UInt8) : List UInt8 := List.replicate 32 (input.foldl (· + ·) 0)

theorem xorEvp_inverse : InverseStreams xorEvp (· = ·) where
  init := by
    rintro _ key iv e d he hd
    cases he
    cases hd
    rfl
  update := by
    rintro e _ input rfl
    have htwice : (input.mapIdx fun i b ↦ b ^^^ e.1.getD ((e.2 + i) % 32) 0).mapIdx
        (fun i b ↦ b ^^^ e.1.getD ((e.2 + i) % 32) 0) = input := by
      apply List.ext_getElem (by simp)
      intro i _ _
      rw [List.getElem_mapIdx, List.getElem_mapIdx, UInt8.xor_assoc, UInt8.xor_self, UInt8.xor_zero]
    refine ⟨_, _, (e.1, e.2 + input.length), rfl, ?_, rfl⟩
    simp only [xorEvp, htwice, List.length_mapIdx]

theorem xorEvp_byteStreams : ByteStreams xorEvp := by
  intro s input out s' h
  cases h
  simp

/-- Two batches, one of them empty, through a session of protocol 622. -/
theorem encrypted_session_agrees_xor :
    ∃ cs sender receiver, ∃ vs : List BedrockChecksumVerification,
      sendAll sumDigest xorEvp (List.replicate 32 7)
        ⟨⟨.aes256GcmNoTag, (List.replicate 32 7, 0)⟩, 0⟩ [[1, 2, 3], []] = .ok (cs, sender) ∧
      receiveAll sumDigest xorEvp (List.replicate 32 7)
        ⟨⟨.aes256GcmNoTag, (List.replicate 32 7, 0)⟩, 0⟩ cs = .ok (vs.map some, receiver) ∧
      vs.map BedrockChecksumVerification.packetPlaintext = [[1, 2, 3], []] ∧
      (∀ v ∈ vs, v.checksumMatches = true) ∧
      sender.counter = 2 ∧ receiver.counter = sender.counter :=
  (@encrypted_session_agrees _ _ _ _ xorEvp_inverse xorEvp_byteStreams
    (fun _ ↦ by simp [sumDigest]) 622 _ (List.replicate 16 0) _ _ rfl rfl).1 [[1, 2, 3], []]

end BedrockEncryption

end BedrockProtocol
