import BedrockProtocol.Server.BedrockServer

/-!
# What one instruction does

Inversion lemmas for `perform`: what an instruction changes in the session and
which instructions it puts in front of its thread.  The instructions fall into
few kinds: plain ones, which leave the outbound path and the login alone, the way
of packets to `sendReliable`, and the steps of the worker's inbound work.
-/

namespace BedrockProtocol.BedrockServer

/-! ## Kinds of instructions -/

/-- The steps of the worker's inbound work that matter to a login, and the
places where listeners run. -/
inductive Phase
  | listener
  | dispatch
  | settings
  | shaking
  | enabling
  | starting
  deriving DecidableEq, Repr

def SendPath.phase : SendPath → Option Phase
  | .login => some .shaking
  | .packets => none
  | .preCompression => some .settings

def Critical.phase : Critical → Option Phase
  | .send path _ _ _ => path.phase
  | .sendPacketsInternal path _ _ _ => path.phase
  | _ => none

def Instr.phase : Instr → Option Phase
  | .listeners => some .listener
  | .enter critical => critical.phase
  | .acquire critical => critical.phase
  | .encode path _ _ _ => path.phase
  | .build path _ _ => path.phase
  | .checkWritable payload => payload.path.phase
  | .sendReliable payload => payload.path.phase
  | .encodePreCompression _ _ => some .settings
  | .sendPreCompression _ _ => some .dispatch
  | .handleBuiltInPacket _ => some .dispatch
  | .handleLogin _ => some .dispatch
  | .verifyLogin _ => some .dispatch
  | .installKeys _ => some .dispatch
  | .enableEncryption _ => some .enabling
  | .startEncryption _ => some .starting
  | _ => none

def phases (instrs : List Instr) : List Phase := instrs.filterMap Instr.phase

theorem phases_append (xs ys : List Instr) : phases (xs ++ ys) = phases xs ++ phases ys :=
  List.filterMap_append

/-- Nothing but listeners, and at most one packet that is being looked at. -/
def quiet : List Phase → Bool
  | [] => true
  | .listener :: rest => quiet rest
  | [.dispatch] => true
  | _ => false

def Instr.unlocks : Instr → Bool
  | .unlock => true
  | _ => false

/-- Runs inside the outbound mutex. -/
def Instr.locked : Instr → Bool
  | .build _ _ _ => true
  | .checkWritable payload => payload.path ≠ .preCompression
  | .sendReliable payload => payload.path ≠ .preCompression
  | _ => false

/-- Holds a payload on its way to `sendReliable`. -/
def Instr.inFlight : Instr → Bool
  | .checkWritable _ => true
  | .sendReliable _ => true
  | _ => false

/-- Neither part of a login nor of the way out of the mutex. -/
def Instr.plain (i : Instr) : Bool :=
  !i.inFlight && !i.unlocks && !i.locked && (i.phase = none || i.phase = some .listener)

def Instr.acquires : Instr → Bool
  | .acquire _ => true
  | _ => false

theorem Call.plain_body (call : Call) : call.body.all Instr.plain = true := by
  cases call with
  | sendPackets packets compression =>
      simp only [Call.body, BedrockServer.sendPackets]
      split <;> rfl
  | queuePackets packets compression =>
      simp only [Call.body, BedrockServer.queuePackets]
      split <;> rfl
  | _ => rfl

/-! ## What an instruction does -/

theorem plain_sendBatches (queued : List QueuedPacket) :
    ((batches queued).map sendBatch).all Instr.plain = true := by
  rw [List.all_map, List.all_eq_true]
  intro batch _
  rfl

section Perform

variable {σ Key ν : Type} {ctx : Context σ Key ν} {t : ℕ} {s s' : Session σ ν} {i : Instr}
  {instrs : List Instr}

theorem plain_answerResourcePacks (packet : VersionedGamePacket) :
    (answerResourcePacks ctx s packet).all Instr.plain = true := by
  unfold answerResourcePacks
  extract_lets status
  split
  · rfl
  · split <;> rfl

/-- The part of the session that only the outbound path and the login change. -/
structure Frame (s s' : Session σ ν) : Prop where
  outboundMutex : s'.outboundMutex = s.outboundMutex
  encryptionKeys : s'.encryptionKeys = s.encryptionKeys
  encryptStream : s'.encryptStream = s.encryptStream
  hasEncryptionKeys : s'.hasEncryptionKeys = s.hasEncryptionKeys
  encryptionEnabled : s'.encryptionEnabled = s.encryptionEnabled
  sendCounter : s'.sendCounter = s.sendCounter
  wire : s'.wire = s.wire
  successorWritable : s'.successorWritable = s.successorWritable

theorem Frame.refl (s : Session σ ν) : Frame s s := ⟨rfl, rfl, rfl, rfl, rfl, rfl, rfl, rfl⟩

/-- The cipher stream of an encrypted session refuses the batch of the packets. -/
def refuses (ctx : Context σ Key ν) (s : Session σ ν) (packets : List VersionedGamePacket) : Bool :=
  s.encryptionEnabled && s.hasEncryptionKeys &&
    match s.encryptStream, VersionedMcpeCodec.encodeEncryptedCompressionPacket ctx.zlib
      ctx.mcpeCodec packets s.compressionLevel with
    | some stream, .ok compressionPacket =>
        match BedrockEncryption.send ctx.sha256 ctx.evp s.encryptionKeys.secretKeyBytes
          ⟨stream, s.sendCounter⟩ compressionPacket with
        | .ok _ => false
        | .error _ => true
    | _, _ => false

/-- A plain instruction leaves the outbound path alone and is followed by plain
instructions only. -/
theorem perform_plain (hplain : i.plain = true) (hacquire : i.acquires = false)
    (h : perform ctx t s i = .next s' instrs) :
    Frame s s' ∧ instrs.all Instr.plain = true := by
  cases i with
  | enter critical =>
      cases h
      refine ⟨.refl s, ?_⟩
      split
      · exact (Bool.and_true _).trans hplain
      · rfl
  | encode path packetName value compression =>
      simp only [perform] at h
      split at h
      · cases h
      · cases h
        exact ⟨.refl s, (Bool.and_true _).trans hplain⟩
  | takeQueued =>
      simp only [perform] at h
      split at h
      · cases h
        exact ⟨.refl s, rfl⟩
      · cases h
        exact ⟨⟨rfl, rfl, rfl, rfl, rfl, rfl, rfl, rfl⟩, plain_sendBatches _⟩
  | handleResourcePackClientResponse packet =>
      cases h
      refine ⟨.refl s, ?_⟩
      split
      · exact plain_answerResourcePacks packet
      · rfl
  | acquire => cases hacquire
  | unlock | build | checkWritable | sendReliable | sendPreCompression | encodePreCompression
  | handleBuiltInPacket | handleLogin | verifyLogin | installKeys | enableEncryption
  | startEncryption => cases hplain
  | _ =>
      simp only [perform] at h
      repeat' split at h
      all_goals cases h
      all_goals refine ⟨⟨rfl, rfl, rfl, rfl, rfl, rfl, rfl, rfl⟩, ?_⟩
      all_goals rfl

/-- An instruction outside the mutex, other than the one that enters it. -/
def Instr.free (i : Instr) : Bool := !i.inFlight && !i.unlocks && !i.locked

theorem Instr.free_of_plain (h : i.plain = true) : i.free = true := by
  simp only [Instr.plain, Bool.and_eq_true] at h
  simp only [Instr.free, Bool.and_eq_true]
  exact h.1

theorem all_free_of_plain (h : instrs.all Instr.plain = true) : instrs.all Instr.free = true := by
  rw [List.all_eq_true] at h ⊢
  exact fun j hj ↦ Instr.free_of_plain (h j hj)

theorem dispatchPacket_next {packet : VersionedGamePacket}
    (h : dispatchPacket ctx s packet = .next s' instrs) :
    s' = s ∧ instrs.all Instr.free = true ∧ quiet (phases instrs) = true := by
  unfold dispatchPacket at h
  repeat' split at h
  all_goals cases h
  all_goals exact ⟨rfl, rfl, rfl⟩

theorem verifyLoginData_next {login : LoginPacketData}
    (h : verifyLoginData ctx s login = .next s' instrs) :
    s' = s ∧ instrs.all Instr.free = true ∧ quiet (phases instrs) = true := by
  unfold verifyLoginData at h
  repeat' split at h
  all_goals cases h
  all_goals exact ⟨rfl, rfl, rfl⟩

theorem installSessionKeys_next {verifiedLogin : BedrockLoginVerificationResult}
    (h : installSessionKeys ctx s verifiedLogin = .next s' instrs) :
    ∃ keys stream token,
      BedrockEncryption.createCipherStream ctx.evp ctx.configuredServerProtocolVersion
        keys.secretKeyBytes keys.iv16 .encrypt = .ok stream ∧
      s' = { s with
        encryptionKeys := keys, encryptStream := some stream, hasEncryptionKeys := true } ∧
      instrs =
        [.enter (.send .login "server_to_client_handshake" (handshakeValue token) .automatic),
         .enableEncryption verifiedLogin] := by
  unfold installSessionKeys at h
  cases hkeys : ctx.deriveKeys verifiedLogin.key with
  | error e =>
      rw [hkeys] at h
      cases h
  | ok keys =>
      simp only [hkeys] at h
      split at h
      · cases h
      · rename_i stream hstream
        split at h
        · cases h
        · cases htoken : ctx.handshakeToken with
          | error e =>
              rw [htoken] at h
              cases h
          | ok token =>
              rw [htoken] at h
              cases h
              exact ⟨keys, stream, token, hstream, rfl, rfl⟩

/-- When the login throws here, only the keys and the stream can have changed. -/
theorem installSessionKeys_throws {verifiedLogin : BedrockLoginVerificationResult}
    (h : installSessionKeys ctx s verifiedLogin = .throws s') :
    ∃ keys stream has, s' = { s with
      encryptionKeys := keys, encryptStream := stream, hasEncryptionKeys := has } := by
  unfold installSessionKeys at h
  cases hkeys : ctx.deriveKeys verifiedLogin.key with
  | error e =>
      rw [hkeys] at h
      cases h
      exact ⟨_, _, _, rfl⟩
  | ok keys =>
      simp only [hkeys] at h
      repeat' split at h
      all_goals cases h
      all_goals exact ⟨_, _, _, rfl⟩

theorem buildPayload_next {path : SendPath} {packets : List VersionedGamePacket}
    {compression : VersionedMcpeCompression}
    (h : buildPayload ctx s path packets compression = .next s' instrs) :
    (s.status = .disconnected ∧ s' = s ∧ instrs = []) ∨
    ((s.encryptionEnabled && s.hasEncryptionKeys) = true ∧ ∃ stream packet encryptedOnly sender,
      s.encryptStream = some stream ∧
      BedrockEncryption.send ctx.sha256 ctx.evp s.encryptionKeys.secretKeyBytes
        ⟨stream, s.sendCounter⟩ packet = .ok (encryptedOnly, sender) ∧
      s' = { s with encryptStream := some sender.stream, sendCounter := sender.counter } ∧
      instrs = [.checkWritable ⟨path, 0xfe :: encryptedOnly⟩]) ∨
    ((s.encryptionEnabled && s.hasEncryptionKeys) = false ∧ s' = s ∧
      ∃ bytes, instrs = [.checkWritable ⟨path, bytes⟩]) := by
  unfold buildPayload at h
  split at h
  · cases h
    exact .inl ⟨‹_›, rfl, rfl⟩
  · split at h
    · rename_i hon
      refine .inr (.inl ⟨hon, ?_⟩)
      cases hstream : s.encryptStream with
      | none =>
          rw [hstream] at h
          cases h
      | some stream =>
          simp only [hstream] at h
          split at h
          · cases h
          · split at h
            · cases h
            · rename_i encryptedOnly sender hsend
              cases h
              exact ⟨stream, _, encryptedOnly, sender, rfl, hsend, rfl, rfl⟩
    · rename_i hoff
      refine .inr (.inr ⟨by simpa using hoff, ?_⟩)
      split at h
      · cases h
      · cases h
        exact ⟨rfl, _, rfl⟩

/-- The counter is lost when the cipher stream refuses the payload. -/
theorem buildPayload_throws {path : SendPath} {packets : List VersionedGamePacket}
    {compression : VersionedMcpeCompression}
    (h : buildPayload ctx s path packets compression = .throws s') :
    s' = s ∨
    (s' = { s with sendCounter := BedrockEncryption.nextCounter s.sendCounter } ∧
      refuses ctx s packets = true) := by
  unfold buildPayload at h
  split at h
  · cases h
  · split at h
    · rename_i hon
      cases hstream : s.encryptStream with
      | none =>
          rw [hstream] at h
          cases h
          exact .inl rfl
      | some stream =>
          simp only [hstream] at h
          split at h
          · cases h
            exact .inl rfl
          · rename_i packet hpacket
            split at h
            · rename_i e hsend
              cases h
              exact .inr ⟨rfl, by simp [refuses, hon, hstream, hpacket, hsend]⟩
            · cases h
    · split at h
      · cases h
        exact .inl rfl
      · cases h

/-- The instruction that carries the answer to a client that asks for the network
settings, past the outbound mutex. -/
def Instr.bypasses : Instr → Bool
  | .encodePreCompression _ _ => true
  | _ => false

theorem perform_free (hfree : i.free = true) (hacquire : i.acquires = false)
    (hbypass : i.bypasses = false) (h : perform ctx t s i = .next s' instrs) :
    s'.outboundMutex = s.outboundMutex ∧ instrs.all Instr.free = true := by
  cases i with
  | enter critical =>
      cases h
      refine ⟨rfl, ?_⟩
      split <;> rfl
  | encode path packetName value compression =>
      simp only [perform] at h
      split at h
      · cases h
      · cases h
        exact ⟨rfl, rfl⟩
  | sendPreCompression packetName value =>
      cases h
      refine ⟨rfl, ?_⟩
      split <;> rfl
  | handleBuiltInPacket packet =>
      obtain ⟨rfl, hall, -⟩ := dispatchPacket_next h
      exact ⟨rfl, hall⟩
  | handleLogin packet =>
      simp only [perform] at h
      split at h <;> cases h <;> exact ⟨rfl, rfl⟩
  | verifyLogin login =>
      obtain ⟨rfl, hall, -⟩ := verifyLoginData_next h
      exact ⟨rfl, hall⟩
  | installKeys verifiedLogin =>
      simp only [perform] at h
      split at h
      · obtain ⟨keys, stream, token, -, rfl, rfl⟩ := installSessionKeys_next h
        exact ⟨rfl, rfl⟩
      · cases h
        exact ⟨rfl, rfl⟩
  | enableEncryption verifiedLogin =>
      cases h
      refine ⟨rfl, ?_⟩
      split <;> rfl
  | startEncryption verifiedLogin =>
      cases h
      exact ⟨rfl, rfl⟩
  | acquire => cases hacquire
  | encodePreCompression => cases hbypass
  | unlock | build | checkWritable | sendReliable => cases hfree
  | _ =>
      obtain ⟨hframe, hall⟩ := perform_plain rfl rfl h
      exact ⟨hframe.outboundMutex, all_free_of_plain hall⟩

theorem perform_throws_outboundMutex (h : perform ctx t s i = .throws s') :
    s'.outboundMutex = s.outboundMutex := by
  cases i with
  | build path packets compression =>
      rcases buildPayload_throws h with rfl | ⟨rfl, -⟩ <;> rfl
  | installKeys verifiedLogin =>
      simp only [perform] at h
      split at h
      · obtain ⟨keys, stream, has, rfl⟩ := installSessionKeys_throws h
        rfl
      · cases h
  | handleBuiltInPacket packet =>
      simp only [perform, dispatchPacket] at h
      repeat' split at h
      all_goals cases h
      all_goals rfl
  | verifyLogin login =>
      simp only [perform, verifyLoginData] at h
      repeat' split at h
      all_goals cases h
  | _ =>
      simp only [perform] at h
      repeat' split at h
      all_goals cases h
      all_goals rfl

theorem listener_of_mem_phases (hplain : instrs.all Instr.plain = true) :
    ∀ phase ∈ phases instrs, phase = .listener := by
  intro phase hphase
  obtain ⟨j, hj, hphase⟩ := List.mem_filterMap.mp hphase
  have hplain := List.all_eq_true.mp hplain j hj
  simp only [Instr.plain, Bool.and_eq_true, Bool.or_eq_true, decide_eq_true_eq, hphase] at hplain
  rcases hplain.2 with hnone | hlistener
  · cases hnone
  · exact Option.some.inj hlistener

/-- Entering the mutex goes on with the same kind of work. -/
theorem phases_critical (critical : Critical) :
    phases (critical.body ++ [.unlock]) = critical.phase.toList := by
  have hprocess (packets : List VersionedGamePacket) :
      phases (packets.map .processOutboundPacket) = [] := by
    rw [phases, List.filterMap_map, List.filterMap_eq_nil_iff]
    exact fun packet _ ↦ rfl
  cases critical with
  | sendPacketsInternal path packets compression processOutbound =>
      simp only [Critical.body, phases_append]
      cases processOutbound with
      | true => simp only [if_true, hprocess]; cases path <;> rfl
      | false => cases path <;> rfl
  | queuePackets packets compression =>
      simp only [Critical.body, phases_append, hprocess]
      rfl
  | send path => cases path <;> rfl
  | _ => rfl

/-- The way of packets to `sendReliable`. -/
def Instr.outbound : Instr → Bool
  | .enter _ => true
  | .acquire _ => true
  | .encode _ _ _ _ => true
  | .build _ _ _ => true
  | .checkWritable _ => true
  | .sendReliable _ => true
  | _ => false

theorem perform_outbound (hout : i.outbound = true) (h : perform ctx t s i = .next s' instrs) :
    phases instrs = [] ∨ phases instrs = i.phase.toList := by
  have hone (j : Instr) : phases [j] = j.phase.toList := by
    cases hj : j.phase <;> simp [phases, hj]
  cases i with
  | enter critical =>
      cases h
      split
      · exact .inr (hone _)
      · exact .inl rfl
  | acquire critical =>
      simp only [perform] at h
      split at h
      · cases h
      · cases h
        exact .inr (phases_critical critical)
  | encode path packetName value compression =>
      simp only [perform] at h
      split at h
      · cases h
      · cases h
        exact .inr (hone _)
  | build path packets compression =>
      rcases buildPayload_next h with ⟨-, -, rfl⟩ | ⟨-, stream, packet, out, sender, -, -, -, rfl⟩ |
        ⟨-, -, bytes, rfl⟩
      · exact .inl rfl
      · exact .inr (hone _)
      · exact .inr (hone _)
  | checkWritable payload =>
      cases h
      split
      · exact .inr (hone _)
      · exact .inl rfl
  | sendReliable payload =>
      cases h
      exact .inl rfl
  | _ => cases hout

/-- Away from the worker's own work only listeners are run. -/
theorem perform_phases (hphase : ∀ phase ∈ i.phase, phase = .listener)
    (h : perform ctx t s i = .next s' instrs) : ∀ phase ∈ phases instrs, phase = .listener := by
  cases i with
  | enter | acquire | encode | build | checkWritable | sendReliable =>
      rcases perform_outbound rfl h with hnil | hsame
      · simp [hnil]
      · simpa [hsame] using hphase
  | unlock =>
      cases h
      simp [phases]
  | sendPreCompression | encodePreCompression | handleBuiltInPacket | handleLogin | verifyLogin
  | installKeys | enableEncryption | startEncryption => exact absurd (hphase _ rfl) (by decide)
  | _ => exact listener_of_mem_phases (perform_plain rfl rfl h).2

end Perform

end BedrockProtocol.BedrockServer
