import BedrockProtocol.Server.WireSecrecy

/-!
# Joining and spawning before a login

A player joins, spawns or changes its status to initializing or initialized only
because a packet of the client's says so.  No check stands between such a packet
and its effect: along every run in which these packets are handled only once the
login is complete, the player is logged in when it joins or spawns, and a client
whose first packet says that it has been initialized spawns without a login.
-/

namespace BedrockProtocol.BedrockServer

section Gate

variable {σ Key ν : Type}

/-- `handleLogin` is complete. -/
def LoggedIn (s : Session σ ν) : Prop :=
  s.loginVerification.isSome = true ∧ s.encryptionEnabled = true

/-- The statuses behind the gate. -/
def inGame : BedrockServerClientStatus → Bool
  | .initializing => true
  | .initialized => true
  | _ => false

/-- A player that joined, spawned or is on its way into the game is logged in. -/
def Gated (s : Session σ ν) : Prop := (inGame s.status = true ∨ s.events ≠ []) → LoggedIn s

/-! ## The condition -/

/-- The packets that take a player past the gate. -/
def opensGame (ctx : Context σ Key ν) (packet : VersionedGamePacket) : Bool :=
  packet.name = "client_to_server_handshake" && ctx.hasPacket "play_status" ||
    packet.name = "set_local_player_as_initialized"

/-- A client that has completed the resource packs, after the stack was sent. -/
def completesPacks (s : Session σ ν) (packet : VersionedGamePacket) : Bool :=
  s.attached && s.resourcePackStackSent && packet.payload.headD 0xff = 0x04

/-- What takes a player past the gate is handled only for players that are logged in. -/
def AuthorizedNext (ctx : Context σ Key ν) (s : Session σ ν) : List Instr → Prop
  | .handleBuiltInPacket packet :: _ => opensGame ctx packet = true → LoggedIn s
  | .handleResourcePackClientResponse packet :: _ => completesPacks s packet = true → LoggedIn s
  | _ => True

def Authorized (ctx : Context σ Key ν) (s : State σ ν) : Label → Prop
  | .exec t => AuthorizedNext ctx s.session (s.todo t)
  | .call _ (.setStatus status) => inGame status = true → LoggedIn s.session
  | _ => True

instance (s : Session σ ν) : Decidable (LoggedIn s) :=
  inferInstanceAs (Decidable (_ ∧ _))

instance (ctx : Context σ Key ν) (s : Session σ ν) (todo : List Instr) :
    Decidable (AuthorizedNext ctx s todo) := by
  rcases todo with _ | ⟨instr, rest⟩
  · exact isTrue trivial
  · cases instr <;> dsimp only [AuthorizedNext] <;> infer_instance

instance (ctx : Context σ Key ν) (s : State σ ν) (label : Label) :
    Decidable (Authorized ctx s label) :=
  match label with
  | .exec t => inferInstanceAs (Decidable (AuthorizedNext ctx s.session (s.todo t)))
  | .call _ (.setStatus status) =>
      inferInstanceAs (Decidable (inGame status = true → LoggedIn s.session))
  | .call _ (.send _ _ _) | .call _ (.queue _ _ _) | .call _ (.sendPackets _ _)
  | .call _ (.queuePackets _ _) | .call _ .sendQueued | .call _ (.disconnect _)
  | .call _ (.sendDisconnectStatus _) | .call _ .closeConnection | .call _ .scheduledClose
  | .call _ (.close _) | .call _ (.updateItemPalette _) | .call _ (.setCompressor _ _ _)
  | .receive _ | .undecodable | .wrongChecksum | .peerClosed | .reopened _ | .throwing _ =>
      isTrue trivial

/-! ## The invariant -/

/-- Instructions behind the gate. -/
def Instr.opens : Instr → Bool
  | .storeStatus nextStatus => inGame nextStatus
  | .emitJoin => true
  | .emitSpawn => true
  | _ => false

structure Guard (s : State σ ν) : Prop where
  gated : Gated s.session
  pending : ∀ t, ∀ i ∈ s.todo t, i.opens = true → LoggedIn s.session

variable {ctx : Context σ Key ν} {t : ℕ} {s s' : Session σ ν} {i : Instr} {instrs : List Instr}

theorem Critical.body_opens (critical : Critical) :
    (critical.body ++ [Instr.unlock]).any Instr.opens = false := by
  have hprocess (packets : List VersionedGamePacket) :
      (packets.map Instr.processOutboundPacket).any Instr.opens = false := by
    simp [List.any_map, Instr.opens, Function.comp_def]
  cases critical with
  | sendPacketsInternal path packets compression processOutbound =>
      cases processOutbound with
      | true => simp only [Critical.body, if_true, List.any_append, hprocess]; rfl
      | false => rfl
  | queuePackets packets compression =>
      simp only [Critical.body, List.any_append, hprocess]
      rfl
  | _ => rfl

theorem answerResourcePacks_opens {packet : VersionedGamePacket}
    (h : (answerResourcePacks ctx s packet).any Instr.opens = true) :
    s.resourcePackStackSent = true ∧ packet.payload.headD 0xff = 0x04 := by
  unfold answerResourcePacks at h
  extract_lets status at h
  split at h
  · cases h
  · rename_i hsent
    split at h
    · rename_i hdone
      refine ⟨?_, hdone⟩
      by_contra hnot
      exact hsent ⟨.inr hdone, by simpa using hnot⟩
    · cases h

theorem dispatchPacket_opens {packet : VersionedGamePacket}
    (h : dispatchPacket ctx s packet = .next s' instrs) (hopens : instrs.any Instr.opens = true) :
    opensGame ctx packet = true := by
  unfold dispatchPacket at h
  split at h
  · repeat' split at h
    all_goals cases h
    all_goals cases hopens
  · split at h
    · cases h
      split at hopens <;> cases hopens
    · split at h
      · rename_i hhandshake
        simp [opensGame, hhandshake]
      · split at h
        · rename_i hinitialized
          simp [opensGame, hinitialized]
        · split at h <;> cases h <;> cases hopens

/-- Only the packets of the condition lead past the gate. -/
theorem perform_opens (h : perform ctx t s i = .next s' instrs)
    (hopens : instrs.any Instr.opens = true) :
    (∃ packet, i = .handleBuiltInPacket packet ∧ opensGame ctx packet = true) ∨
    (∃ packet, i = .handleResourcePackClientResponse packet ∧ completesPacks s packet = true) := by
  cases i with
  | handleBuiltInPacket packet => exact .inl ⟨packet, rfl, dispatchPacket_opens h hopens⟩
  | handleResourcePackClientResponse packet =>
      refine .inr ⟨packet, rfl, ?_⟩
      cases h
      split at hopens
      · rename_i hattached
        obtain ⟨hsent, hdone⟩ := answerResourcePacks_opens hopens
        simp only [completesPacks, hattached, hsent, hdone, decide_true, Bool.and_self]
      · cases hopens
  | acquire critical =>
      simp only [perform] at h
      split at h
      · cases h
      · cases h
        rw [critical.body_opens] at hopens
        cases hopens
  | build path packets compression =>
      rcases buildPayload_next h with ⟨-, -, rfl⟩ | ⟨-, _, _, _, _, -, -, -, rfl⟩ | ⟨-, -, _, rfl⟩ <;>
        cases hopens
  | takeQueued =>
      simp only [perform] at h
      split at h
      · cases h
        cases hopens
      · cases h
        rw [List.any_map, List.any_eq_true] at hopens
        obtain ⟨batch, -, hbatch⟩ := hopens
        cases hbatch
  | verifyLogin login =>
      simp only [perform, verifyLoginData] at h
      repeat' split at h
      all_goals cases h
      all_goals cases hopens
  | installKeys verifiedLogin =>
      simp only [perform] at h
      split at h
      · obtain ⟨_, _, _, -, -, rfl⟩ := installSessionKeys_next h
        cases hopens
      · cases h
        cases hopens
  | _ =>
      simp only [perform] at h
      repeat' split at h
      all_goals cases h
      all_goals cases hopens

/-- An instruction ends in a state of the session, by going on or by throwing. -/
def EndsIn (ctx : Context σ Key ν) (t : ℕ) (s : Session σ ν) (i : Instr) (s' : Session σ ν) : Prop :=
  (∃ instrs, perform ctx t s i = .next s' instrs) ∨ perform ctx t s i = .throws s'

/-- What an instruction changes of status, events and login: nothing undoes a login,
and besides the instructions behind the gate only a disconnect changes the status. -/
theorem endsIn_cases (h : EndsIn ctx t s i s') :
    (LoggedIn s → LoggedIn s') ∧
    (inGame s'.status = true ∨ s'.events ≠ [] →
      i.opens = true ∨ inGame s.status = true ∨ s.events ≠ []) := by
  cases i with
  | build path packets compression =>
      rcases h with ⟨instrs, h⟩ | h
      · rcases buildPayload_next h with ⟨-, rfl, -⟩ | ⟨-, _, _, _, _, -, -, rfl, -⟩ | ⟨-, rfl, -⟩ <;>
          exact ⟨id, .inr⟩
      · rcases buildPayload_throws h with rfl | ⟨rfl, -⟩ <;> exact ⟨id, .inr⟩
  | installKeys verifiedLogin =>
      simp only [EndsIn, perform] at h
      split at h
      · rcases h with ⟨instrs, h⟩ | h
        · obtain ⟨_, _, _, -, rfl, -⟩ := installSessionKeys_next h
          exact ⟨id, .inr⟩
        · obtain ⟨_, _, _, rfl⟩ := installSessionKeys_throws h
          exact ⟨id, .inr⟩
      · rcases h with ⟨instrs, h⟩ | h <;> cases h
        exact ⟨id, .inr⟩
  | handleBuiltInPacket packet =>
      rcases h with ⟨instrs, h⟩ | h
      · obtain ⟨rfl, -⟩ := dispatchPacket_next h
        exact ⟨id, .inr⟩
      · simp only [perform, dispatchPacket] at h
        repeat' split at h
        all_goals cases h
        all_goals exact ⟨id, .inr⟩
  | verifyLogin login =>
      rcases h with ⟨instrs, h⟩ | h
      · obtain ⟨rfl, -⟩ := verifyLoginData_next h
        exact ⟨id, .inr⟩
      · simp only [perform, verifyLoginData] at h
        repeat' split at h
        all_goals cases h
  | startEncryption verifiedLogin =>
      rcases h with ⟨instrs, h⟩ | h <;> cases h
      exact ⟨fun hin ↦ ⟨hin.1, rfl⟩, .inr⟩
  | storeLogin verifiedLogin =>
      rcases h with ⟨instrs, h⟩ | h <;> cases h
      exact ⟨fun hin ↦ ⟨rfl, hin.2⟩, .inr⟩
  | storeStatus nextStatus =>
      simp only [EndsIn, perform] at h
      split at h <;> rcases h with ⟨instrs, h⟩ | h <;> cases h
      · exact ⟨id, fun hopen ↦ hopen.imp id .inr⟩
      · exact ⟨id, .inr⟩
  | markDisconnected =>
      simp only [EndsIn, perform] at h
      split at h <;> rcases h with ⟨instrs, h⟩ | h <;> cases h
      · exact ⟨id, fun hopen ↦ .inr (.inr (hopen.resolve_left Bool.false_ne_true))⟩
      · exact ⟨id, .inr⟩
  | emitJoin | emitSpawn =>
      rcases h with ⟨instrs, h⟩ | h <;> cases h
      exact ⟨id, fun _ ↦ .inl rfl⟩
  | _ =>
      rcases h with ⟨instrs, h⟩ | h
      all_goals
        simp only [perform] at h
        repeat' split at h
      all_goals cases h
      all_goals exact ⟨id, .inr⟩

/-! ## Steps and runs -/

theorem Guard.exec {s : State σ ν} {session : Session σ ν} {rest todo : List Instr}
    (h : Guard s) (htodo : s.todo t = i :: rest) (hends : EndsIn ctx t s.session i session)
    (hnew : ∀ j ∈ todo, j.opens = true → j ∈ rest ∨ LoggedIn s.session) :
    Guard (State.setTodo { s with session } t todo) := by
  obtain ⟨hkeep, hopen⟩ := endsIn_cases hends
  refine ⟨fun hout ↦ hkeep ?_, fun u j hj hopens ↦ hkeep ?_⟩
  · rcases hopen hout with hopens | hbefore
    · exact h.pending t i (by simp [htodo]) hopens
    · exact h.gated hbefore
  · by_cases hu : u = t
    · subst hu
      have hj : j ∈ todo := by simpa [State.setTodo] using hj
      rcases hnew j hj hopens with hrest | hin
      · exact h.pending u j (by simp [htodo, hrest]) hopens
      · exact hin
    · have hj : j ∈ s.todo u := by simpa [State.setTodo, hu] using hj
      exact h.pending u j hj hopens

theorem Guard.setTodo {s : State σ ν} {todo : List Instr} (h : Guard s)
    (hnew : ∀ j ∈ todo, j.opens = true → j ∈ s.todo t ∨ LoggedIn s.session) :
    Guard (s.setTodo t todo) := by
  refine ⟨h.gated, fun u j hj hopens ↦ ?_⟩
  by_cases hu : u = t
  · subst hu
    have hj : j ∈ todo := by simpa [State.setTodo] using hj
    exact (hnew j hj hopens).elim (fun hold ↦ h.pending u j hold hopens) id
  · have hj : j ∈ s.todo u := by simpa [State.setTodo, hu] using hj
    exact h.pending u j hj hopens

theorem Call.body_opens {call : Call} (h : call.body.any Instr.opens = true) :
    ∃ status, call = .setStatus status ∧ inGame status = true := by
  cases call with
  | setStatus status =>
      refine ⟨status, rfl, ?_⟩
      simpa [Call.body, transitionStatus, Instr.opens] using h
  | sendPackets packets compression =>
      simp only [Call.body, BedrockServer.sendPackets] at h
      split at h <;> cases h
  | queuePackets packets compression =>
      simp only [Call.body, BedrockServer.queuePackets] at h
      split at h <;> cases h
  | _ => cases h

theorem guard_step {s : State σ ν} (h : Guard s) {label : Label} (hauth : Authorized ctx s label) :
    Guard (step ctx s label) := by
  have hclosed {todo : List Instr} (hnone : todo.any Instr.opens = false) {j : Instr} (hj : j ∈ todo)
      (hopens : j.opens = true) : False := by
    have hany : todo.any Instr.opens = true := List.any_eq_true.mpr ⟨j, hj, hopens⟩
    rw [hnone] at hany
    cases hany
  cases label with
  | receive packet | undecodable | wrongChecksum | peerClosed =>
      simp only [step]
      split
      · exact h.setTodo fun j hj hopens ↦ (hclosed rfl hj hopens).elim
      · exact h
  | reopened writable => exact ⟨h.gated, h.pending⟩
  | call t call =>
      simp only [step]
      split
      · refine h.setTodo fun j hj hopens ↦ ?_
        rcases List.mem_append.mp hj with hj | hj
        · obtain ⟨status, rfl, hgame⟩ := Call.body_opens (List.any_eq_true.mpr ⟨j, hj, hopens⟩)
          exact .inr (hauth hgame)
        · exact .inl hj
      · exact h
  | exec t =>
      simp only [step]
      split
      · exact h
      · rename_i i rest htodo
        split
        · exact h
        · rename_i session instrs hperform
          refine h.exec htodo (.inl ⟨instrs, hperform⟩) fun j hj hopens ↦ ?_
          rcases List.mem_append.mp hj with hj | hj
          · right
            simp only [Authorized, htodo] at hauth
            rcases perform_opens hperform (List.any_eq_true.mpr ⟨j, hj, hopens⟩) with
              ⟨packet, rfl, hgame⟩ | ⟨packet, rfl, hpacks⟩
            · exact hauth hgame
            · exact hauth hpacks
          · exact .inl hj
        · rename_i session hperform
          refine h.exec htodo (.inr hperform) fun j hj _ ↦ .inl ?_
          exact (unwind_sublist rest).subset hj
  | throwing t =>
      simp only [step]
      split
      · rename_i rest htodo
        refine h.setTodo fun j hj _ ↦ .inl ?_
        rw [htodo]
        exact List.mem_cons_of_mem _ ((unwind_sublist rest).subset hj)
      · exact h

theorem guard_opened (compressor : CompressorOptions) (protoDefVariables : ν) :
    Guard (opened compressor protoDefVariables : State σ ν) := by
  refine ⟨?_, fun t j hj hopens ↦ ?_⟩
  · rintro (hgame | hevents)
    · cases hgame
    · exact absurd rfl hevents
  · by_cases ht : t = worker
    · subst ht
      obtain rfl : j = .listeners := by simpa [opened] using hj
      cases hopens
    · simp [opened, ht] at hj

/-- In every state that an authorized run reaches, a player that joined, spawned or
is initializing or initialized is logged in. -/
theorem gated_of_authorized (ctx : Context σ Key ν) (compressor : CompressorOptions)
    (protoDefVariables : ν) (labels : List Label)
    (hauthorized : AllSteps (step ctx) (Authorized ctx) (opened compressor protoDefVariables)
      labels) :
    Gated (run (step ctx) (opened compressor protoDefVariables) labels).session := by
  have hstep (s : State σ ν) (label : Label) (h : Guard s) (hauth : Authorized ctx s label) :
      Guard (step ctx s label) := guard_step h hauth
  exact (invariant_run hstep (guard_opened compressor protoDefVariables) hauthorized).gated

end Gate

/-! ## A client that says it is initialized -/

/-- `set_local_player_as_initialized` of the player with runtime id 1. -/
def initializedPacket : VersionedGamePacket := inbound 113 [1]

def spawningFirst : List Label := .exec worker :: handling initializedPacket 7

/-- The server logs players in by itself and its version has the handshake; still the
first packet of a session is enough to spawn. -/
theorem spawning_first_not_gated :
    sampleContext.options.autoLogin = true ∧
      sampleContext.hasPacket "server_to_client_handshake" = true ∧
      (run (step sampleContext) sampleSession spawningFirst).session.events = [.spawn] ∧
      ¬ Gated (run (step sampleContext) sampleSession spawningFirst).session := by
  have hevents : (run (step sampleContext) sampleSession spawningFirst).session.events =
      [.spawn] := by decide +kernel
  have hlogin : ¬ LoggedIn (run (step sampleContext) sampleSession spawningFirst).session := by
    decide +kernel
  exact ⟨rfl, rfl, hevents, fun hgated ↦ hlogin (hgated (.inr (by simp [hevents])))⟩

/-- A client that logs in, answers the handshake and then says it is initialized. -/
def spawningAfterLogin : List Label :=
  .exec worker :: handling requestPacket 6 ++ handling loginPacket 23 ++
    handling (inbound 4 []) 18 ++ handling initializedPacket 7

theorem gated_of_authorized_spawningAfterLogin :
    (run (step sampleContext) sampleSession spawningAfterLogin).session.events = [.join, .spawn] ∧
      Gated (run (step sampleContext) sampleSession spawningAfterLogin).session :=
  ⟨by decide +kernel,
    gated_of_authorized sampleContext sampleCompressor () spawningAfterLogin (by decide +kernel)⟩

end BedrockProtocol.BedrockServer
