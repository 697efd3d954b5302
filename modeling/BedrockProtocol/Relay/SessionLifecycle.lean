import BedrockProtocol.Relay.BedrockLiveRelay

/-!
# The end of a session

Whatever the threads do, a session that is closing stays so, with nothing left to
deliver, and the reset that ended it was the only final one.
-/

namespace BedrockProtocol.BedrockLiveRelay

variable {options : BedrockLiveRelayOptions} {s s' : Relay}

/-- Nothing waits to be delivered. -/
structure Session.NothingPending (session : Session) : Prop where
  serverbound : session.pendingServerbound = []
  postSpawnServerbound : session.pendingPostSpawnServerbound = []
  clientbound : session.pendingClientbound = []
  levelChunks : session.heldClientboundLevelChunks = []

/-- What an instruction does to the lifecycle: nothing, and only a session that
accepts packets has more to deliver, or a part of a reset. -/
inductive Moves (s s' : Relay) : Prop
  | stays (lifecycle : s'.session.lifecycle = s.session.lifecycle)
      (count : s'.finalSessionResetCount = s.finalSessionResetCount)
      (pending : s.session.acceptsPackets = false → s.session.NothingPending →
        s'.session.NothingPending)
  | resets (retainDownstream : Bool)
      (session : s.session.reset retainDownstream = some s'.session)
      (count : s'.finalSessionResetCount =
        if retainDownstream then s.finalSessionResetCount else s.finalSessionResetCount + 1)
  | finishes (retainDownstream : Bool) (upstream : Option ℕ)
      (session : s'.session = s.session.finishReset retainDownstream upstream)
      (count : s'.finalSessionResetCount = s.finalSessionResetCount)

theorem Moves.of_session_eq (hsession : s'.session = s.session)
    (hcount : s'.finalSessionResetCount = s.finalSessionResetCount) : Moves s s' :=
  .stays (by rw [hsession]) hcount fun _ hnothing ↦ by rwa [hsession]

theorem routeClientbound_eq_of_not_accepts {session : Session} {now : ℤ}
    {packet : VersionedGamePacket} (h : session.acceptsPackets = false) :
    session.routeClientbound options now packet = (session, none) := by
  simp [Session.routeClientbound, h]

theorem lifecycle_routeClientbound (session : Session) (now : ℤ) (packet : VersionedGamePacket) :
    (session.routeClientbound options now packet).1.lifecycle = session.lifecycle := by
  unfold Session.routeClientbound
  split
  · rfl
  split
  · rfl
  split
  · rfl
  dsimp only
  split
  · split <;> rfl
  · split <;> rfl

/-- Only the session changes, and not its lifecycle. -/
theorem Moves.of_lifecycle_eq {session : Session}
    (hlifecycle : session.lifecycle = s.session.lifecycle)
    (hpending : s.session.acceptsPackets = false → s.session.NothingPending →
      session.NothingPending) : Moves s { s with session } :=
  .stays hlifecycle rfl hpending

section Instructions

variable {answer : Answer} {t : ℕ} {instrs : List Instr}

theorem moves_upstreamClosed {upstream : ℕ}
    (h : perform options answer t s (.upstreamClosed upstream) = some (s', instrs)) : Moves s s' := by
  simp only [perform] at h
  split at h
  · cases h
    refine .of_lifecycle_eq ?_ fun haccepts hnothing ↦ ?_
    · split <;> rfl
    · split
      · exact ⟨hnothing.1, hnothing.2, hnothing.3, hnothing.4⟩
      · exact ⟨hnothing.1, hnothing.2, hnothing.3, hnothing.4⟩
  · cases h
    refine .of_lifecycle_eq ?_ fun haccepts hnothing ↦ ?_
    · split <;> rfl
    · split
      · exact ⟨hnothing.1, hnothing.2, hnothing.3, hnothing.4⟩
      · exact hnothing

theorem moves_candidates {packets : List VersionedGamePacket}
    (h : perform options answer t s (.candidates packets) = some (s', instrs)) : Moves s s' := by
  cases packets with
  | nil =>
      cases h
      exact .of_session_eq rfl rfl
  | cons packet packets =>
      simp only [perform] at h
      split at h
      · cases h
        exact .of_session_eq rfl rfl
      split at h
      · split at h
        · cases h
          exact .of_session_eq rfl rfl
        rename_i haccepts
        split at h
        · cases h
          exact .of_lifecycle_eq rfl fun hnot _ ↦ by simp [hnot] at haccepts
        · cases h
          exact .of_session_eq rfl rfl
      · cases h
        exact .of_session_eq rfl rfl

theorem moves_forwardServerbound {packet : VersionedGamePacket} {immediate : Bool}
    (h : perform options answer t s (.forwardServerbound packet immediate) = some (s', instrs)) :
    Moves s s' := by
  simp only [perform] at h
  split at h
  · cases h
    exact .of_session_eq rfl rfl
  rename_i haccepts
  split at h
  · cases h
    exact .of_lifecycle_eq rfl fun hnot _ ↦ by simp [hnot] at haccepts
  · cases h
    exact .of_session_eq rfl rfl

end Instructions

theorem perform_moves {answer : Answer} {t : ℕ} {instr : Instr} {instrs : List Instr}
    (h : perform options answer t s instr = some (s', instrs)) : Moves s s' := by
  cases instr with
  | lockDispatch =>
      simp only [perform] at h
      obtain ⟨mutex, -, hs⟩ := Option.map_eq_some_iff.mp h
      cases hs
      exact .of_session_eq rfl rfl
  | reset retainDownstream =>
      simp only [perform] at h
      split at h
      · cases h
        exact .of_session_eq rfl rfl
      · rename_i session hreset
        cases h
        exact .resets retainDownstream hreset rfl
  | finishReset retainDownstream upstream =>
      cases h
      exact .finishes retainDownstream upstream rfl rfl
  | login | closeUpstreamPhase =>
      cases h
      exact .of_lifecycle_eq rfl fun _ hnothing ↦ ⟨hnothing.1, hnothing.2, hnothing.3, hnothing.4⟩
  | startUpstream | keepUpstreamOptions | publishUpstream | upstreamError =>
      simp only [perform] at h
      split at h
      · cases h
        exact .stays rfl rfl fun _ hnothing ↦ ⟨hnothing.1, hnothing.2, hnothing.3, hnothing.4⟩
      · cases h
        exact .stays rfl rfl fun _ hnothing ↦ ⟨hnothing.1, hnothing.2, hnothing.3, hnothing.4⟩
  | realmFailed =>
      cases h
      dsimp only
      split
      · exact .of_lifecycle_eq rfl fun _ hnothing ↦ ⟨hnothing.1, hnothing.2, hnothing.3, hnothing.4⟩
      · exact .of_session_eq rfl rfl
  | upstreamClosed upstream => exact moves_upstreamClosed h
  | deliver direction packet packets =>
      cases direction
      · cases h
        exact .of_session_eq rfl rfl
      · cases h
        exact .of_session_eq rfl rfl
  | writeCacheStatus upstream =>
      simp only [perform] at h
      split at h
      · cases h
        exact .of_session_eq rfl rfl
      · cases h
        exact .of_session_eq rfl rfl
  | flushServerbound upstream =>
      simp only [perform] at h
      split at h
      · rename_i hactive
        cases h
        exact .of_lifecycle_eq rfl fun hnot _ ↦ by simp [hnot] at hactive
      · cases h
        exact .of_session_eq rfl rfl
  | candidates packets => exact moves_candidates h
  | parkServerbound packet =>
      cases h
      dsimp only
      split
      · rename_i haccepts
        exact .of_lifecycle_eq rfl fun hnot _ ↦ by simp [hnot] at haccepts
      · exact .of_session_eq rfl rfl
  | forwardServerbound packet immediate => exact moves_forwardServerbound h
  | playerSpawned | handleDownstreamJoin =>
      simp only [perform] at h
      split at h
      · cases h
        exact .of_session_eq rfl rfl
      rename_i haccepts
      cases h
      exact .of_lifecycle_eq rfl fun hnot _ ↦ by simp [hnot] at haccepts
  | flushClientbound =>
      cases h
      exact .of_lifecycle_eq rfl fun _ hnothing ↦ ⟨hnothing.1, hnothing.2, rfl, hnothing.4⟩
  | forwardClientbound packet =>
      simp only [perform, Option.some.injEq, Prod.mk.injEq] at h
      obtain ⟨rfl, -⟩ := h
      refine .of_lifecycle_eq (lifecycle_routeClientbound _ _ _) fun hnot hnothing ↦ ?_
      rwa [routeClientbound_eq_of_not_accepts hnot]
  | queuePacket packet heldChunks =>
      simp only [perform] at h
      split at h
      · cases h
        exact .of_session_eq rfl rfl
      · cases h
        exact .of_session_eq rfl rfl
  | _ =>
      cases h
      exact .of_session_eq rfl rfl

/-- The invariant: a session that is closing has nothing to deliver and was
counted, any other one was not. -/
structure Ended (s : Relay) : Prop where
  nothing : s.session.isClosing → s.session.NothingPending
  count : s.finalSessionResetCount = if s.session.isClosing then 1 else 0

theorem Session.reset_eq_some {session session' : Session} {retainDownstream : Bool}
    (h : session.reset retainDownstream = some session') :
    session.isClosing = false ∧ session'.NothingPending ∧
      session'.isClosing = !retainDownstream := by
  unfold Session.reset at h
  cases retainDownstream with
  | false =>
      simp only [Bool.false_eq_true, ↓reduceIte] at h
      split at h
      · cases h
      · rename_i hnot
        cases h
        exact ⟨by simpa using hnot, ⟨rfl, rfl, rfl, rfl⟩, rfl⟩
  | true =>
      simp only [↓reduceIte] at h
      split at h
      · cases h
      · rename_i hopened
        cases h
        rw [not_ne_iff] at hopened
        exact ⟨by simp [Session.isClosing, hopened], ⟨rfl, rfl, rfl, rfl⟩, rfl⟩

theorem Session.isClosing_finishReset (session : Session) (retainDownstream : Bool)
    (upstream : Option ℕ) :
    (session.finishReset retainDownstream upstream).isClosing = session.isClosing := by
  unfold Session.finishReset Session.isClosing
  cases hlifecycle : session.lifecycle <;> cases retainDownstream <;>
    by_cases hsame : session.upstream = upstream <;> simp [hsame, hlifecycle]

theorem Session.NothingPending.finishReset {session : Session} (h : session.NothingPending)
    (retainDownstream : Bool) (upstream : Option ℕ) :
    (session.finishReset retainDownstream upstream).NothingPending := by
  obtain ⟨h₁, h₂, h₃, h₄⟩ := h
  unfold Session.finishReset
  dsimp only
  by_cases hsame : session.upstream = upstream
  · rw [if_pos hsame]
    split_ifs <;> exact ⟨h₁, h₂, h₃, h₄⟩
  · rw [if_neg hsame]
    split_ifs <;> exact ⟨h₁, h₂, h₃, h₄⟩

theorem Session.not_accepts_of_isClosing {session : Session} (h : session.isClosing) :
    session.acceptsPackets = false := by
  cases hlifecycle : session.lifecycle <;>
    simp [Session.isClosing, Session.acceptsPackets, hlifecycle] at h ⊢

namespace Moves

theorem isClosing (h : Moves s s') (hclosing : s.session.isClosing) : s'.session.isClosing := by
  cases h with
  | stays lifecycle count pending => simpa [Session.isClosing, lifecycle] using hclosing
  | resets retainDownstream session count =>
      rw [(Session.reset_eq_some session).1] at hclosing
      cases hclosing
  | finishes retainDownstream upstream session count =>
      rwa [session, Session.isClosing_finishReset]

theorem ended (h : Moves s s') (hended : Ended s) : Ended s' := by
  cases h with
  | stays lifecycle count pending =>
      have hsame : s'.session.isClosing = s.session.isClosing := by
        rw [Session.isClosing, Session.isClosing, lifecycle]
      refine ⟨fun hclosing ↦ ?_, by rw [count, hsame, hended.count]⟩
      rw [hsame] at hclosing
      exact pending (Session.not_accepts_of_isClosing hclosing) (hended.nothing hclosing)
  | resets retainDownstream session count =>
      obtain ⟨hbefore, hnothing, hafter⟩ := Session.reset_eq_some session
      refine ⟨fun _ ↦ hnothing, ?_⟩
      rw [count, hended.count, hbefore, hafter]
      cases retainDownstream <;> rfl
  | finishes retainDownstream upstream session count =>
      have hsame : s'.session.isClosing = s.session.isClosing := by
        rw [session, Session.isClosing_finishReset]
      refine ⟨fun hclosing ↦ ?_, by rw [count, hsame, hended.count]⟩
      rw [hsame] at hclosing
      rw [session]
      exact (hended.nothing hclosing).finishReset _ _

end Moves

/-- A label runs at most one instruction. -/
theorem step_shared (s : State) (label : Label) :
    (step options s label).shared = s.shared ∨ Moves s.shared (step options s label).shared := by
  cases label with
  | call t call =>
      unfold step
      dsimp only
      split <;> exact .inl rfl
  | exec t answer =>
      rcases htodo : s.todo t with _ | ⟨instr, rest⟩
      · exact .inl (by simp only [step, Threads.exec, htodo])
      · cases hperform : perform options answer t s.shared instr with
        | none => exact .inl (by simp only [step, Threads.exec, htodo, hperform])
        | some result =>
            refine .inr ?_
            simp only [step, Threads.exec, htodo, hperform, Threads.resume_shared]
            exact perform_moves hperform
  | throwing t =>
      unfold step
      dsimp only
      split <;> exact .inl rfl

theorem Ended.step {s : State} (h : Ended s.shared) (label : Label) :
    Ended (step options s label).shared := by
  rcases @step_shared options s label with hsame | hmoves
  · rwa [hsame]
  · exact hmoves.ended h

theorem ended_run (labels : List Label) :
    Ended (run (BedrockLiveRelay.step options) connected labels).shared :=
  @invariant_always State Label _ (fun s ↦ Ended s.shared) (fun _ label h ↦ h.step label) _
    ⟨fun hclosing ↦ absurd hclosing (by decide), rfl⟩ labels

theorem isClosing_run {s : State} (h : s.shared.session.isClosing) (labels : List Label) :
    (run (step options) s labels).shared.session.isClosing := by
  refine @invariant_always State Label _ (fun s ↦ s.shared.session.isClosing = true) ?_ _ h labels
  intro s label hclosing
  rcases @step_shared options s label with hsame | hmoves
  · rwa [hsame]
  · exact hmoves.isClosing hclosing

/-- A session that was ended is never opened or reset again, was ended once, and
has no packets to deliver. -/
theorem closing_is_final (options : BedrockLiveRelayOptions) (labels : List Label) :
    let s := (run (step options) connected labels).shared
    s.finalSessionResetCount ≤ 1 ∧
      (s.session.lifecycle = .closing ∨ s.session.lifecycle = .closed →
        s.session.pendingServerbound = [] ∧ s.session.pendingPostSpawnServerbound = [] ∧
          s.session.pendingClientbound = [] ∧ s.session.heldClientboundLevelChunks = [] ∧
          ∀ later,
            let s' := (run (step options) connected (labels ++ later)).shared
            s'.session.lifecycle ≠ .opened ∧ s'.session.lifecycle ≠ .resetting) := by
  intro s
  have hended := @ended_run options labels
  refine ⟨?_, fun hlifecycle ↦ ?_⟩
  · rw [hended.count]
    split <;> omega
  · have hclosing : s.session.isClosing = true := by simpa [Session.isClosing] using hlifecycle
    obtain ⟨h₁, h₂, h₃, h₄⟩ := hended.nothing hclosing
    refine ⟨h₁, h₂, h₃, h₄, fun later ↦ ?_⟩
    have hfinal := @isClosing_run options _ hclosing later
    rw [← run_append, Session.isClosing, decide_eq_true_iff] at hfinal
    constructor
    · intro hopened
      simp [hopened] at hfinal
    · intro hresetting
      simp [hresetting] at hfinal

end BedrockProtocol.BedrockLiveRelay
