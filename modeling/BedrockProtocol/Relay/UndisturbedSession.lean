import BedrockProtocol.Relay.SessionLifecycle

/-!
# Undisturbed sessions

While a session stays open, one thread brings the packets of the player and its
join, and another one those of the upstream client and its join.
-/

namespace BedrockProtocol.BedrockLiveRelay

variable {options : BedrockLiveRelayOptions}

def downstreamWorker : ℕ := 0

def upstreamWorker : ℕ := 1

/-- The client that the login of the player starts. -/
def onlyUpstream : ℕ := 0

/-- The session after that. -/
def loggedIn (options : BedrockLiveRelayOptions) : State :=
  run (step options) connected
    (.call downstreamWorker .login :: List.replicate 8 (.exec downstreamWorker {}))

/-- What the threads run. -/
def Instr.ordinary (t : ℕ) : Instr → Bool
  | .application | .lockDispatch | .unlockDispatch | .forwardServerbound _ _
  | .forwardClientbound _ | .queuePacket _ _ | .queuePackets _ => true
  | .sendUpstream upstream _ _ => upstream = onlyUpstream
  | .findSession (.handleDownstreamPacket _) | .handleDownstreamPacket _
  | .enterHandlers .serverbound _ | .handlers .serverbound _ | .leaveHandlers .serverbound _ _
  | .deliver .serverbound _ _ | .candidates _ | .routeServerbound _ _ | .parkServerbound _
  | .handleDownstreamJoin | .flushClientbound => t = downstreamWorker
  | .upstreamJoin upstream | .writeCacheStatus upstream | .flushServerbound upstream
  | .finishUpstreamJoin upstream | .upstreamPacket upstream _ =>
      t = upstreamWorker ∧ upstream = onlyUpstream
  | .handleUpstreamPacket _ | .enterHandlers .clientbound _ | .handlers .clientbound _
  | .leaveHandlers .clientbound _ _ | .deliver .clientbound _ _ | .playerSpawned =>
      t = upstreamWorker
  | _ => false

structure Undisturbed (s : State) : Prop where
  opened : s.shared.session.lifecycle = .opened
  upstream : s.shared.session.upstream = some onlyUpstream
  registered : s.shared.registered = true
  ordinary : ∀ t, ∀ instr ∈ s.todo t, instr.ordinary t
  workers : ∀ t, t ≠ downstreamWorker → t ≠ upstreamWorker → s.todo t = []

/-- The two threads bring joins and packets, and the handlers keep the packets. -/
def arrives (s : State) : Label → Bool
  | .call t .downstreamJoin | .call t (.downstreamPacket _) =>
      t = downstreamWorker ∧ s.todo t = []
  | .call t (.upstreamJoin upstream) | .call t (.upstreamPacket upstream _) =>
      t = upstreamWorker ∧ upstream = onlyUpstream ∧ s.todo t = []
  | .exec t answer =>
      match s.todo t with
      | .handlers _ packet :: _ => answer.packets = [packet]
      | _ => true
  | _ => false

theorem loggedIn_shared (options : BedrockLiveRelayOptions) :
    (loggedIn options).shared =
      { session := { upstream := some onlyUpstream, upstreamPhase := .negotiating }
        clients := 1 } := by
  rfl

theorem loggedIn_todo (options : BedrockLiveRelayOptions) (t : ℕ) :
    (loggedIn options).todo t = [] := by
  by_cases ht : t = downstreamWorker
  · subst ht
    rfl
  · have hexec (s : State) : (s.exec (perform options {}) downstreamWorker).todo t = s.todo t :=
      Threads.exec_todo_of_ne ht
    simp only [loggedIn, run, List.replicate, List.foldl_cons, List.foldl_nil, step, hexec]
    rw [if_pos (by rfl), Threads.call_todo_of_ne _ ht]
    rfl

theorem ordinary_forwardServerboundCall (t : ℕ) (immediate : Bool) (packet : VersionedGamePacket) :
    ∀ instr ∈ forwardServerboundCall immediate packet, instr.ordinary t := by
  simp [forwardServerboundCall, Instr.ordinary]

theorem ordinary_forwardClientboundCall (t : ℕ) (packet : VersionedGamePacket) :
    ∀ instr ∈ forwardClientboundCall packet, instr.ordinary t := by
  simp [forwardClientboundCall, Instr.ordinary]

theorem ordinary_flatMap {t : ℕ} {packets : List VersionedGamePacket}
    {f : VersionedGamePacket → List Instr} (h : ∀ packet, ∀ instr ∈ f packet, instr.ordinary t) :
    ∀ instr ∈ packets.flatMap f, instr.ordinary t := by
  intro instr hinstr
  obtain ⟨packet, -, hinstr⟩ := List.mem_flatMap.mp hinstr
  exact h packet instr hinstr

theorem upstream_routeClientbound (session : Session) (now : ℤ) (packet : VersionedGamePacket) :
    (session.routeClientbound options now packet).1.upstream = session.upstream := by
  unfold Session.routeClientbound
  dsimp only
  split_ifs <;> rfl

structure StaysOpen (s s' : Relay) : Prop where
  lifecycle : s'.session.lifecycle = s.session.lifecycle
  upstream : s'.session.upstream = s.session.upstream
  registered : s'.registered = s.registered

section Instructions

variable {answer : Answer} {t : ℕ} {s s' : Relay} {instrs : List Instr}

theorem ordinary_flushServerbound {upstream : ℕ}
    (hordinary : (Instr.flushServerbound upstream).ordinary t)
    (h : perform options answer t s (.flushServerbound upstream) = some (s', instrs)) :
    (∀ i ∈ instrs, i.ordinary t) ∧ StaysOpen s s' := by
  simp only [perform] at h
  split at h
  · cases h
    refine ⟨List.forall_mem_append.mpr ⟨?_, ?_⟩, ⟨rfl, rfl, rfl⟩⟩
    · exact ordinary_flatMap (ordinary_forwardServerboundCall t true)
    · simpa [Instr.ordinary] using hordinary
  · cases h
    exact ⟨by simp, ⟨rfl, rfl, rfl⟩⟩

theorem ordinary_deliver {direction : BedrockRelayDirection} {packet : VersionedGamePacket}
    {packets : List VersionedGamePacket}
    (hordinary : (Instr.deliver direction packet packets).ordinary t)
    (h : perform options answer t s (.deliver direction packet packets) = some (s', instrs)) :
    (∀ i ∈ instrs, i.ordinary t) ∧ StaysOpen s s' := by
  cases direction with
  | clientbound =>
      cases h
      refine ⟨List.forall_mem_append.mpr ⟨?_, ?_⟩, ⟨rfl, rfl, rfl⟩⟩
      · exact ordinary_flatMap (ordinary_forwardClientboundCall t)
      · split
        · simpa [Instr.ordinary] using hordinary
        · simp
  | serverbound =>
      cases h
      exact ⟨by simpa [Instr.ordinary] using hordinary, ⟨rfl, rfl, rfl⟩⟩

theorem ordinary_candidates {packets : List VersionedGamePacket}
    (hordinary : (Instr.candidates packets).ordinary t)
    (h : perform options answer t s (.candidates packets) = some (s', instrs)) :
    (∀ i ∈ instrs, i.ordinary t) ∧ StaysOpen s s' := by
  cases packets with
  | nil =>
      cases h
      exact ⟨by simp, ⟨rfl, rfl, rfl⟩⟩
  | cons packet packets =>
      simp only [perform] at h
      split at h
      · cases h
        refine ⟨?_, ⟨rfl, rfl, rfl⟩⟩
        split <;> simpa [forwardServerboundCall, Instr.ordinary] using hordinary
      split at h
      · split at h
        · cases h
          exact ⟨by simp, ⟨rfl, rfl, rfl⟩⟩
        split at h
        · cases h
          exact ⟨by simpa [Instr.ordinary] using hordinary, ⟨rfl, rfl, rfl⟩⟩
        · cases h
          exact ⟨by simpa [Instr.ordinary] using hordinary, ⟨rfl, rfl, rfl⟩⟩
      · cases h
        exact ⟨by simpa [Instr.ordinary] using hordinary, ⟨rfl, rfl, rfl⟩⟩

theorem ordinary_forwardServerbound {packet : VersionedGamePacket} {immediate : Bool}
    (hupstream : s.session.upstream = some onlyUpstream)
    (h : perform options answer t s (.forwardServerbound packet immediate) = some (s', instrs)) :
    (∀ i ∈ instrs, i.ordinary t) ∧ StaysOpen s s' := by
  simp only [perform] at h
  split at h
  · cases h
    exact ⟨by simp, ⟨rfl, rfl, rfl⟩⟩
  split at h
  · cases h
    exact ⟨by simp, ⟨rfl, rfl, rfl⟩⟩
  · rename_i upstream hfilter
    cases h
    rw [hupstream] at hfilter
    obtain ⟨hsome, -⟩ := Option.filter_eq_some_iff.mp hfilter
    exact ⟨by simp [Instr.ordinary, Option.some.inj hsome], ⟨rfl, rfl, rfl⟩⟩

end Instructions

/-- An ordinary instruction is followed by ordinary ones. -/
theorem perform_ordinary {answer : Answer} {t : ℕ} {s s' : Relay} {instr : Instr}
    {instrs : List Instr} (hordinary : instr.ordinary t)
    (hupstream : s.session.upstream = some onlyUpstream)
    (h : perform options answer t s instr = some (s', instrs)) :
    (∀ i ∈ instrs, i.ordinary t) ∧ StaysOpen s s' := by
  cases instr with
  | findSession found =>
      cases found with
      | handleDownstreamPacket packet =>
          cases h
          refine ⟨?_, ⟨rfl, rfl, rfl⟩⟩
          split
          · simpa [Instr.ordinary] using hordinary
          · simp
      | _ => simp [Instr.ordinary] at hordinary
  | lockDispatch =>
      simp only [perform] at h
      obtain ⟨mutex, -, hs⟩ := Option.map_eq_some_iff.mp h
      cases hs
      exact ⟨by simp, ⟨rfl, rfl, rfl⟩⟩
  | parkServerbound packet =>
      cases h
      refine ⟨by simp, ?_⟩
      dsimp only
      split <;> exact ⟨rfl, rfl, rfl⟩
  | application | unlockDispatch | sendUpstream | queuePackets =>
      cases h
      exact ⟨by simp, ⟨rfl, rfl, rfl⟩⟩
  | upstreamJoin | finishUpstreamJoin | upstreamPacket | handleUpstreamPacket
  | handleDownstreamPacket =>
      cases h
      refine ⟨?_, ⟨rfl, rfl, rfl⟩⟩
      split <;> simp_all [applyHandlersCall, Instr.ordinary]
  | enterHandlers direction | handlers direction | leaveHandlers direction =>
      cases h
      refine ⟨?_, ⟨rfl, rfl, rfl⟩⟩
      cases direction <;> (try split) <;> simp_all [Instr.ordinary]
  | writeCacheStatus upstream =>
      simp only [perform] at h
      split at h
      · cases h
        exact ⟨by simp [Instr.ordinary], ⟨rfl, rfl, rfl⟩⟩
      · cases h
        exact ⟨by simp, ⟨rfl, rfl, rfl⟩⟩
  | flushServerbound upstream => exact ordinary_flushServerbound hordinary h
  | deliver direction packet packets => exact ordinary_deliver hordinary h
  | candidates packets => exact ordinary_candidates hordinary h
  | routeServerbound packet packets =>
      cases h
      refine ⟨?_, ⟨rfl, rfl, rfl⟩⟩
      split
      · simp
      · split <;> simpa [forwardServerboundCall, Instr.ordinary] using hordinary
  | forwardServerbound packet immediate => exact ordinary_forwardServerbound hupstream h
  | playerSpawned =>
      simp only [perform] at h
      split at h
      · cases h
        exact ⟨by simp, ⟨rfl, rfl, rfl⟩⟩
      · cases h
        exact ⟨ordinary_flatMap (ordinary_forwardServerboundCall t false), ⟨rfl, rfl, rfl⟩⟩
  | handleDownstreamJoin =>
      simp only [perform] at h
      split at h
      · cases h
        exact ⟨by simp, ⟨rfl, rfl, rfl⟩⟩
      · cases h
        exact ⟨by simpa [Instr.ordinary] using hordinary, ⟨rfl, rfl, rfl⟩⟩
  | flushClientbound =>
      cases h
      exact ⟨ordinary_flatMap (ordinary_forwardClientboundCall t), ⟨rfl, rfl, rfl⟩⟩
  | forwardClientbound packet =>
      simp only [perform, Option.some.injEq, Prod.mk.injEq] at h
      obtain ⟨rfl, rfl⟩ := h
      refine ⟨?_, lifecycle_routeClientbound _ _ _, upstream_routeClientbound _ _ _, rfl⟩
      cases (s.session.routeClientbound options answer.now packet).2 <;> simp [Instr.ordinary]
  | queuePacket packet heldChunks =>
      simp only [perform] at h
      split at h
      · cases h
        refine ⟨?_, ⟨rfl, rfl, rfl⟩⟩
        split <;> simp [Instr.ordinary]
      · cases h
        exact ⟨by simp, ⟨rfl, rfl, rfl⟩⟩
  | _ => simp [Instr.ordinary] at hordinary

namespace Undisturbed

variable {s : State}

theorem acceptsPackets (hs : Undisturbed s) : s.shared.session.acceptsPackets = true := by
  simp [Session.acceptsPackets, hs.opened]

/-- What a thread may run next. -/
theorem head_ordinary (hs : Undisturbed s) {t : ℕ} {instr : Instr} {rest : List Instr}
    (htodo : s.todo t = instr :: rest) : instr.ordinary t :=
  hs.ordinary t instr (by simp [htodo])

theorem worker (hs : Undisturbed s) {t : ℕ} (htodo : s.todo t ≠ []) :
    t = downstreamWorker ∨ t = upstreamWorker := by
  by_contra hother
  push Not at hother
  exact htodo (hs.workers t hother.1 hother.2)

theorem resume (hs : Undisturbed s) {t : ℕ} (ht : t = downstreamWorker ∨ t = upstreamWorker)
    {shared : Relay} {instrs : List Instr} (hordinary : ∀ i ∈ instrs, i.ordinary t)
    (hopen : StaysOpen s.shared shared) :
    Undisturbed (s.resume t shared instrs) where
  opened := hopen.lifecycle.trans hs.opened
  upstream := hopen.upstream.trans hs.upstream
  registered := hopen.registered.trans hs.registered
  ordinary u instr hinstr := by
    by_cases hu : u = t
    · subst hu
      rw [Threads.resume_todo_self] at hinstr
      exact hordinary instr hinstr
    · rw [Threads.resume_todo_of_ne _ hu] at hinstr
      exact hs.ordinary u instr hinstr
  workers u hdownstream hupstream := by
    rw [Threads.resume_todo_of_ne]
    · exact hs.workers u hdownstream hupstream
    · rintro rfl
      exact ht.elim hdownstream hupstream

theorem exec (hs : Undisturbed s) {t : ℕ} {answer : Answer} :
    Undisturbed (s.exec (perform options answer) t) := by
  cases htodo : s.todo t with
  | nil => rwa [Threads.exec_of_idle htodo]
  | cons instr rest =>
      cases hperform : perform options answer t s.shared instr with
      | none => rwa [Threads.exec_of_waits htodo hperform]
      | some result =>
          obtain ⟨shared, instrs⟩ := result
          rw [Threads.exec_of_performs htodo hperform]
          obtain ⟨hinstrs, hopen⟩ :=
            perform_ordinary (hs.head_ordinary htodo) hs.upstream hperform
          refine hs.resume (hs.worker (by simp [htodo])) ?_ hopen
          refine List.forall_mem_append.mpr ⟨hinstrs, fun i hi ↦ ?_⟩
          exact hs.ordinary t i (by simp [htodo, hi])

/-- A call that arrives finds its thread idle. -/
theorem step_call (hs : Undisturbed s) {t : ℕ} {call : Call} (harrives : arrives s (.call t call)) :
    s.todo t = [] ∧ step options s (.call t call) = s.resume t s.shared call.body ∧
      Undisturbed (s.resume t s.shared call.body) := by
  have hcall : (t = downstreamWorker ∨ t = upstreamWorker) ∧ s.todo t = [] ∧
      ∀ instr ∈ call.body, instr.ordinary t := by
    cases call with
    | downstreamJoin | downstreamPacket =>
        obtain ⟨rfl, hidle⟩ := of_decide_eq_true harrives
        exact ⟨.inl rfl, hidle, by simp [Call.body, Instr.ordinary]⟩
    | upstreamJoin | upstreamPacket =>
        obtain ⟨rfl, rfl, hidle⟩ := of_decide_eq_true harrives
        exact ⟨.inr rfl, hidle, by simp [Call.body, Instr.ordinary]⟩
    | _ => simp [arrives] at harrives
  obtain ⟨hworker, hidle, hordinary⟩ := hcall
  refine ⟨hidle, ?_, hs.resume hworker hordinary ⟨rfl, rfl, rfl⟩⟩
  simp [step, hidle, inApplication, Threads.call]

end Undisturbed

theorem undisturbed_loggedIn (options : BedrockLiveRelayOptions) :
    Undisturbed (loggedIn options) where
  opened := by rw [loggedIn_shared]
  upstream := by rw [loggedIn_shared]
  registered := by rw [loggedIn_shared]
  ordinary t instr hinstr := by simp [loggedIn_todo] at hinstr
  workers t _ _ := loggedIn_todo options t

end BedrockProtocol.BedrockLiveRelay
