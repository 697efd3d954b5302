import BedrockProtocol.Client.QueuePump

/-!
# The pump during a close

From the return of the outermost `pauseQueuePump` to the release of the latch the
pump is off: only `startQueue`, `resumeQueuePump` and a due rollback turn it on,
and each of them looks at the latch first.  The latch stays with its thread as long
as one of its closes is unfinished.
-/

namespace BedrockProtocol.BedrockNetworkClient

variable {σ ν : Type} {ctx : Context σ ν}

/-! ## The latch -/

def isClosingReset : Instr → Bool
  | .closingReset _ => true
  | _ => false

/-- How many closes a thread has to leave. -/
def unfinished (instrs : List Instr) : ℕ := instrs.countP isClosingReset

/-- How many the latch counts. -/
def Shared.depthOf (s : Shared σ ν) (t : ThreadId) : ℕ :=
  if s.closing = true ∧ s.closingThreadId = some t then s.closingDepth else 0

/-- A pause belongs to a close. -/
def Guarded : List Instr → Prop
  | [] => True
  | i :: rest => (i = .awaitPump → 0 < unfinished rest) ∧ Guarded rest

/-- Instructions that leave the latch alone. -/
def isRoutine : Instr → Bool
  | .admitClose .. => false
  | .closingReset _ => false
  | .pauseQueuePump => false
  | .awaitPump => false
  | _ => true

theorem unfinished_cons (i : Instr) (rest : List Instr) :
    unfinished (i :: rest) = unfinished rest + if isClosingReset i then 1 else 0 := by
  rw [unfinished, List.countP_cons, unfinished]

theorem unfinished_append (instrs rest : List Instr) :
    unfinished (instrs ++ rest) = unfinished instrs + unfinished rest := List.countP_append

theorem isClosingReset_of_routine {i : Instr} (h : isRoutine i = true) :
    isClosingReset i = false := by
  cases i <;> first | rfl | cases h

theorem unfinished_of_routine {instrs : List Instr} (h : instrs.all isRoutine) :
    unfinished instrs = 0 := by
  rw [unfinished, List.countP_eq_zero]
  intro i hi
  rw [isClosingReset_of_routine (List.all_eq_true.mp h i hi)]
  exact Bool.false_ne_true

theorem guarded_append {instrs rest : List Instr} (h : Guarded instrs) (hrest : Guarded rest) :
    Guarded (instrs ++ rest) := by
  induction instrs with
  | nil => exact hrest
  | cons i instrs ih =>
      refine ⟨fun hi ↦ ?_, ih h.2⟩
      have hfirst := h.1 hi
      have hsum := unfinished_append instrs rest
      exact hsum ▸ Nat.add_pos_left hfirst _

theorem guarded_of_routine {instrs : List Instr} (h : instrs.all isRoutine) : Guarded instrs := by
  induction instrs with
  | nil => trivial
  | cons i instrs ih =>
      rw [List.all_cons, Bool.and_eq_true] at h
      refine ⟨?_, ih h.2⟩
      rintro rfl
      exact absurd h.1 (by decide)

theorem guarded_closeFrame (closeTransport : Bool) : Guarded (closeFrame closeTransport) := by
  simp [closeFrame, stopQueue, setStatus, Guarded, unfinished, isClosingReset]

theorem unfinished_closeFrame (closeTransport : Bool) :
    unfinished (closeFrame closeTransport) = 1 := by
  simp [closeFrame, stopQueue, setStatus, unfinished, isClosingReset]

theorem unfinished_unwind (closeCommitted : Bool) (instrs : List Instr) :
    unfinished (unwind closeCommitted instrs) = unfinished instrs := by
  unfold unfinished
  induction instrs generalizing closeCommitted with
  | nil => rfl
  | cons i rest ih =>
      cases i <;> simp [unwind, isClosingReset, List.countP_cons, ih]

theorem guarded_unwind (closeCommitted : Bool) {instrs : List Instr} (h : Guarded instrs) :
    Guarded (unwind closeCommitted instrs) := by
  induction instrs generalizing closeCommitted with
  | nil => trivial
  | cons i rest ih =>
      have hrest := fun committed ↦ ih committed h.2
      cases i <;> simp only [unwind, Guarded, reduceCtorEq, false_implies, true_and, hrest]
      exact h.2

/-! ## One instruction -/

/-- What instructions that leave the latch alone do to it and to the pump. -/
structure Undisturbed (s s' : Shared σ ν) : Prop where
  closing : s'.closing = s.closing
  closingThreadId : s'.closingThreadId = s.closingThreadId
  closingDepth : s'.closingDepth = s.closingDepth
  queuePumpEnabled : s.closing = true → s.queuePumpEnabled = false → s'.queuePumpEnabled = false

namespace Undisturbed

@[refl] theorem refl (s : Shared σ ν) : Undisturbed s s := ⟨rfl, rfl, rfl, fun _ h ↦ h⟩

theorem depthOf {s s' : Shared σ ν} (h : Undisturbed s s') (t : ThreadId) :
    s'.depthOf t = s.depthOf t := by
  simp only [Shared.depthOf, h.closing, h.closingThreadId, h.closingDepth]

end Undisturbed

theorem all_routine_sendPackets (packets : List VersionedGamePacket) (queued : Bool) :
    (sendPackets packets queued).all isRoutine := by
  simp [sendPackets, isRoutine]

theorem undisturbed_pushChunkRadius {now : ℕ} {s s' : Shared σ ν}
    (h : pushChunkRadius ctx now s = .ok s') : Undisturbed s s' := by
  unfold pushChunkRadius at h
  split at h
  · obtain rfl := Except.ok.inj h
    rfl
  split at h
  · obtain rfl := Except.ok.inj h
    rfl
  · obtain ⟨packet, -, hs'⟩ := bind_eq_ok.mp h
    obtain rfl := Except.ok.inj hs'
    exact ⟨rfl, rfl, rfl, fun _ h ↦ h⟩

theorem undisturbed_pushKeepAlive {now : ℕ} {s s' : Shared σ ν}
    (h : pushKeepAlive ctx now s = .ok s') : Undisturbed s s' := by
  unfold pushKeepAlive at h
  split at h
  · obtain rfl := Except.ok.inj h
    rfl
  split at h
  · obtain rfl := Except.ok.inj h
    rfl
  · obtain ⟨packet, -, hs'⟩ := bind_eq_ok.mp h
    obtain rfl := Except.ok.inj hs'
    exact ⟨rfl, rfl, rfl, fun _ h ↦ h⟩

theorem undisturbed_buildPayload (s : Shared σ ν) (packets : List VersionedGamePacket) :
    Undisturbed s (buildPayload ctx s packets).2 := by
  unfold buildPayload
  split
  · split
    · rfl
    split
    · rfl
    split <;> exact ⟨rfl, rfl, rfl, fun _ h ↦ h⟩
  · rfl

theorem sendPacketsLocked_routine (s : Shared σ ν) (packets : List VersionedGamePacket)
    (queued : Bool) : (sendPacketsLocked ctx s packets queued).Leaves (Undisturbed s)
      fun instrs ↦ instrs.all isRoutine := by
  have hbuild := @undisturbed_buildPayload σ ν ctx s packets
  unfold sendPacketsLocked
  split_ifs
  · exact ⟨.refl s, rfl⟩
  · split
    · rename_i hpayload
      rw [hpayload] at hbuild
      exact hbuild
    · rename_i hpayload
      rw [hpayload] at hbuild
      exact ⟨⟨hbuild.closing, hbuild.closingThreadId, hbuild.closingDepth,
        hbuild.queuePumpEnabled⟩, rfl⟩

theorem queueLoop_routine (now : ℕ) (s : Shared σ ν) (nextTick : ℕ) :
    (queueLoop ctx now s nextTick).Leaves (Undisturbed s) fun instrs ↦ instrs.all isRoutine := by
  unfold queueLoop
  split_ifs with hstop henabled hnow
  · exact ⟨.refl s, rfl⟩
  · split
    · trivial
    split_ifs
    · trivial
    · refine ⟨⟨rfl, rfl, rfl, fun hclosing _ ↦ ?_⟩, rfl⟩
      simp [hclosing]
  · trivial
  · split
    · exact ⟨.refl s, rfl⟩
    · rename_i s' hpush
      obtain ⟨s₁, hchunk, halive⟩ := bind_eq_ok.mp hpush
      have h₁ := undisturbed_pushChunkRadius hchunk
      have h₂ := undisturbed_pushKeepAlive halive
      refine ⟨⟨h₂.closing.trans h₁.closing, h₂.closingThreadId.trans h₁.closingThreadId,
        h₂.closingDepth.trans h₁.closingDepth, fun hclosing hdisabled ↦ ?_⟩, ?_⟩
      · exact h₂.queuePumpEnabled (h₁.closing.trans hclosing)
          (h₁.queuePumpEnabled hclosing hdisabled)
      · have hsend := all_routine_sendPackets s'.queuedPackets true
        simp [hsend, isRoutine]

theorem joinPump_routine (t : ThreadId) (s : Shared σ ν) :
    (joinPump t s).Leaves (Undisturbed s) fun instrs ↦ instrs.all isRoutine := by
  unfold joinPump
  split
  · exact ⟨.refl s, rfl⟩
  · split_ifs
    · exact ⟨⟨rfl, rfl, rfl, fun _ h ↦ h⟩, rfl⟩
    · trivial

/-- While a close is on, a restarted queue stays paused. -/
theorem undisturbed_armPump (s : Shared σ ν) (pumpEnabled : Bool) :
    Undisturbed s (armPump s pumpEnabled) := by
  refine ⟨rfl, rfl, rfl, fun hclosing _ ↦ ?_⟩
  simp [armPump, hclosing]

theorem undisturbed_resumeQueuePump (s : Shared σ ν) : Undisturbed s (resumeQueuePump s) := by
  unfold resumeQueuePump
  split_ifs
  · rfl
  · refine ⟨rfl, rfl, rfl, fun hclosing _ ↦ ?_⟩
    simp [hclosing]

theorem perform_routine (t : ThreadId) (now : ℕ) (s : Shared σ ν) {i : Instr}
    (hi : isRoutine i = true) :
    (perform ctx t now s i).Leaves (Undisturbed s) fun instrs ↦ instrs.all isRoutine := by
  have hsame : Undisturbed s s := .refl s
  have hsend := all_routine_sendPackets
  cases i with
  | admitClose | closingReset | pauseQueuePump | awaitPump => cases hi
  | queueLoop nextTick => exact queueLoop_routine now s nextTick
  | joinPump => exact joinPump_routine t s
  | sendPacketsLocked packets queued => exact sendPacketsLocked_routine s packets queued
  | resumeQueuePump => exact ⟨undisturbed_resumeQueuePump s, rfl⟩
  | stopQueueLocked preserve => exact ⟨⟨rfl, rfl, rfl, fun _ _ ↦ rfl⟩, rfl⟩
  | armPump pumpEnabled allow =>
      simp only [perform]
      split_ifs
      · exact ⟨hsame, rfl⟩
      · exact ⟨undisturbed_armPump s pumpEnabled, rfl⟩
  | takeQueued => exact ⟨⟨rfl, rfl, rfl, fun _ h ↦ h⟩, hsend _ _⟩
  | _ =>
      simp only [perform]
      repeat' split
      all_goals first
        | exact ⟨⟨rfl, rfl, rfl, fun _ h ↦ h⟩, rfl⟩
        | exact ⟨⟨rfl, rfl, rfl, fun _ h ↦ h⟩, hsend _ _⟩
        | exact hsame
        | trivial

theorem isRoutine_of_throws {t : ThreadId} {now : ℕ} {s s' : Shared σ ν} {i : Instr}
    (h : perform ctx t now s i = .throws s') : isRoutine i = true := by
  by_contra hspecial
  cases i with
  | admitClose closeTransport origin =>
      simp only [perform, admitClose] at h
      split_ifs at h
  | awaitPump =>
      simp only [perform] at h
      split_ifs at h
  | closingReset | pauseQueuePump => cases h
  | _ => exact hspecial rfl

/-- A pump that is off stays off until the latch is released. -/
theorem disabled_of_perform {t : ThreadId} {now : ℕ} {s s' : Shared σ ν} {i : Instr}
    {instrs : List Instr} (hperform : perform ctx t now s i = .next s' instrs)
    (hclosing : s.closing = true) (hdisabled : s.queuePumpEnabled = false)
    (hstill : s'.closing = true) : s'.queuePumpEnabled = false := by
  cases hroutine : isRoutine i with
  | true =>
      have hleaves := @perform_routine σ ν ctx t now s i hroutine
      rw [hperform] at hleaves
      exact hleaves.1.queuePumpEnabled hclosing hdisabled
  | false =>
      cases i with
      | admitClose closeTransport origin =>
          simp only [perform, admitClose] at hperform
          split_ifs at hperform <;> cases hperform <;> exact hdisabled
      | closingReset closeCommitted =>
          cases hperform
          by_cases hlast : s.closingDepth - 1 = 0
          · simp [closingReset, hlast] at hstill
          · simp [closingReset, hlast, hdisabled]
      | pauseQueuePump =>
          cases hperform
          rfl
      | awaitPump =>
          simp only [perform] at hperform
          split_ifs at hperform
          cases hperform
          exact hdisabled
      | _ => cases hroutine

/-! ## Invariant -/

/-- The latch is with the thread whose closes are unfinished, and while it is held
the pump is off as soon as its owner paused it. -/
structure Latched (s : State σ ν) : Prop where
  unfinished : ∀ t, unfinished (s.todo t) = s.shared.depthOf t
  guarded : ∀ t, Guarded (s.todo t)
  suppressed : s.shared.closing = true → s.shared.queuePumpEnabled = false ∨
    ∃ t rest, s.shared.closingThreadId = some t ∧ s.todo t = .pauseQueuePump :: rest

theorem latched_constructed (compressionAlgorithm : String) (reliableSendOverride : Bool)
    (protoDefVariables : ν) :
    Latched (σ := σ) (constructed compressionAlgorithm reliableSendOverride protoDefVariables) where
  unfinished t := by
    cases t <;> rfl
  guarded t := by
    cases t <;> simp [constructed, Guarded]
  suppressed h := by cases h

namespace Latched

variable {s : State σ ν} {t : ThreadId} {i : Instr} {rest instrs : List Instr}
  {shared : Shared σ ν}

/-- A thread goes on with instructions that leave the latch alone. -/
theorem setTodo (h : Latched s) (hshared : Undisturbed s.shared shared)
    (hunfinished : BedrockNetworkClient.unfinished instrs =
      BedrockNetworkClient.unfinished (s.todo t)) (hguarded : Guarded instrs)
    (hpausing : ∀ rest, s.todo t ≠ .pauseQueuePump :: rest) :
    Latched (State.setTodo { s with shared } t instrs) where
  unfinished u := by
    rw [setTodo_shared, hshared.depthOf, ← h.unfinished]
    by_cases hu : u = t
    · rw [hu, setTodo_self, hunfinished]
    · rw [setTodo_of_ne _ hu]
  guarded u := by
    by_cases hu : u = t
    · rwa [hu, setTodo_self]
    · rw [setTodo_of_ne _ hu]
      exact h.guarded u
  suppressed hclosing := by
    have hbefore : s.shared.closing = true := hshared.closing.symm.trans hclosing
    rcases h.suppressed hbefore with hdisabled | ⟨u, rest, hu, htodo⟩
    · exact .inl (hshared.queuePumpEnabled hbefore hdisabled)
    · refine .inr ⟨u, rest, hshared.closingThreadId.trans hu, ?_⟩
      rw [setTodo_of_ne]
      · exact htodo
      · rintro rfl
        exact hpausing rest htodo

/-- A thread with an unfinished close holds the latch. -/
theorem owner (h : Latched s) (hpos : 0 < BedrockNetworkClient.unfinished (s.todo t)) :
    s.shared.closing = true ∧ s.shared.closingThreadId = some t ∧
      BedrockNetworkClient.unfinished (s.todo t) = s.shared.closingDepth := by
  have hdepth := h.unfinished t
  rw [Shared.depthOf] at hdepth
  split_ifs at hdepth with howner
  · exact ⟨howner.1, howner.2, hdepth⟩
  · omega

/-- Past its pause the owner finds the pump off. -/
theorem disabled_of_owner (h : Latched s) (hclosing : s.shared.closing = true)
    (howner : s.shared.closingThreadId = some t)
    (hpausing : ∀ rest, s.todo t ≠ .pauseQueuePump :: rest) :
    s.shared.queuePumpEnabled = false := by
  rcases h.suppressed hclosing with hdisabled | ⟨u, rest, hu, htodo⟩
  · exact hdisabled
  · rw [howner] at hu
    obtain rfl := Option.some.inj hu
    exact absurd htodo (hpausing rest)

theorem admitClose (h : Latched s) {closeTransport : Bool} {origin : CloseOrigin}
    (htodo : s.todo t = .admitClose closeTransport origin :: rest)
    (hgranted : BedrockNetworkClient.admitClose t s.shared closeTransport origin =
      .next shared instrs) : Latched (State.setTodo { s with shared } t (instrs ++ rest)) := by
  have hpausing : ∀ rest, s.todo t ≠ .pauseQueuePump :: rest := by
    rw [htodo]
    simp
  have hguarded : Guarded rest := by
    have hall := h.guarded t
    rw [htodo] at hall
    exact hall.2
  have hsame : BedrockNetworkClient.unfinished rest =
      BedrockNetworkClient.unfinished (s.todo t) := by
    rw [htodo]
    rfl
  have hframe := unfinished_closeFrame closeTransport
  unfold BedrockNetworkClient.admitClose at hgranted
  split_ifs at hgranted with hsynchronous htransport hcommitted hnested hclosing
  · cases hgranted
    exact h.setTodo (.refl _) hsame hguarded hpausing
  · cases hgranted
    exact h.setTodo (.refl _) hsame hguarded hpausing
  · cases hgranted
    have hdisabled := h.disabled_of_owner hnested.1 hnested.2 hpausing
    refine ⟨fun u ↦ ?_, fun u ↦ ?_, fun _ ↦ .inl hdisabled⟩
    · by_cases hu : u = t
      · subst hu
        have hdepth := h.unfinished u
        rw [← hsame] at hdepth
        simp only [Shared.depthOf, hnested, and_self, if_true] at hdepth
        simp [Shared.depthOf, hnested, unfinished_append, hframe, hdepth, Nat.add_comm]
      · rw [setTodo_of_ne _ hu, h.unfinished u]
        have hother : some t ≠ some u := fun h ↦ hu (Option.some.inj h).symm
        simp [Shared.depthOf, hnested.2, hother]
    · by_cases hu : u = t
      · rw [hu, setTodo_self]
        exact guarded_append (guarded_closeFrame closeTransport) hguarded
      · rw [setTodo_of_ne _ hu]
        exact h.guarded u
  · cases hgranted
    have hnone (u : ThreadId) : BedrockNetworkClient.unfinished (s.todo u) = 0 := by
      rw [h.unfinished, Shared.depthOf, if_neg]
      exact fun howner ↦ hclosing howner.1
    refine ⟨fun u ↦ ?_, fun u ↦ ?_, fun _ ↦ .inr ⟨t, _, rfl, setTodo_self _ _ _⟩⟩
    · by_cases hu : u = t
      · subst hu
        simp [Shared.depthOf, unfinished_append, hframe, hsame, hnone]
      · have hother : t ≠ u := fun h ↦ hu h.symm
        rw [setTodo_of_ne _ hu, hnone]
        simp [Shared.depthOf, hother]
    · by_cases hu : u = t
      · rw [hu, setTodo_self]
        exact guarded_append (guarded_closeFrame closeTransport) hguarded
      · rw [setTodo_of_ne _ hu]
        exact h.guarded u

theorem closingReset (h : Latched s) {now : ℕ} {closeCommitted : Bool}
    (htodo : s.todo t = .closingReset closeCommitted :: rest) :
    Latched (State.setTodo
      { s with shared := BedrockNetworkClient.closingReset ctx now s.shared closeCommitted } t
        rest) := by
  have hcount : BedrockNetworkClient.unfinished (s.todo t) =
      BedrockNetworkClient.unfinished rest + 1 := by
    rw [htodo, unfinished_cons]
    rfl
  obtain ⟨hclosing, howner, hdepth⟩ := h.owner (t := t) (by omega)
  have hguarded (u : ThreadId) : Guarded ((State.setTodo
      { s with shared := BedrockNetworkClient.closingReset ctx now s.shared closeCommitted } t
        rest).todo u) := by
    by_cases hu : u = t
    · have hall := h.guarded t
      rw [htodo] at hall
      rw [hu, setTodo_self]
      exact hall.2
    · rw [setTodo_of_ne _ hu]
      exact h.guarded u
  have hothers (u : ThreadId) (hu : u ≠ t) : BedrockNetworkClient.unfinished (s.todo u) = 0 := by
    have hother : some t ≠ some u := fun h ↦ hu (Option.some.inj h).symm
    rw [h.unfinished, Shared.depthOf, howner, if_neg]
    exact fun hboth ↦ hother hboth.2
  by_cases hlast : s.shared.closingDepth - 1 = 0
  · refine ⟨fun u ↦ ?_, hguarded, fun hstill ↦ ?_⟩
    · have hnone : (BedrockNetworkClient.closingReset ctx now s.shared closeCommitted).depthOf u =
          0 := by
        simp [Shared.depthOf, BedrockNetworkClient.closingReset, hlast]
      rw [setTodo_shared, hnone]
      by_cases hu : u = t
      · rw [hu, setTodo_self]
        omega
      · rw [setTodo_of_ne _ hu]
        exact hothers u hu
    · simp [BedrockNetworkClient.closingReset, hlast] at hstill
  · have hdisabled : s.shared.queuePumpEnabled = false := by
      refine h.disabled_of_owner hclosing howner ?_
      rw [htodo]
      simp
    refine ⟨fun u ↦ ?_, hguarded, fun _ ↦ .inl ?_⟩
    · by_cases hu : u = t
      · subst hu
        simp only [setTodo_shared, setTodo_self, Shared.depthOf, BedrockNetworkClient.closingReset,
          hlast, if_false, hclosing, howner, and_self, if_true]
        omega
      · have hother : some t ≠ some u := fun h ↦ hu (Option.some.inj h).symm
        rw [setTodo_of_ne _ hu]
        simp [Shared.depthOf, BedrockNetworkClient.closingReset, hlast, howner, hother,
          hothers u hu]
    · simp [BedrockNetworkClient.closingReset, hlast, hdisabled]

/-- What instructions leave behind them. -/
theorem tail (h : Latched s) (htodo : s.todo t = i :: rest) : Guarded rest := by
  have hall := h.guarded t
  rw [htodo] at hall
  exact hall.2

theorem exec (h : Latched s) {now : ℕ} (htodo : s.todo t = i :: rest)
    (hperform : perform ctx t now s.shared i = .next shared instrs) :
    Latched (State.setTodo { s with shared } t (instrs ++ rest)) := by
  have hguarded := h.tail htodo
  cases hroutine : isRoutine i with
  | true =>
      have hleaves := @perform_routine σ ν ctx t now s.shared i hroutine
      rw [hperform] at hleaves
      obtain ⟨hshared, hinstrs⟩ := hleaves
      refine h.setTodo hshared ?_ (guarded_append (guarded_of_routine hinstrs) hguarded) ?_
      · rw [unfinished_append, unfinished_of_routine hinstrs, htodo, unfinished_cons, Nat.zero_add,
          isClosingReset_of_routine hroutine]
        rfl
      · rw [htodo]
        rintro rest' ⟨⟩
        cases hroutine
  | false =>
      cases i with
      | admitClose closeTransport origin => exact h.admitClose htodo hperform
      | closingReset closeCommitted =>
          cases hperform
          exact h.closingReset htodo
      | pauseQueuePump =>
          cases hperform
          refine ⟨fun u ↦ ?_, fun u ↦ ?_, fun _ ↦ .inl rfl⟩
          · have hsame : (State.setTodo { s with shared := { s.shared with
                queuePumpEnabled := false, queuePumpResumeDue := none } } t ([] ++ rest)).shared.depthOf
                u = s.shared.depthOf u := rfl
            rw [hsame, ← h.unfinished]
            by_cases hu : u = t
            · rw [hu, setTodo_self, htodo, unfinished_cons]
              rfl
            · rw [setTodo_of_ne _ hu]
          · by_cases hu : u = t
            · rwa [hu, setTodo_self]
            · rw [setTodo_of_ne _ hu]
              exact h.guarded u
      | awaitPump =>
          simp only [perform] at hperform
          split_ifs at hperform
          cases hperform
          refine h.setTodo (.refl _) ?_ hguarded ?_
          · rw [htodo, unfinished_cons]
            rfl
          · rw [htodo]
            simp
      | _ => cases hroutine

/-- A thread whose instructions an exception skips. -/
theorem unwind (h : Latched s) (closeCommitted : Bool) (hshared : Undisturbed s.shared shared)
    (htodo : s.todo t = i :: rest) (hreset : isClosingReset i = false) (hi : i ≠ .pauseQueuePump) :
    Latched (State.setTodo { s with shared } t
      (BedrockNetworkClient.unwind closeCommitted rest)) := by
  refine h.setTodo hshared ?_ (guarded_unwind _ (h.tail htodo)) ?_
  · rw [unfinished_unwind, htodo, unfinished_cons, hreset]
    rfl
  · rw [htodo]
    rintro rest' ⟨⟩
    exact hi rfl

theorem call (h : Latched s) (call : Call) (happ : inApplication t (s.todo t) = true) :
    Latched (s.setTodo t (call.body ++ s.todo t)) := by
  have hbody : BedrockNetworkClient.unfinished call.body = 0 ∧ Guarded call.body := by
    cases call with
    | emitClose closeTransport origin => exact ⟨rfl, nofun, trivial⟩
    | sendPackets packets =>
        have hroutine := all_routine_sendPackets packets false
        exact ⟨unfinished_of_routine hroutine, guarded_of_routine hroutine⟩
    | _ => exact ⟨unfinished_of_routine rfl, guarded_of_routine rfl⟩
  refine h.setTodo (.refl _) ?_ (guarded_append hbody.2 (h.guarded t)) ?_
  · rw [unfinished_append, hbody.1, Nat.zero_add]
  · intro rest htodo
    rw [htodo] at happ
    cases t <;> cases happ

theorem step (h : Latched s) (label : Label) :
    Latched (BedrockNetworkClient.step ctx s label) := by
  obtain hs | ⟨t, call, -, happ, hs⟩ | ⟨t, now, i, rest, instrs, shared, -, htodo, hperform, hs⟩ |
      ⟨t, now, i, rest, shared, -, htodo, hperform, hs⟩ | ⟨t, rest, -, htodo, hs⟩ |
      ⟨t, rest, -, htodo, hs⟩ := @stepCase σ ν ctx s label
  · rwa [hs]
  · rw [hs]
    exact h.call call happ
  · rw [hs]
    exact h.exec htodo hperform
  · rw [hs]
    have hroutine := isRoutine_of_throws hperform
    have hleaves := @perform_routine σ ν ctx t now s.shared i hroutine
    rw [hperform] at hleaves
    refine h.unwind true hleaves htodo (isClosingReset_of_routine hroutine) ?_
    rintro rfl
    cases hroutine
  · rw [hs]
    exact h.unwind true (.refl _) htodo rfl nofun
  · rw [hs]
    exact h.unwind true ⟨rfl, rfl, rfl, fun _ _ ↦ rfl⟩ htodo rfl nofun

end Latched

/-! ## Between the pause and the release -/

/-- The outermost `pauseQueuePump` of a close returns. -/
def returnsFromPause (s : State σ ν) : Label → Bool
  | .exec t _ =>
      match s.todo t with
      | .awaitPump :: _ =>
          !s.shared.terminated && !s.shared.queuePumpInFlight && s.shared.closingDepth = 1
      | _ => false
  | _ => false

/-- A client, and whether it is between the return of the outermost pause and the
release of the latch. -/
structure Watched (σ ν : Type) where
  state : State σ ν
  paused : Bool

def watchStep (ctx : Context σ ν) (w : Watched σ ν) (label : Label) : Watched σ ν where
  state := step ctx w.state label
  paused := (w.paused || returnsFromPause w.state label) && (step ctx w.state label).shared.closing

theorem disabled_step {s : State σ ν} (label : Label) (hclosing : s.shared.closing = true)
    (hdisabled : s.shared.queuePumpEnabled = false)
    (hstill : (step ctx s label).shared.closing = true) :
    (step ctx s label).shared.queuePumpEnabled = false := by
  obtain hs | ⟨t, call, -, happ, hs⟩ | ⟨t, now, i, rest, instrs, shared, -, htodo, hperform, hs⟩ |
      ⟨t, now, i, rest, shared, -, htodo, hperform, hs⟩ | ⟨t, rest, -, htodo, hs⟩ |
      ⟨t, rest, -, htodo, hs⟩ := @stepCase σ ν ctx s label
  · rwa [hs]
  · rwa [hs]
  · rw [hs] at hstill ⊢
    exact disabled_of_perform hperform hclosing hdisabled hstill
  · rw [hs]
    have hleaves := @perform_routine σ ν ctx t now s.shared i (isRoutine_of_throws hperform)
    rw [hperform] at hleaves
    exact hleaves.queuePumpEnabled hclosing hdisabled
  · rwa [hs]
  · rw [hs]
    rfl

/-- The return of the outermost pause. -/
theorem Latched.disabled_of_returnsFromPause {s : State σ ν} (h : Latched s) {label : Label}
    (hreturns : returnsFromPause s label = true) :
    s.shared.closing = true ∧ s.shared.queuePumpEnabled = false := by
  cases label with
  | exec t now =>
      simp only [returnsFromPause] at hreturns
      split at hreturns
      · rename_i rest htodo
        have hpos : 0 < BedrockNetworkClient.unfinished (s.todo t) := by
          have hguarded := h.guarded t
          rw [htodo] at hguarded ⊢
          rw [unfinished_cons]
          exact Nat.add_pos_left (hguarded.1 rfl) _
        obtain ⟨hclosing, howner, -⟩ := h.owner hpos
        refine ⟨hclosing, h.disabled_of_owner hclosing howner ?_⟩
        rw [htodo]
        simp
      · cases hreturns
  | call t call => cases hreturns
  | throwing t => cases hreturns

/-- The invariant, and what it says of the watched stretch. -/
structure Excluded (w : Watched σ ν) : Prop where
  latched : Latched w.state
  paused : w.paused = true → w.state.shared.closing = true ∧ w.state.shared.queuePumpEnabled = false

theorem Excluded.step {w : Watched σ ν} (h : Excluded w) (label : Label) :
    Excluded (watchStep ctx w label) := by
  refine ⟨h.latched.step label, fun hpaused ↦ ?_⟩
  obtain ⟨hbefore, hstill⟩ := Bool.and_eq_true_iff.mp hpaused
  have hoff : w.state.shared.closing = true ∧ w.state.shared.queuePumpEnabled = false := by
    rcases Bool.or_eq_true_iff.mp hbefore with hpaused | hreturns
    · exact h.paused hpaused
    · exact h.latched.disabled_of_returnsFromPause hreturns
  exact ⟨hstill, disabled_step label hoff.1 hoff.2 hstill⟩

/-- A turn of the loop while the pump is off takes nothing. -/
theorem queueLoop_disabled (now : ℕ) {s : Shared σ ν} (nextTick : ℕ)
    (h : s.queuePumpEnabled = false) :
    queueLoop ctx now s nextTick = .waits ∨ ∃ s' instrs,
      queueLoop ctx now s nextTick = .next s' instrs ∧ s'.queuedPackets = s.queuedPackets ∧
        s'.queuePumpInFlight = s.queuePumpInFlight ∧
        (instrs = [] ∨ instrs = [.queueLoop nextTick]) := by
  simp only [queueLoop, h]
  split_ifs with hstop hon
  · exact .inr ⟨s, [], rfl, rfl, rfl, .inl rfl⟩
  · split
    · exact .inl rfl
    · split_ifs
      · exact .inl rfl
      · exact .inr ⟨_, _, rfl, rfl, rfl, .inr rfl⟩
  · exact absurd rfl hon
  · exact absurd rfl hon

theorem pump_excluded_during_close (ctx : Context σ ν) (compressionAlgorithm : String)
    (reliableSendOverride : Bool) (protoDefVariables : ν) (labels : List Label)
    (hpaused : (run (watchStep ctx)
      ⟨constructed compressionAlgorithm reliableSendOverride protoDefVariables, false⟩
        labels).paused = true) :
    let s := (run (watchStep ctx)
      ⟨constructed compressionAlgorithm reliableSendOverride protoDefVariables, false⟩
        labels).state
    s.shared.closing = true ∧ s.shared.queuePumpEnabled = false ∧
      ∀ t now nextTick rest, s.todo t = .queueLoop nextTick :: rest →
        let s' := step ctx s (.exec t now)
        s'.shared.queuedPackets = s.shared.queuedPackets ∧
          s'.shared.queuePumpInFlight = s.shared.queuePumpInFlight ∧
          (s'.todo t = .queueLoop nextTick :: rest ∨ s'.todo t = rest) := by
  intro s
  have hexcluded : Excluded (run (watchStep ctx)
      ⟨constructed compressionAlgorithm reliableSendOverride protoDefVariables, false⟩ labels) :=
    invariant_always (fun _ label h ↦ h.step label) ⟨latched_constructed _ _ _, nofun⟩ labels
  obtain ⟨hclosing, hdisabled⟩ := hexcluded.paused hpaused
  refine ⟨hclosing, hdisabled, fun t now nextTick rest htodo ↦ ?_⟩
  have htodo : s.todo t = .queueLoop nextTick :: rest := htodo
  have hdisabled : s.shared.queuePumpEnabled = false := hdisabled
  intro s'
  by_cases hterminated : s.shared.terminated = true
  · have hs' : s' = s := if_pos hterminated
    rw [hs']
    exact ⟨rfl, rfl, .inl htodo⟩
  rcases @queueLoop_disabled σ ν ctx now s.shared nextTick hdisabled with
    hwaits | ⟨shared, instrs, hnext, hqueued, hflight, hinstrs⟩
  · have hs' : s' = s := by simp [s', step, hterminated, htodo, perform, hwaits]
    rw [hs']
    exact ⟨rfl, rfl, .inl htodo⟩
  · have hs' : s' = State.setTodo { s with shared } t (instrs ++ rest) := by
      simp [s', step, hterminated, htodo, perform, hnext]
    rw [hs', setTodo_shared, setTodo_self]
    refine ⟨hqueued, hflight, ?_⟩
    rcases hinstrs with rfl | rfl
    · exact .inr rfl
    · exact .inl rfl

/-- A close whose listener asks for the pump again. -/
def resumingRun : List Label :=
  .call (.caller 1) (.setStatus .connecting) :: List.replicate 2 (.exec (.caller 1) 0) ++
    .call (.caller 1) (.startQueue true false) :: List.replicate 7 (.exec (.caller 1) 0) ++
    .exec (.pump 0) 0 :: .call (.caller 2) (.emitClose true .publicClose) ::
      List.replicate 4 (.exec (.caller 2) 10) ++
    [.call (.caller 2) .resumeQueuePump, .exec (.caller 2) 30]

theorem pump_excluded_during_close_resuming :
    let s := (run (watchStep textContext) ⟨constructed "none" true (), false⟩ resumingRun).state
    (s.todo (.pump 0) = [.queueLoop 20, .exitPump 0] ∧ s.shared.queuePumpRequested = true) ∧
      s.shared.closing = true ∧ s.shared.queuePumpEnabled = false ∧
      ∀ t now nextTick rest, s.todo t = .queueLoop nextTick :: rest →
        let s' := step textContext s (.exec t now)
        s'.shared.queuedPackets = s.shared.queuedPackets ∧
          s'.shared.queuePumpInFlight = s.shared.queuePumpInFlight ∧
          (s'.todo t = .queueLoop nextTick :: rest ∨ s'.todo t = rest) :=
  ⟨⟨by rfl, by rfl⟩, pump_excluded_during_close textContext "none" true () resumingRun (by rfl)⟩

end BedrockProtocol.BedrockNetworkClient
