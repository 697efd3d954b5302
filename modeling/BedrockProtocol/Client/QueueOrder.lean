import BedrockProtocol.Client.QueuePump

/-!
# The order of queued packets

`sendQueued` and the pump take the queue whole and send it after they let it go.
A history written down along a run says what was admitted to the queue and which
batches were taken and not handed over yet.  As long as batches are handed over in
the order in which they were taken, and none is lost on its way, the queued packets
reach the transport in the order of their admission, each exactly once.
-/

namespace BedrockProtocol.BedrockNetworkClient

variable {σ ν : Type} {ctx : Context σ ν}

/-! ## Batches on their way -/

/-- A thread, and what it took from the queue. -/
abbrev TakenBatch := ThreadId × List VersionedGamePacket

def batchesOf (t : ThreadId) (taken : List TakenBatch) : List TakenBatch :=
  taken.filter fun batch ↦ batch.1 = t

def withoutBatchOf (t : ThreadId) (taken : List TakenBatch) : List TakenBatch :=
  taken.eraseP fun batch ↦ batch.1 = t

/-- Nothing was taken before the batch of a thread, or nothing that matters. -/
def isFirst (t : ThreadId) (taken : List TakenBatch) : Bool :=
  (taken.takeWhile fun batch ↦ batch.1 ≠ t).all fun batch ↦ batch.2.isEmpty

section Batches

variable {t u : ThreadId} {taken : List TakenBatch} {packets : List VersionedGamePacket}
  {batch : TakenBatch}

theorem batchesOf_cons_self (h : batch.1 = t) :
    batchesOf t (batch :: taken) = batch :: batchesOf t taken := by
  simp [batchesOf, h]

theorem batchesOf_cons_of_ne (h : batch.1 ≠ t) :
    batchesOf t (batch :: taken) = batchesOf t taken := by
  simp [batchesOf, h]

theorem withoutBatchOf_cons_self (h : batch.1 = t) : withoutBatchOf t (batch :: taken) = taken := by
  simp [withoutBatchOf, h]

theorem withoutBatchOf_cons_of_ne (h : batch.1 ≠ t) :
    withoutBatchOf t (batch :: taken) = batch :: withoutBatchOf t taken := by
  simp [withoutBatchOf, h]

theorem batchesOf_append_of_ne (h : u ≠ t) :
    batchesOf u (taken ++ [(t, packets)]) = batchesOf u taken := by
  simp [batchesOf, h.symm]

theorem batchesOf_append_self :
    batchesOf t (taken ++ [(t, packets)]) = batchesOf t taken ++ [(t, packets)] := by
  simp [batchesOf]

theorem batchesOf_withoutBatchOf_of_ne (h : u ≠ t) :
    batchesOf u (withoutBatchOf t taken) = batchesOf u taken := by
  induction taken with
  | nil => rfl
  | cons batch taken ih =>
      by_cases ht : batch.1 = t
      · rw [withoutBatchOf_cons_self ht, batchesOf_cons_of_ne]
        rw [ht]
        exact h.symm
      · rw [withoutBatchOf_cons_of_ne ht]
        by_cases hu : batch.1 = u
        · rw [batchesOf_cons_self hu, batchesOf_cons_self hu, ih]
        · rw [batchesOf_cons_of_ne hu, batchesOf_cons_of_ne hu, ih]

theorem batchesOf_withoutBatchOf_self (h : batchesOf t taken = [(t, packets)]) :
    batchesOf t (withoutBatchOf t taken) = [] := by
  induction taken with
  | nil => cases h
  | cons batch taken ih =>
      by_cases ht : batch.1 = t
      · rw [batchesOf_cons_self ht] at h
        rw [withoutBatchOf_cons_self ht]
        exact (List.cons.inj h).2
      · rw [batchesOf_cons_of_ne ht] at h
        rw [withoutBatchOf_cons_of_ne ht, batchesOf_cons_of_ne ht]
        exact ih h

/-- What is left when the batch of a thread is handed over in its turn. -/
theorem flatMap_withoutBatchOf (h : batchesOf t taken = [(t, packets)])
    (hfirst : packets = [] ∨ isFirst t taken = true) :
    packets ++ (withoutBatchOf t taken).flatMap Prod.snd = taken.flatMap Prod.snd := by
  induction taken with
  | nil => cases h
  | cons batch taken ih =>
      by_cases ht : batch.1 = t
      · rw [batchesOf_cons_self ht] at h
        rw [withoutBatchOf_cons_self ht, (List.cons.inj h).1]
        rfl
      · rw [batchesOf_cons_of_ne ht] at h
        rw [withoutBatchOf_cons_of_ne ht, List.flatMap_cons, List.flatMap_cons]
        rcases hfirst with rfl | hfirst
        · rw [← ih h (.inl rfl)]
          rfl
        · simp only [isFirst, ht, ne_eq, not_false_eq_true, decide_true, List.takeWhile_cons_of_pos,
            List.all_cons, Bool.and_eq_true, List.isEmpty_iff] at hfirst
          rw [hfirst.1, List.nil_append, List.nil_append]
          exact ih h (.inr hfirst.2)

theorem withoutBatchOf_append_self (h : batchesOf t taken = []) :
    withoutBatchOf t (taken ++ [(t, packets)]) = taken := by
  induction taken with
  | nil => exact withoutBatchOf_cons_self rfl
  | cons batch taken ih =>
      by_cases ht : batch.1 = t
      · rw [batchesOf_cons_self ht] at h
        cases h
      · rw [batchesOf_cons_of_ne ht] at h
        rw [List.cons_append, withoutBatchOf_cons_of_ne ht, ih h]

end Batches

/-! ## Histories -/

/-- What was admitted to the queue, and the batches that are on their way, in the
order in which they were taken. -/
structure QueueHistory where
  admitted : List VersionedGamePacket
  taken : List TakenBatch

/-- The queue as a turn of the loop takes it, if it does. -/
def tickQueue (ctx : Context σ ν) (now : ℕ) (s : Shared σ ν) (nextTick : ℕ) :
    Option (List VersionedGamePacket) :=
  if s.stopQueue || !s.queuePumpEnabled || now < nextTick then none
  else
    match pushChunkRadius ctx now s >>= pushKeepAlive ctx now with
    | .error _ => none
    | .ok s => some s.queuedPackets

/-- What the instruction of a label adds to the history. -/
def QueueHistory.note (ctx : Context σ ν) (s : State σ ν) (h : QueueHistory) :
    Label → QueueHistory
  | .exec t now =>
      if s.shared.terminated then h
      else
        match s.todo t with
        | .enqueue packet :: _ => { h with admitted := h.admitted ++ [packet] }
        | .takeQueued :: _ => { h with taken := h.taken ++ [(t, s.shared.queuedPackets)] }
        | .queueLoop nextTick :: _ =>
            match tickQueue ctx now s.shared nextTick with
            | none => h
            | some queued =>
                ⟨h.admitted ++ queued.drop s.shared.queuedPackets.length, h.taken ++ [(t, queued)]⟩
        | .sendPacketsLocked _ true :: _ => { h with taken := withoutBatchOf t h.taken }
        | _ => h
  | _ => h

structure Logged (σ ν : Type) where
  state : State σ ν
  history : QueueHistory

def logStep (ctx : Context σ ν) (l : Logged σ ν) (label : Label) : Logged σ ν :=
  ⟨step ctx l.state label, l.history.note ctx l.state label⟩

/-- The history only watches. -/
theorem run_logStep_state (l : Logged σ ν) (labels : List Label) :
    (run (logStep ctx) l labels).state = run (step ctx) l.state labels := by
  induction labels generalizing l with
  | nil => rfl
  | cons label labels ih => exact ih (logStep ctx l label)

/-- The queued packets that the transport got. -/
def Shared.handed (s : Shared σ ν) : List VersionedGamePacket :=
  (s.sent.filter SentPayload.queued).flatMap SentPayload.packets

/-- The client stays connected and running, batches are handed over in the order in
which they were taken, and none is lost on its way. -/
def orderly (ctx : Context σ ν) (l : Logged σ ν) : Label → Bool
  | .exec t _ =>
      match l.state.todo t with
      | .decodePacket packet :: _ =>
          (batchesOf t l.history.taken).isEmpty ||
            (ctx.decodePacket l.state.shared.protoDefVariables packet).isOk
      | .sendPacketsLocked packets true :: _ =>
          packets.isEmpty ||
            ((l.state.shared.raknet || l.state.shared.reliableSendOverride) &&
              (buildPayload ctx l.state.shared packets).1.isOk && isFirst t l.history.taken)
      | .stopQueueLocked _ :: _ => l.state.shared.queuedPackets.isEmpty
      | _ => true
  | _ => true

abbrev Orderly (ctx : Context σ ν) (l : Logged σ ν) (label : Label) : Prop :=
  orderly ctx l label = true

/-! ## Threads that carry a batch -/

def carriesBatch : Instr → Bool
  | .sendPacketsLocked _ queued => queued
  | _ => false

/-- The thread carries no batch of the queue. -/
def Calm (instrs : List Instr) : Prop := instrs.all (fun i ↦ !carriesBatch i) = true

/-- The thread carries a batch to the transport. -/
inductive Carrying (packets : List VersionedGamePacket) (todo : List Instr) : Prop
  | decoding (decoded : List VersionedGamePacket) (rest : List Instr) (hrest : Calm rest)
      (htodo : todo = decoded.map .decodePacket ++
        .lockSend :: .sendPacketsLocked packets true :: rest)
  | locked (rest : List Instr) (hrest : Calm rest)
      (htodo : todo = .sendPacketsLocked packets true :: rest)

theorem Calm.append {instrs rest : List Instr} (h : Calm instrs) (hrest : Calm rest) :
    Calm (instrs ++ rest) := by
  rw [Calm, List.all_append, h, hrest]
  rfl

theorem Calm.cons {i : Instr} {rest : List Instr} (hi : carriesBatch i = false)
    (hrest : Calm rest) : Calm (i :: rest) := by
  rw [Calm, List.all_cons, hi, hrest]
  rfl

theorem Calm.head {i : Instr} {rest : List Instr} (h : Calm (i :: rest)) :
    carriesBatch i = false := by
  rw [Calm, List.all_cons, Bool.and_eq_true, Bool.not_eq_true'] at h
  exact h.1

theorem Calm.tail {i : Instr} {rest : List Instr} (h : Calm (i :: rest)) : Calm rest := by
  rw [Calm, List.all_cons, Bool.and_eq_true] at h
  exact h.2

theorem Calm.unwind {instrs : List Instr} (h : Calm instrs) (closeCommitted : Bool) :
    Calm (unwind closeCommitted instrs) := by
  induction instrs generalizing closeCommitted with
  | nil => exact h
  | cons i rest ih =>
      have hrest := ih h.tail
      cases i with
      | listeners => exact h
      | unlockSend | unlockLifecycle | pumpSent | queueLoop | closingReset =>
          exact .cons rfl (hrest _)
      | _ => exact hrest _

theorem calm_sendPackets (packets : List VersionedGamePacket) :
    Calm (sendPackets packets false) := by
  simp [Calm, sendPackets, carriesBatch]

theorem carrying_sendPackets (packets : List VersionedGamePacket) {rest : List Instr}
    (hrest : Calm rest) : Carrying packets (sendPackets packets true ++ rest) := by
  refine .decoding (packets.filter isDecodedWhenSent) (.unlockSend :: rest) ?_ ?_
  · exact .cons rfl hrest
  · simp [sendPackets]

/-- A thread that carries a batch is not in code of the application. -/
theorem Carrying.head {packets : List VersionedGamePacket} {todo : List Instr}
    (h : Carrying packets todo) : ∃ i rest, todo = i :: rest ∧
      (i = .lockSend ∨ (∃ packet, i = .decodePacket packet) ∨ i = .sendPacketsLocked packets true) := by
  cases h with
  | decoding decoded rest hrest htodo =>
      cases decoded with
      | nil => exact ⟨_, _, htodo, .inl rfl⟩
      | cons packet decoded => exact ⟨_, _, htodo, .inr (.inl ⟨packet, rfl⟩)⟩
  | locked rest hrest htodo => exact ⟨_, _, htodo, .inr (.inr rfl)⟩

/-! ## One instruction -/

/-- Instructions that touch neither the queue nor a batch of it. -/
def isQuiet : Instr → Bool
  | .enqueue _ => false
  | .takeQueued => false
  | .queueLoop _ => false
  | .stopQueueLocked _ => false
  | .sendPacketsLocked _ queued => !queued
  | _ => true

/-- The queue, and what came of it. -/
structure SameQueue (s s' : Shared σ ν) : Prop where
  queuedPackets : s'.queuedPackets = s.queuedPackets
  handed : s'.handed = s.handed

@[refl] theorem SameQueue.refl (s : Shared σ ν) : SameQueue s s := ⟨rfl, rfl⟩

theorem sameQueue_buildPayload (s : Shared σ ν) (packets : List VersionedGamePacket) :
    (buildPayload ctx s packets).2.queuedPackets = s.queuedPackets ∧
      (buildPayload ctx s packets).2.sent = s.sent := by
  unfold buildPayload
  split
  · split
    · exact ⟨rfl, rfl⟩
    split
    · exact ⟨rfl, rfl⟩
    split <;> exact ⟨rfl, rfl⟩
  · exact ⟨rfl, rfl⟩

theorem handed_of_sent {s s' : Shared σ ν} (h : s'.sent = s.sent) : s'.handed = s.handed := by
  rw [Shared.handed, Shared.handed, h]

theorem sendPacketsLocked_quiet (s : Shared σ ν) (packets : List VersionedGamePacket) :
    (sendPacketsLocked ctx s packets false).Leaves (SameQueue s) Calm := by
  have hbuild := @sameQueue_buildPayload σ ν ctx s packets
  unfold sendPacketsLocked
  split_ifs
  · exact ⟨.refl s, rfl⟩
  · split
    · rename_i hpayload
      rw [hpayload] at hbuild
      exact ⟨hbuild.1, handed_of_sent hbuild.2⟩
    · rename_i s' hpayload
      rw [hpayload] at hbuild
      refine ⟨⟨hbuild.1, ?_⟩, rfl⟩
      rw [← handed_of_sent hbuild.2]
      simp [Shared.handed]

theorem perform_quiet (t : ThreadId) (now : ℕ) (s : Shared σ ν) {i : Instr}
    (hi : isQuiet i = true) : (perform ctx t now s i).Leaves (SameQueue s) Calm := by
  have hsend := calm_sendPackets
  cases i with
  | enqueue | takeQueued | queueLoop | stopQueueLocked => cases hi
  | sendPacketsLocked packets queued =>
      obtain rfl : queued = false := by simpa [isQuiet] using hi
      exact sendPacketsLocked_quiet s packets
  | joinPump =>
      simp only [perform, joinPump]
      repeat' split
      all_goals first | trivial | exact ⟨⟨rfl, rfl⟩, rfl⟩
  | admitClose closeTransport origin =>
      simp only [perform, admitClose]
      split_ifs
      all_goals first | trivial | exact ⟨⟨rfl, rfl⟩, rfl⟩
  | decodeBuffer buffer immediate =>
      simp only [perform]
      split
      · exact .refl s
      · refine ⟨.refl s, .append ?_ ?_⟩
        · split_ifs <;> rfl
        · split_ifs
          · exact hsend _
          · rfl
  | closingReset closeCommitted =>
      simp only [perform, closingReset]
      split_ifs <;> exact ⟨⟨rfl, rfl⟩, rfl⟩
  | resumeQueuePump =>
      simp only [perform, resumeQueuePump]
      split_ifs <;> exact ⟨⟨rfl, rfl⟩, rfl⟩
  | _ =>
      simp only [perform]
      repeat' split
      all_goals first
        | trivial
        | exact ⟨⟨rfl, rfl⟩, rfl⟩
        | exact ⟨⟨rfl, rfl⟩, hsend _⟩
        | exact .refl s

theorem pushChunkRadius_adds {now : ℕ} {s s' : Shared σ ν}
    (h : pushChunkRadius ctx now s = .ok s') :
    ∃ new, s'.queuedPackets = s.queuedPackets ++ new ∧ s'.sent = s.sent := by
  unfold pushChunkRadius at h
  split at h
  · obtain rfl := Except.ok.inj h
    exact ⟨[], (List.append_nil _).symm, rfl⟩
  split at h
  · obtain rfl := Except.ok.inj h
    exact ⟨[], (List.append_nil _).symm, rfl⟩
  · obtain ⟨packet, -, hs'⟩ := bind_eq_ok.mp h
    obtain rfl := Except.ok.inj hs'
    exact ⟨[packet], rfl, rfl⟩

theorem pushKeepAlive_adds {now : ℕ} {s s' : Shared σ ν}
    (h : pushKeepAlive ctx now s = .ok s') :
    ∃ new, s'.queuedPackets = s.queuedPackets ++ new ∧ s'.sent = s.sent := by
  unfold pushKeepAlive at h
  split at h
  · obtain rfl := Except.ok.inj h
    exact ⟨[], (List.append_nil _).symm, rfl⟩
  split at h
  · obtain rfl := Except.ok.inj h
    exact ⟨[], (List.append_nil _).symm, rfl⟩
  · obtain ⟨packet, -, hs'⟩ := bind_eq_ok.mp h
    obtain rfl := Except.ok.inj hs'
    exact ⟨[packet], rfl, rfl⟩

/-- A turn of the loop takes the queue, with what it adds itself, or leaves it. -/
inductive LoopCase (ctx : Context σ ν) (now : ℕ) (s : Shared σ ν) (nextTick : ℕ) : Prop
  | waits (htick : tickQueue ctx now s nextTick = none)
      (hloop : queueLoop ctx now s nextTick = .waits)
  | leaves (s' : Shared σ ν) (instrs : List Instr) (htick : tickQueue ctx now s nextTick = none)
      (hloop : queueLoop ctx now s nextTick = .next s' instrs) (hsame : SameQueue s s')
      (hcalm : Calm instrs)
  | takes (s' : Shared σ ν) (new : List VersionedGamePacket)
      (htick : tickQueue ctx now s nextTick = some (s.queuedPackets ++ new))
      (hloop : queueLoop ctx now s nextTick = .next s' (sendPackets (s.queuedPackets ++ new) true ++
        [.pumpSent, .queueLoop (now + ctx.interval)]))
      (hqueued : s'.queuedPackets = []) (hhanded : s'.handed = s.handed)

theorem loopCase (now : ℕ) (s : Shared σ ν) (nextTick : ℕ) : LoopCase ctx now s nextTick := by
  by_cases hstop : s.stopQueue = true
  · exact .leaves s [] (by simp [tickQueue, hstop]) (by simp [queueLoop, hstop]) (.refl s) rfl
  rw [Bool.not_eq_true] at hstop
  by_cases henabled : s.queuePumpEnabled = true
  · by_cases hnow : now < nextTick
    · exact .waits (by simp [tickQueue, hnow]) (by simp [queueLoop, hstop, henabled, hnow])
    · cases hpush : pushChunkRadius ctx now s >>= pushKeepAlive ctx now with
      | error message =>
          exact .leaves s [.terminate] (by simp [tickQueue, hstop, henabled, hnow, hpush])
            (by simp [queueLoop, hstop, henabled, hnow, hpush]) (.refl s) rfl
      | ok s₂ =>
          obtain ⟨s₁, hchunk, halive⟩ := bind_eq_ok.mp hpush
          obtain ⟨new₁, hqueued₁, hsent₁⟩ := pushChunkRadius_adds hchunk
          obtain ⟨new₂, hqueued₂, hsent₂⟩ := pushKeepAlive_adds halive
          have hqueued : s₂.queuedPackets = s.queuedPackets ++ (new₁ ++ new₂) := by
            rw [hqueued₂, hqueued₁, List.append_assoc]
          refine .takes { s₂ with queuedPackets := [], queuePumpInFlight := true } (new₁ ++ new₂)
            ?_ ?_ rfl (handed_of_sent (hsent₂.trans hsent₁))
          · simp [tickQueue, hstop, henabled, hnow, hpush, hqueued]
          · simp [queueLoop, hstop, henabled, hnow, hpush, hqueued]
  · rw [Bool.not_eq_true] at henabled
    have htick : tickQueue ctx now s nextTick = none := by simp [tickQueue, henabled]
    cases hdue : s.queuePumpResumeDue with
    | none => exact .waits htick (by simp [queueLoop, hstop, henabled, hdue])
    | some resumeDue =>
        by_cases hnow : now < resumeDue
        · exact .waits htick (by simp [queueLoop, hstop, henabled, hdue, hnow])
        · refine .leaves { s with
            queuePumpEnabled := s.queuePumpRequested && !s.closing
            queuePumpResumeDue := none } [.queueLoop nextTick] htick ?_ ⟨rfl, rfl⟩ rfl
          simp [queueLoop, hstop, henabled, hdue, hnow]

/-- A batch that encodes is handed over. -/
theorem sendPacketsLocked_handed {s : Shared σ ν} {packets : List VersionedGamePacket}
    (h : packets = [] ∨ (s.raknet || s.reliableSendOverride) = true ∧
      (buildPayload ctx s packets).1.isOk = true) :
    ∃ s' instrs, sendPacketsLocked ctx s packets true = .next s' instrs ∧
      s'.queuedPackets = s.queuedPackets ∧ s'.handed = s.handed ++ packets ∧ Calm instrs := by
  by_cases hnil : packets = []
  · subst hnil
    exact ⟨s, [], by simp [sendPacketsLocked], rfl, (List.append_nil _).symm, rfl⟩
  obtain hnil' | ⟨htransport, hok⟩ := h
  · exact absurd hnil' hnil
  have hconnected : ¬(packets = [] ∨ (!s.raknet && !s.reliableSendOverride) = true) := by
    rw [← Bool.not_or, htransport]
    simp [hnil]
  have hbuild := @sameQueue_buildPayload σ ν ctx s packets
  obtain ⟨result, hresult⟩ : ∃ result, buildPayload ctx s packets = result := ⟨_, rfl⟩
  obtain ⟨message | payload, s'⟩ := result
  · rw [hresult] at hok
    cases hok
  · rw [hresult] at hbuild
    refine ⟨{ s' with sent := s'.sent ++ [⟨packets, true, payload⟩] }, [.listeners], ?_, hbuild.1,
      ?_, rfl⟩
    · simp only [sendPacketsLocked, if_neg hconnected, hresult]
    · rw [← handed_of_sent hbuild.2]
      simp [Shared.handed]

/-! ## Invariant -/

/-- A thread carries the one batch that it took, or none. -/
inductive Flow (taken : List TakenBatch) (t : ThreadId) (todo : List Instr) : Prop
  | calm (hcalm : Calm todo) (hnone : batchesOf t taken = [])
  | carrying (packets : List VersionedGamePacket) (hcarrying : Carrying packets todo)
      (hone : batchesOf t taken = [(t, packets)])

/-- What was admitted was handed over, is on its way or still queued, in this order. -/
structure Kept (l : Logged σ ν) : Prop where
  accounted : l.state.shared.handed ++ l.history.taken.flatMap Prod.snd ++
    l.state.shared.queuedPackets = l.history.admitted
  flow : ∀ t, Flow l.history.taken t (l.state.todo t)

theorem kept_constructed (compressionAlgorithm : String) (reliableSendOverride : Bool)
    (protoDefVariables : ν) : Kept (σ := σ)
      ⟨constructed compressionAlgorithm reliableSendOverride protoDefVariables, ⟨[], []⟩⟩ where
  accounted := rfl
  flow t := by
    cases t <;> exact .calm rfl rfl

section Invariant

variable {l : Logged σ ν} {t : ThreadId} {now : ℕ} {i : Instr} {rest instrs : List Instr}
  {shared : Shared σ ν} {history : QueueHistory} {packets : List VersionedGamePacket}

theorem Flow.calm_of_head (h : Flow history.taken t (i :: rest))
    (hi : i ≠ .lockSend ∧ (∀ packet, i ≠ .decodePacket packet) ∧ carriesBatch i = false) :
    Calm (i :: rest) ∧ batchesOf t history.taken = [] := by
  cases h with
  | calm hcalm hnone => exact ⟨hcalm, hnone⟩
  | carrying packets hcarrying hone =>
      obtain ⟨j, rest', htodo, hj⟩ := hcarrying.head
      obtain ⟨rfl, rfl⟩ := List.cons.inj htodo
      obtain rfl | ⟨packet, rfl⟩ | rfl := hj
      · exact absurd rfl hi.1
      · exact absurd rfl (hi.2.1 packet)
      · cases hi.2.2

/-- One thread goes on, the others stay. -/
theorem Kept.replace (hk : Kept l)
    (haccounted : shared.handed ++ history.taken.flatMap Prod.snd ++ shared.queuedPackets =
      history.admitted)
    (hself : Flow history.taken t instrs)
    (hothers : ∀ u, u ≠ t → batchesOf u history.taken = batchesOf u l.history.taken) :
    Kept ⟨State.setTodo { l.state with shared } t instrs, history⟩ := by
  refine ⟨haccounted, fun u ↦ ?_⟩
  by_cases hu : u = t
  · subst hu
    rwa [setTodo_self]
  · rw [setTodo_of_ne _ hu]
    cases hk.flow u with
    | calm hcalm hnone => exact .calm hcalm ((hothers u hu).trans hnone)
    | carrying packets hcarrying hone =>
        exact .carrying packets hcarrying ((hothers u hu).trans hone)

/-- The queue and its batches stay as they are. -/
theorem Kept.replace_same (hk : Kept l) (hsame : SameQueue l.state.shared shared)
    (hself : Flow l.history.taken t instrs) :
    Kept ⟨State.setTodo { l.state with shared } t instrs, l.history⟩ := by
  refine hk.replace ?_ hself fun _ _ ↦ rfl
  rw [hsame.handed, hsame.queuedPackets]
  exact hk.accounted

theorem logStep_next (shared : Shared σ ν) (instrs : List Instr) (history : QueueHistory)
    (hterminated : l.state.shared.terminated = false) (htodo : l.state.todo t = i :: rest)
    (hperform : perform ctx t now l.state.shared i = .next shared instrs)
    (hnote : l.history.note ctx l.state (.exec t now) = history) :
    logStep ctx l (.exec t now) =
      ⟨State.setTodo { l.state with shared } t (instrs ++ rest), history⟩ := by
  simp [logStep, step, hterminated, htodo, hperform, hnote]

theorem note_of_quiet (htodo : l.state.todo t = i :: rest) (hi : isQuiet i = true) :
    l.history.note ctx l.state (.exec t now) = l.history := by
  unfold QueueHistory.note
  split_ifs
  · rfl
  · simp only [htodo]
    cases i with
    | enqueue | takeQueued | queueLoop => cases hi
    | sendPacketsLocked packets queued =>
        obtain rfl : queued = false := by simpa [isQuiet] using hi
        rfl
    | _ => rfl

/-- A thread without a batch runs an instruction that is none of the queue's. -/
theorem Kept.exec_quiet (hk : Kept l) (hterminated : l.state.shared.terminated = false)
    (htodo : l.state.todo t = i :: rest) (hcalm : Calm (i :: rest))
    (hnone : batchesOf t l.history.taken = []) (hi : isQuiet i = true) :
    Kept (logStep ctx l (.exec t now)) := by
  have hleaves := @perform_quiet σ ν ctx t now l.state.shared i hi
  have hnote := @note_of_quiet σ ν ctx l t now i rest htodo hi
  cases hperform : perform ctx t now l.state.shared i with
  | waits =>
      have hsame : logStep ctx l (.exec t now) = l := by
        simp [logStep, step, htodo, hperform, hnote]
      rwa [hsame]
  | next shared instrs =>
      rw [hperform] at hleaves
      rw [logStep_next shared instrs l.history hterminated htodo hperform hnote]
      exact hk.replace_same hleaves.1 (.calm (hleaves.2.append hcalm.tail) hnone)
  | throws shared =>
      rw [hperform] at hleaves
      have hstep : logStep ctx l (.exec t now) =
          ⟨State.setTodo { l.state with shared } t (BedrockNetworkClient.unwind true rest),
            l.history⟩ := by
        simp [logStep, step, hterminated, htodo, hperform, hnote]
      rw [hstep]
      exact hk.replace_same hleaves (.calm (hcalm.tail.unwind true) hnone)

/-- What a thread takes comes behind the batches that are on their way. -/
theorem Kept.take (hk : Kept l) (new : List VersionedGamePacket) (hcalm : Calm rest)
    (hnone : batchesOf t l.history.taken = []) (hqueued : shared.queuedPackets = [])
    (hhanded : shared.handed = l.state.shared.handed) (hrest : Calm instrs) :
    Kept ⟨State.setTodo { l.state with shared } t
      (sendPackets (l.state.shared.queuedPackets ++ new) true ++ instrs ++ rest),
      ⟨l.history.admitted ++ new,
        l.history.taken ++ [(t, l.state.shared.queuedPackets ++ new)]⟩⟩ := by
  refine hk.replace ?_ ?_ fun u hu ↦ batchesOf_append_of_ne hu
  · rw [hqueued, hhanded, ← hk.accounted]
    simp
  · rw [List.append_assoc]
    refine .carrying _ (carrying_sendPackets _ (hrest.append hcalm)) ?_
    rw [batchesOf_append_self, hnone]
    rfl

/-- A carrying thread decodes what it sends. -/
theorem logStep_decode (hterminated : l.state.shared.terminated = false)
    {packet : VersionedGamePacket} (htodo : l.state.todo t = .decodePacket packet :: rest)
    (hone : batchesOf t l.history.taken = [(t, packets)]) (horderly : Orderly ctx l (.exec t now)) :
    ∃ protoDefVariables, logStep ctx l (.exec t now) =
      ⟨State.setTodo { l.state with shared := { l.state.shared with protoDefVariables } } t rest,
        l.history⟩ := by
  unfold Orderly orderly at horderly
  simp only [htodo, hone, List.isEmpty_cons, Bool.false_or] at horderly
  cases hdecode : ctx.decodePacket l.state.shared.protoDefVariables packet with
  | error message =>
      rw [hdecode] at horderly
      cases horderly
  | ok protoDefVariables =>
      exact ⟨protoDefVariables, logStep_next _ [] _ hterminated htodo (by simp [perform, hdecode])
        (note_of_quiet htodo rfl)⟩

theorem logStep_lock (hterminated : l.state.shared.terminated = false)
    (htodo : l.state.todo t = .lockSend :: rest) (hmutex : l.state.shared.sendMutex = none) :
    logStep ctx l (.exec t now) =
      ⟨State.setTodo { l.state with shared := { l.state.shared with sendMutex := some t } } t rest,
        l.history⟩ :=
  logStep_next _ [] _ hterminated htodo (by simp [perform, hmutex]) (note_of_quiet htodo rfl)

/-- In its turn a batch that encodes is handed over. -/
theorem logStep_hand (hterminated : l.state.shared.terminated = false)
    (htodo : l.state.todo t = .sendPacketsLocked packets true :: rest)
    (horderly : Orderly ctx l (.exec t now)) :
    (packets = [] ∨ isFirst t l.history.taken = true) ∧
      ∃ shared instrs, Calm instrs ∧ shared.queuedPackets = l.state.shared.queuedPackets ∧
        shared.handed = l.state.shared.handed ++ packets ∧
        logStep ctx l (.exec t now) =
          ⟨State.setTodo { l.state with shared } t (instrs ++ rest),
            { l.history with taken := withoutBatchOf t l.history.taken }⟩ := by
  unfold Orderly orderly at horderly
  simp only [htodo, Bool.or_eq_true, List.isEmpty_iff, Bool.and_eq_true] at horderly
  have hencodes : packets = [] ∨
      (l.state.shared.raknet || l.state.shared.reliableSendOverride) = true ∧
        (buildPayload ctx l.state.shared packets).1.isOk = true := by
    rw [Bool.or_eq_true]
    exact horderly.imp_right And.left
  obtain ⟨shared, instrs, hsend, hqueued, hhanded, hcalm⟩ := sendPacketsLocked_handed hencodes
  refine ⟨horderly.imp_right And.right, shared, instrs, hcalm, hqueued, hhanded,
    logStep_next _ _ _ hterminated htodo hsend ?_⟩
  simp [QueueHistory.note, hterminated, htodo]

theorem Kept.exec_carrying (hk : Kept l) (hterminated : l.state.shared.terminated = false)
    (hcarrying : Carrying packets (l.state.todo t))
    (hone : batchesOf t l.history.taken = [(t, packets)])
    (horderly : Orderly ctx l (.exec t now)) : Kept (logStep ctx l (.exec t now)) := by
  cases hcarrying with
  | decoding decoded rest hrest htodo =>
      cases decoded with
      | nil =>
          rw [List.map_nil, List.nil_append] at htodo
          cases hmutex : l.state.shared.sendMutex with
          | some owner =>
              have hsame : logStep ctx l (.exec t now) = l := by
                simp [logStep, step, QueueHistory.note, hterminated, htodo, perform, hmutex]
              rwa [hsame]
          | none =>
              rw [logStep_lock hterminated htodo hmutex]
              exact hk.replace_same ⟨rfl, rfl⟩ (.carrying packets (.locked rest hrest rfl) hone)
      | cons packet decoded =>
          rw [List.map_cons, List.cons_append] at htodo
          obtain ⟨protoDefVariables, hstep⟩ := logStep_decode hterminated htodo hone horderly
          rw [hstep]
          exact hk.replace_same ⟨rfl, rfl⟩
            (.carrying packets (.decoding decoded rest hrest rfl) hone)
  | locked rest hrest htodo =>
      obtain ⟨hfirst, shared, instrs, hcalm, hqueued, hhanded, hstep⟩ :=
        logStep_hand hterminated htodo horderly
      rw [hstep]
      refine hk.replace ?_ (.calm (hcalm.append hrest) (batchesOf_withoutBatchOf_self hone))
        fun u hu ↦ batchesOf_withoutBatchOf_of_ne hu
      rw [hhanded, hqueued, List.append_assoc l.state.shared.handed,
        flatMap_withoutBatchOf hone hfirst]
      exact hk.accounted

/-- A thread without a batch takes a turn of the loop. -/
theorem Kept.exec_queueLoop (hk : Kept l) (hterminated : l.state.shared.terminated = false)
    {nextTick : ℕ} (htodo : l.state.todo t = .queueLoop nextTick :: rest)
    (hcalm : Calm (.queueLoop nextTick :: rest)) (hnone : batchesOf t l.history.taken = []) :
    Kept (logStep ctx l (.exec t now)) := by
  have hnote : l.history.note ctx l.state (.exec t now) =
      match tickQueue ctx now l.state.shared nextTick with
      | none => l.history
      | some queued =>
          ⟨l.history.admitted ++ queued.drop l.state.shared.queuedPackets.length,
            l.history.taken ++ [(t, queued)]⟩ := by
    simp [QueueHistory.note, hterminated, htodo]
  cases @loopCase σ ν ctx now l.state.shared nextTick with
  | waits htick hloop =>
      have hsame : logStep ctx l (.exec t now) = l := by
        simp [logStep, step, htodo, perform, hloop, hnote, htick]
      rwa [hsame]
  | leaves shared instrs htick hloop hsame hcalm' =>
      rw [htick] at hnote
      rw [logStep_next shared instrs _ hterminated htodo hloop hnote]
      exact hk.replace_same hsame (.calm (hcalm'.append hcalm.tail) hnone)
  | takes shared new htick hloop hqueued hhanded =>
      rw [htick] at hnote
      simp only [List.drop_left] at hnote
      rw [logStep_next shared _ _ hterminated htodo hloop hnote]
      exact hk.take new hcalm.tail hnone hqueued hhanded rfl

theorem Kept.exec (hk : Kept l) (horderly : Orderly ctx l (.exec t now)) :
    Kept (logStep ctx l (.exec t now)) := by
  cases hterminated : l.state.shared.terminated with
  | true =>
      have hsame : logStep ctx l (.exec t now) = l := by
        simp [logStep, step, QueueHistory.note, hterminated]
      rwa [hsame]
  | false =>
      cases htodo : l.state.todo t with
      | nil =>
          have hsame : logStep ctx l (.exec t now) = l := by
            simp [logStep, step, QueueHistory.note, htodo]
          rwa [hsame]
      | cons i rest =>
          cases hk.flow t with
          | carrying packets hcarrying hone =>
              exact hk.exec_carrying hterminated hcarrying hone horderly
          | calm hcalm hnone =>
              rw [htodo] at hcalm
              cases hquiet : isQuiet i with
              | true => exact hk.exec_quiet hterminated htodo hcalm hnone hquiet
              | false =>
                  cases i with
                  | enqueue packet =>
                      have hnote : l.history.note ctx l.state (.exec t now) =
                          { l.history with admitted := l.history.admitted ++ [packet] } := by
                        simp [QueueHistory.note, hterminated, htodo]
                      rw [logStep_next _ [] _ hterminated htodo rfl hnote]
                      refine hk.replace ?_ (.calm hcalm.tail hnone) fun _ _ ↦ rfl
                      rw [← hk.accounted]
                      simp [Shared.handed]
                  | takeQueued =>
                      have hnote : l.history.note ctx l.state (.exec t now) =
                          ⟨l.history.admitted ++ [],
                            l.history.taken ++ [(t, l.state.shared.queuedPackets ++ [])]⟩ := by
                        simp [QueueHistory.note, hterminated, htodo]
                      rw [logStep_next _ _ _ hterminated htodo rfl hnote]
                      have hinstrs : sendPackets l.state.shared.queuedPackets true =
                          sendPackets (l.state.shared.queuedPackets ++ []) true ++ [] := by simp
                      rw [hinstrs]
                      exact hk.take [] hcalm.tail hnone rfl rfl rfl
                  | stopQueueLocked preserve =>
                      unfold Orderly orderly at horderly
                      simp only [htodo, List.isEmpty_iff] at horderly
                      have hnote : l.history.note ctx l.state (.exec t now) = l.history := by
                        simp [QueueHistory.note, htodo]
                      rw [logStep_next _ [] _ hterminated htodo rfl hnote]
                      exact hk.replace_same ⟨horderly.symm, rfl⟩ (.calm hcalm.tail hnone)
                  | sendPacketsLocked packets queued =>
                      have hqueued := hcalm.head
                      rw [carriesBatch] at hqueued
                      rw [isQuiet, hqueued] at hquiet
                      cases hquiet
                  | queueLoop nextTick => exact hk.exec_queueLoop hterminated htodo hcalm hnone
                  | _ => cases hquiet

theorem Kept.step (hk : Kept l) (label : Label) (horderly : Orderly ctx l label) :
    Kept (logStep ctx l label) := by
  cases label with
  | exec t now => exact hk.exec horderly
  | call t call =>
      by_cases happ : (inApplication t (l.state.todo t) && !l.state.shared.terminated) = true
      · have hbody : Calm call.body := by
          cases call with
          | sendPackets packets => exact calm_sendPackets packets
          | _ => rfl
        have hflow : Flow l.history.taken t (call.body ++ l.state.todo t) := by
          cases hk.flow t with
          | calm hcalm hnone => exact .calm (hbody.append hcalm) hnone
          | carrying packets hcarrying hone =>
              obtain ⟨i, rest, htodo, hi⟩ := hcarrying.head
              rw [htodo] at happ
              obtain rfl | ⟨packet, rfl⟩ | rfl := hi <;> cases t <;> cases happ
        have hstep : logStep ctx l (.call t call) =
            ⟨State.setTodo { l.state with shared := l.state.shared } t
              (call.body ++ l.state.todo t), l.history⟩ := by
          simp only [logStep, BedrockNetworkClient.step, happ, if_true]
          rfl
        rw [hstep]
        exact hk.replace_same (.refl _) hflow
      · have hsame : logStep ctx l (.call t call) = l := by
          simp only [logStep, BedrockNetworkClient.step, if_neg happ]
          rfl
        rwa [hsame]
  | throwing t =>
      have hnote : l.history.note ctx l.state (.throwing t) = l.history := rfl
      obtain hs | ⟨t', call, hlabel, -, -⟩ | ⟨t', now, i, rest, instrs, shared, hlabel, -, -, -⟩ |
        ⟨t', now, i, rest, shared, hlabel, -, -, -⟩ | ⟨t', rest, hlabel, htodo, hs⟩ |
        ⟨t', rest, hlabel, htodo, hs⟩ := @stepCase σ ν ctx l.state (.throwing t)
      · have hsame : logStep ctx l (.throwing t) = l := by
          simp only [logStep, hs, hnote]
        rwa [hsame]
      · cases hlabel
      · cases hlabel
      · cases hlabel
      · have hflow := hk.flow t'
        rw [htodo] at hflow
        obtain ⟨hcalm, hnone⟩ := hflow.calm_of_head ⟨by simp, by simp, rfl⟩
        simp only [logStep, hs, hnote]
        exact hk.replace_same (.refl _) (.calm (hcalm.tail.unwind true) hnone)
      · have hflow := hk.flow t'
        rw [htodo] at hflow
        obtain ⟨hcalm, hnone⟩ := hflow.calm_of_head ⟨by simp, by simp, rfl⟩
        simp only [logStep, hs, hnote]
        exact hk.replace_same ⟨rfl, rfl⟩ (.calm (hcalm.tail.unwind true) hnone)

theorem kept_run (hk : Kept l) {labels : List Label}
    (horderly : AllSteps (logStep ctx) (Orderly ctx) l labels) :
    Kept (run (logStep ctx) l labels) :=
  invariant_run (fun _ label hk horderly ↦ hk.step label horderly) hk horderly

end Invariant

/-! ## Delivery -/

section Delivery

variable {l : Logged σ ν} {t : ThreadId} {rest : List Instr} {packets : List VersionedGamePacket}

/-- `sendQueued` on thread `t`, and `n` steps of that thread. -/
def flush (t : ThreadId) (n : ℕ) : List Label :=
  .call t .sendQueued :: List.replicate n (.exec t 0)

/-- The steps of a flush: the queue is taken, the packets that are decoded when they are sent are
decoded, and the batch is handed over under the mutex. -/
def flushSteps (queued : List VersionedGamePacket) : ℕ :=
  (queued.filter isDecodedWhenSent).length + 2 + 1

/-- A carrying thread that goes on alone hands its batch over. -/
theorem run_decoding (decoded : List VersionedGamePacket)
    (hterminated : l.state.shared.terminated = false) (hmutex : l.state.shared.sendMutex = none)
    (htodo : l.state.todo t = decoded.map .decodePacket ++
      .lockSend :: .sendPacketsLocked packets true :: rest)
    (hone : batchesOf t l.history.taken = [(t, packets)])
    (horderly : AllSteps (logStep ctx) (Orderly ctx) l
      (List.replicate (decoded.length + 2) (.exec t 0))) :
    (run (logStep ctx) l (List.replicate (decoded.length + 2) (.exec t 0))).history =
        { l.history with taken := withoutBatchOf t l.history.taken } ∧
      (run (logStep ctx) l (List.replicate (decoded.length + 2) (.exec t 0))).state.shared.queuedPackets =
        l.state.shared.queuedPackets := by
  induction decoded generalizing l with
  | nil =>
      obtain ⟨-, hsecond, -⟩ := horderly
      have hlock := @logStep_lock σ ν ctx l t 0 _ hterminated htodo hmutex
      rw [hlock] at hsecond
      obtain ⟨-, shared, instrs, -, hqueued, -, hhand⟩ := logStep_hand
        (l := ⟨State.setTodo { l.state with shared := { l.state.shared with sendMutex := some t } }
          t (.sendPacketsLocked packets true :: rest), l.history⟩)
        hterminated (setTodo_self _ _ _) hsecond
      have hrun : run (logStep ctx) l (List.replicate 2 (.exec t 0)) =
          logStep ctx (logStep ctx l (.exec t 0)) (.exec t 0) := rfl
      rw [List.length_nil, Nat.zero_add, hrun, hlock, hhand]
      exact ⟨rfl, hqueued⟩
  | cons packet decoded ih =>
      obtain ⟨hfirst, hrest⟩ := horderly
      obtain ⟨protoDefVariables, hdecode⟩ := logStep_decode hterminated htodo hone hfirst
      have hrest : AllSteps (logStep ctx) (Orderly ctx) (logStep ctx l (.exec t 0))
          (List.replicate (decoded.length + 2) (.exec t 0)) := hrest
      have hrun : run (logStep ctx) l (List.replicate ((packet :: decoded).length + 2) (.exec t 0)) =
          run (logStep ctx) (logStep ctx l (.exec t 0))
            (List.replicate (decoded.length + 2) (.exec t 0)) := rfl
      rw [hrun]
      rw [hdecode] at hrest ⊢
      exact ih hterminated hmutex (setTodo_self _ _ _) hone hrest

/-- While no other batch is on its way, a flush that goes on alone hands over
everything that was admitted. -/
theorem Kept.run_flush (hk : Kept l) (hidle : l.state.todo t = []) (ht : ∀ n, t ≠ .pump n)
    (hterminated : l.state.shared.terminated = false) (hmutex : l.state.shared.sendMutex = none)
    (hnone : ∀ batch ∈ l.history.taken, batch.2 = [])
    (hall : AllSteps (logStep ctx) (Orderly ctx) l
      (flush t (flushSteps l.state.shared.queuedPackets))) :
    (run (logStep ctx) l (flush t (flushSteps l.state.shared.queuedPackets))).state.shared.handed =
        l.history.admitted ∧
      (run (logStep ctx) l (flush t (flushSteps l.state.shared.queuedPackets))).history.admitted =
        l.history.admitted := by
  set queued := l.state.shared.queuedPackets with hqueued
  rw [flushSteps] at hall ⊢
  have hkept := kept_run hk hall
  have hmine : batchesOf t l.history.taken = [] := by
    cases hk.flow t with
    | calm hcalm hmine => exact hmine
    | carrying packets hcarrying hone =>
        obtain ⟨i, rest, htodo, -⟩ := hcarrying.head
        rw [hidle] at htodo
        cases htodo
  have hcall : logStep ctx l (.call t .sendQueued) =
      ⟨l.state.setTodo t [.takeQueued], l.history⟩ := by
    have happ : inApplication t [] = true := by
      cases t with
      | pump n => exact absurd rfl (ht n)
      | _ => rfl
    simp [logStep, BedrockNetworkClient.step, QueueHistory.note, hidle, happ, hterminated, Call.body]
  have htake : logStep ctx ⟨l.state.setTodo t [.takeQueued], l.history⟩ (.exec t 0) =
      ⟨State.setTodo { (l.state.setTodo t [.takeQueued]) with
        shared := { l.state.shared with queuedPackets := [] } } t (sendPackets queued true),
        { l.history with taken := l.history.taken ++ [(t, queued)] }⟩ := by
    have hnote : l.history.note ctx (l.state.setTodo t [.takeQueued]) (.exec t 0) =
        { l.history with taken := l.history.taken ++ [(t, queued)] } := by
      simp [QueueHistory.note, hterminated, hqueued]
    rw [logStep_next (l := ⟨l.state.setTodo t [.takeQueued], l.history⟩) _ _ _ hterminated
      (setTodo_self _ _ _) rfl hnote, List.append_nil]
    rfl
  obtain ⟨-, hall⟩ := hall
  rw [hcall] at hall
  obtain ⟨-, hall⟩ := hall
  rw [htake] at hall
  have hone : batchesOf t (l.history.taken ++ [(t, queued)]) = [(t, queued)] := by
    rw [batchesOf_append_self, hmine]
    rfl
  obtain ⟨hhistory, hleft⟩ := run_decoding
    (l := ⟨State.setTodo { (l.state.setTodo t [.takeQueued]) with
      shared := { l.state.shared with queuedPackets := [] } } t (sendPackets queued true),
      { l.history with taken := l.history.taken ++ [(t, queued)] }⟩)
    (queued.filter isDecodedWhenSent) hterminated hmutex (setTodo_self _ _ _) hone hall
  have hrun : run (logStep ctx) l (flush t ((queued.filter isDecodedWhenSent).length + 2 + 1)) =
      run (logStep ctx) (logStep ctx (logStep ctx l (.call t .sendQueued)) (.exec t 0))
        (List.replicate ((queued.filter isDecodedWhenSent).length + 2) (.exec t 0)) := rfl
  rw [hcall, htake] at hrun
  rw [hrun] at hkept ⊢
  have haccounted := hkept.accounted
  rw [hhistory, hleft] at haccounted
  rw [hhistory]
  refine ⟨?_, rfl⟩
  have hempty : l.history.taken.flatMap Prod.snd = [] := List.flatMap_eq_nil_iff.mpr hnone
  rw [withoutBatchOf_append_self hmine, hempty] at haccounted
  simpa using haccounted

/-- What the transport got of the queue. -/
structure QueueDelivered (ctx : Context σ ν) (l : Logged σ ν) : Prop where
  accounted : l.state.shared.handed ++ l.history.taken.flatMap Prod.snd ++
    l.state.shared.queuedPackets = l.history.admitted
  inOrder : l.state.shared.handed <+: l.history.admitted
  /-- Every batch on its way is about to be sent by the thread that took it. -/
  carried : ∀ batch ∈ l.history.taken, Carrying batch.2 (l.state.todo batch.1)
  /-- A flush that goes on while no other batch is on its way delivers everything
  admitted. -/
  drains : ∀ t, (∀ n, t ≠ .pump n) → l.state.todo t = [] → l.state.shared.terminated = false →
    l.state.shared.sendMutex = none → (∀ batch ∈ l.history.taken, batch.2 = []) →
    AllSteps (logStep ctx) (Orderly ctx) l (flush t (flushSteps l.state.shared.queuedPackets)) →
    (run (logStep ctx) l (flush t (flushSteps l.state.shared.queuedPackets))).state.shared.handed =
        l.history.admitted ∧
      (run (logStep ctx) l (flush t (flushSteps l.state.shared.queuedPackets))).history.admitted =
        l.history.admitted

theorem Kept.delivered (hk : Kept l) : QueueDelivered ctx l where
  accounted := hk.accounted
  inOrder := ⟨l.history.taken.flatMap Prod.snd ++ l.state.shared.queuedPackets,
    by rw [← List.append_assoc, hk.accounted]⟩
  carried := by
    rintro ⟨t, packets⟩ hbatch
    have hmem : (t, packets) ∈ batchesOf t l.history.taken := by simp [batchesOf, hbatch]
    cases hk.flow t with
    | calm hcalm hnone =>
        rw [hnone] at hmem
        cases hmem
    | carrying packets' hcarrying hone =>
        rw [hone, List.mem_singleton] at hmem
        obtain ⟨-, rfl⟩ := Prod.mk.inj hmem
        exact hcarrying
  drains t ht hidle hterminated hmutex hnone hall :=
    hk.run_flush hidle ht hterminated hmutex hnone hall

end Delivery

theorem queued_packets_in_order (ctx : Context σ ν) (compressionAlgorithm : String)
    (reliableSendOverride : Bool) (protoDefVariables : ν) (labels : List Label)
    (horderly : AllSteps (logStep ctx) (Orderly ctx)
      ⟨constructed compressionAlgorithm reliableSendOverride protoDefVariables, ⟨[], []⟩⟩ labels) :
    QueueDelivered ctx (run (logStep ctx)
      ⟨constructed compressionAlgorithm reliableSendOverride protoDefVariables, ⟨[], []⟩⟩ labels) :=
  (kept_run (kept_constructed _ _ _) horderly).delivered

/-! ## Two flushers -/

/-- A transport and a running pump. -/
def connecting : List Label :=
  .call (.caller 1) .installTransport :: .exec (.caller 1) 0 ::
    .call (.caller 1) (.startQueue true false) :: List.replicate 7 (.exec (.caller 1) 0) ++
    [.exec (.pump 0) 0]

/-- A packet is queued. -/
def queueing (t : ThreadId) (x : UInt8) : List Label :=
  .call t (.queue "text" (.bytes [x])) :: List.replicate 2 (.exec t 0)

/-- The thread that takes the first packet is overtaken by the pump. -/
def overtaking : List Label :=
  queueing (.caller 1) 1 ++ [.call (.caller 1) .sendQueued, .exec (.caller 1) 0] ++
    queueing (.caller 2) 2 ++ List.replicate 5 (.exec (.pump 0) 20) ++
    List.replicate 2 (.exec (.caller 1) 0)

def freshLog : Logged Unit Unit := ⟨constructed "none" false (), ⟨[], []⟩⟩

theorem queued_packets_in_order_alone :
    (run (logStep textContext) freshLog (connecting ++ queueing (.caller 1) 1 ++
        queueing (.caller 2) 2 ++ flush (.caller 1) 3)).state.shared.handed.length = 2 ∧
      QueueDelivered textContext (run (logStep textContext) freshLog (connecting ++
        queueing (.caller 1) 1 ++ queueing (.caller 2) 2 ++ flush (.caller 1) 3)) :=
  ⟨by decide +kernel,
    queued_packets_in_order textContext "none" false () _ (by decide +kernel)⟩

/-- Packets are queued and flushed, and threads run. -/
def onlyQueues : Label → Bool
  | .call _ (.queue _ _) => true
  | .call _ .sendQueued => true
  | .exec _ _ => true
  | _ => false

theorem queued_packets_overtaken :
    (run (logStep textContext) freshLog (connecting ++ overtaking)).state.shared.handed =
        [VersionedMcpeCodec.textPacket [2], VersionedMcpeCodec.textPacket [1]] ∧
      ¬ ∀ labels : List Label, labels.all onlyQueues = true →
        (run (logStep textContext) freshLog (connecting ++ labels)).state.shared.handed <+:
          (run (logStep textContext) freshLog (connecting ++ labels)).history.admitted := by
  have hhanded : (run (logStep textContext) freshLog (connecting ++ overtaking)).state.shared.handed =
      [VersionedMcpeCodec.textPacket [2], VersionedMcpeCodec.textPacket [1]] := by
    decide +kernel
  have hadmitted : (run (logStep textContext) freshLog (connecting ++ overtaking)).history.admitted =
      [VersionedMcpeCodec.textPacket [1], VersionedMcpeCodec.textPacket [2]] := by
    decide +kernel
  refine ⟨hhanded, fun hall ↦ ?_⟩
  have hprefix := hall overtaking (by decide)
  rw [hhanded, hadmitted] at hprefix
  exact absurd hprefix (by decide)

end BedrockProtocol.BedrockNetworkClient
