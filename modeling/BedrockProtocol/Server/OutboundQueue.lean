import BedrockProtocol.Server.WireSecrecy

/-!
# The outbound queue

Producers append to the queue of a session, flushes take it whole and send it in
batches, and other threads send at once.  A history written down along a run says
what was admitted, what each flush took and what was handed to the transport; as
long as the session stays connected and its batches encode, the queued packets
leave in the order of their admission, each exactly once.
-/

namespace BedrockProtocol.BedrockServer

/-! ## Batches -/

/-- A compression, and the packets sent with it. -/
abbrev Batch := VersionedMcpeCompression × List VersionedGamePacket

def Batch.queued (batch : Batch) : List QueuedPacket :=
  batch.2.map fun packet ↦ ⟨packet, batch.1⟩

/-- The batches hold what was queued, in order. -/
theorem flatMap_batches (queued : List QueuedPacket) :
    (batches queued).flatMap Batch.queued = queued := by
  induction queued with
  | nil => rfl
  | cons first queued ih =>
      obtain ⟨packet, compression⟩ := first
      simp only [batches]
      split
      · rename_i hnil
        rw [hnil] at ih
        simp [Batch.queued, ← ih]
      · rename_i compression' packets rest hcons
        rw [hcons] at ih
        split
        · rename_i hsame
          simp [Batch.queued, ← ih, hsame]
        · simp [Batch.queued, ← ih]

theorem batch_ne_nil {queued : List QueuedPacket} {batch : Batch} (h : batch ∈ batches queued) :
    batch.2 ≠ [] := by
  induction queued with
  | nil => cases h
  | cons first queued ih =>
      obtain ⟨packet, compression⟩ := first
      simp only [batches] at h
      split at h
      · simp_all
      · rename_i compression' packets rest hcons
        rw [hcons] at ih
        split at h
        · rcases List.mem_cons.mp h with rfl | h
          · exact List.cons_ne_nil _ _
          · exact ih (List.mem_cons_of_mem _ h)
        · rcases List.mem_cons.mp h with rfl | h
          · exact List.cons_ne_nil _ _
          · exact ih h

/-- Neighbouring batches differ in their compression. -/
theorem isChain_batches (queued : List QueuedPacket) :
    (batches queued).IsChain fun batch next ↦ batch.1 ≠ next.1 := by
  induction queued with
  | nil => exact .nil
  | cons first queued ih =>
      obtain ⟨packet, compression⟩ := first
      simp only [batches]
      split
      · exact .singleton _
      · rename_i compression' packets rest hcons
        rw [hcons] at ih
        split
        · rename_i hsame
          subst hsame
          cases rest with
          | nil => exact .singleton _
          | cons next rest => exact List.isChain_cons_cons.mpr (List.isChain_cons_cons.mp ih)
        · rename_i hother
          exact List.isChain_cons_cons.mpr ⟨hother, ih⟩

/-! ## Histories -/

/-- What was admitted to the queue, what each flush took from it, the batch of a
flush whose payload is under way, and every payload that was handed over, with the
batch of the queue that it carries. -/
structure History where
  admitted : List QueuedPacket
  flushes : List (List QueuedPacket)
  sending : Option Batch
  sent : List (Option Batch × WirePayload)

namespace History

def empty : History := ⟨[], [], none, []⟩

/-- The batches of the queue that were handed over. -/
def handed (h : History) : List Batch := h.sent.filterMap Prod.fst

variable {σ ν : Type}

/-- What the instruction of a label adds to the history. -/
def note (s : State σ ν) (h : History) : Label → History
  | .exec t =>
      match s.todo t with
      | .enqueue packets compression :: _ =>
          if s.session.status = .disconnected then h
          else { h with admitted := h.admitted ++ packets.map fun packet ↦ ⟨packet, compression⟩ }
      | .takeQueued :: _ =>
          if s.session.status = .disconnected then h
          else { h with flushes := h.flushes ++ [s.session.queuedPackets] }
      | .acquire (.sendPacketsInternal _ packets compression false) :: _ =>
          if (s.session.outboundMutex.lock t).isNone then h
          else { h with sending := some (compression, packets) }
      | .sendReliable payload :: _ =>
          if payload.path = .preCompression then { h with sent := h.sent ++ [(none, payload)] }
          else { h with sent := h.sent ++ [(h.sending, payload)], sending := none }
      | _ => h
  | _ => h

end History

structure Logged (σ ν : Type) where
  state : State σ ν
  history : History

section Logging

variable {σ Key ν : Type} (ctx : Context σ Key ν)

def logStep (l : Logged σ ν) (label : Label) : Logged σ ν :=
  ⟨step ctx l.state label, l.history.note l.state label⟩

/-- The history only watches. -/
theorem run_logStep_state (l : Logged σ ν) (labels : List Label) :
    (run (logStep ctx) l labels).state = run (step ctx) l.state labels := by
  induction labels generalizing l with
  | nil => rfl
  | cons label labels ih => exact ih (logStep ctx l label)

/-- The batch that the label's thread builds, if any, can be encoded. -/
def encodes (s : State σ ν) : Label → Bool
  | .exec t =>
      match s.todo t with
      | .build path packets compression :: _ =>
          match buildPayload ctx s.session path packets compression with
          | .throws _ => false
          | _ => true
      | _ => true
  | _ => true

/-- The session is connected, and its batches encode. -/
def Connected (l : Logged σ ν) (label : Label) : Prop :=
  l.state.session.attached = true ∧ l.state.session.status ≠ .disconnected ∧
    encodes ctx l.state label = true

instance (l : Logged σ ν) (label : Label) : Decidable (Connected ctx l label) :=
  inferInstanceAs (Decidable (_ ∧ _ ∧ _))

end Logging

/-! ## Calm threads -/

/-- Sends a batch of the queue. -/
def Instr.owes : Instr → Bool
  | .enter (.sendPacketsInternal _ _ _ false) => true
  | .acquire (.sendPacketsInternal _ _ _ false) => true
  | _ => false

def Instr.takes : Instr → Bool
  | .takeQueued => true
  | _ => false

/-- Has nothing to do with flushing the queue. -/
def Instr.routine (i : Instr) : Bool := !i.owes && !i.takes

/-- A flush that takes the queue leaves the mutex right after it. -/
def Paired : List Instr → Prop
  | [] => True
  | i :: rest => (i.takes = true → rest.head? = some .unlock) ∧ Paired rest

/-- A thread that sends no batch of the queue. -/
structure Calm (todo : List Instr) : Prop where
  owes : ∀ i ∈ todo, i.owes = false
  paired : Paired todo

theorem Paired.append {xs ys : List Instr} (hxs : Paired xs) (hys : Paired ys) :
    Paired (xs ++ ys) := by
  induction xs with
  | nil => exact hys
  | cons x xs ih =>
      refine ⟨fun htakes ↦ ?_, ih hxs.2⟩
      have hhead := hxs.1 htakes
      cases xs with
      | nil => cases hhead
      | cons y xs => exact hhead

theorem Calm.append {xs ys : List Instr} (hxs : Calm xs) (hys : Calm ys) : Calm (xs ++ ys) where
  owes := by
    intro i hi
    rcases List.mem_append.mp hi with hi | hi
    · exact hxs.owes i hi
    · exact hys.owes i hi
  paired := hxs.paired.append hys.paired

theorem Calm.nil : Calm [] := ⟨nofun, trivial⟩

theorem Calm.rest {i : Instr} {rest : List Instr} (h : Calm (i :: rest)) : Calm rest :=
  ⟨fun j hj ↦ h.owes j (List.mem_cons_of_mem i hj), h.paired.2⟩

theorem calm_of_routine {instrs : List Instr} (h : instrs.all Instr.routine = true) :
    Calm instrs := by
  have hall := List.all_eq_true.mp h
  simp only [Instr.routine, Bool.and_eq_true, Bool.not_eq_true'] at hall
  refine ⟨fun i hi ↦ (hall i hi).1, ?_⟩
  clear h
  induction instrs with
  | nil => trivial
  | cons i instrs ih =>
      refine ⟨fun htakes ↦ ?_, ih fun j hj ↦ hall j (List.mem_cons_of_mem i hj)⟩
      rw [(hall i List.mem_cons_self).2] at htakes
      cases htakes

theorem calm_critical {critical : Critical} (h : (Instr.acquire critical).owes = false) :
    Calm (critical.body ++ [.unlock]) := by
  have hprocess (packets : List VersionedGamePacket) :
      (packets.map Instr.processOutboundPacket).all Instr.routine = true := by
    rw [List.all_map, List.all_eq_true]
    exact fun packet _ ↦ rfl
  cases critical with
  | sendPacketsInternal path packets compression processOutbound =>
      cases processOutbound with
      | true =>
          refine calm_of_routine ?_
          simp only [Critical.body, if_true, List.all_append, hprocess]
          rfl
      | false => cases h
  | queuePackets packets compression =>
      refine calm_of_routine ?_
      simp only [Critical.body, List.all_append, hprocess]
      rfl
  | sendQueued =>
      exact ⟨by simp [Critical.body, Instr.owes], ⟨fun _ ↦ rfl, fun htakes ↦ (by cases htakes), trivial⟩⟩
  | _ => exact calm_of_routine rfl

theorem Calm.unwind {instrs : List Instr} (h : Calm instrs) : Calm (unwind instrs) := by
  fun_induction BedrockServer.unwind instrs with
  | case1 => exact .nil
  | case2 rest => exact h
  | case3 rest ih =>
      have hunlock : Calm [.unlock] := calm_of_routine rfl
      exact hunlock.append (ih h.rest)
  | case4 i rest _ _ ih => exact ih h.rest

theorem Call.calm_body (call : Call) : Calm call.body := by
  refine calm_of_routine ?_
  cases call with
  | sendPackets packets compression =>
      simp only [Call.body, BedrockServer.sendPackets]
      split <;> rfl
  | queuePackets packets compression =>
      simp only [Call.body, BedrockServer.queuePackets]
      split <;> rfl
  | _ => rfl

section Perform

variable {σ Key ν : Type} {ctx : Context σ Key ν} {t : ℕ} {s s' : Session σ ν} {i : Instr}
  {instrs rest : List Instr}

/-- The instructions that the history watches. -/
def Instr.watched : Instr → Bool
  | .enqueue _ _ => true
  | .takeQueued => true
  | .sendReliable _ => true
  | _ => false

theorem dispatchPacket_calm {packet : VersionedGamePacket}
    (h : dispatchPacket ctx s packet = .next s' instrs) : Calm instrs := by
  refine calm_of_routine ?_
  unfold dispatchPacket at h
  repeat' split at h
  all_goals cases h
  all_goals rfl

theorem verifyLoginData_calm {login : LoginPacketData}
    (h : verifyLoginData ctx s login = .next s' instrs) : Calm instrs := by
  refine calm_of_routine ?_
  unfold verifyLoginData at h
  repeat' split at h
  all_goals cases h
  all_goals rfl

/-- Whatever else runs leaves the queue and the wire alone, and sends nothing from
the queue. -/
theorem perform_calm (howes : i.owes = false) (hwatched : i.watched = false)
    (h : perform ctx t s i = .next s' instrs) :
    Calm instrs ∧ s'.queuedPackets = s.queuedPackets ∧ s'.wire = s.wire := by
  cases i with
  | enter critical =>
      cases h
      refine ⟨?_, rfl, rfl⟩
      split
      · refine calm_of_routine ?_
        simp only [List.all_cons, List.all_nil, Bool.and_true, Instr.routine]
        cases critical with
        | sendPacketsInternal path packets compression processOutbound =>
            cases processOutbound with
            | true => rfl
            | false => cases howes
        | _ => rfl
      · exact .nil
  | acquire critical =>
      simp only [perform] at h
      split at h
      · cases h
      · cases h
        exact ⟨calm_critical howes, rfl, rfl⟩
  | build path packets compression =>
      rcases buildPayload_next h with ⟨-, rfl, rfl⟩ |
        ⟨-, stream, packet, out, sender, -, -, rfl, rfl⟩ | ⟨-, rfl, bytes, rfl⟩
      · exact ⟨.nil, rfl, rfl⟩
      · exact ⟨calm_of_routine rfl, rfl, rfl⟩
      · exact ⟨calm_of_routine rfl, rfl, rfl⟩
  | handleBuiltInPacket packet =>
      obtain ⟨rfl, -, -⟩ := dispatchPacket_next h
      exact ⟨dispatchPacket_calm h, rfl, rfl⟩
  | verifyLogin login =>
      obtain ⟨rfl, -, -⟩ := verifyLoginData_next h
      exact ⟨verifyLoginData_calm h, rfl, rfl⟩
  | installKeys verifiedLogin =>
      simp only [perform] at h
      split at h
      · obtain ⟨keys, stream, token, -, rfl, rfl⟩ := installSessionKeys_next h
        exact ⟨calm_of_routine rfl, rfl, rfl⟩
      · cases h
        exact ⟨.nil, rfl, rfl⟩
  | handleResourcePackClientResponse packet =>
      cases h
      refine ⟨calm_of_routine ?_, rfl, rfl⟩
      split
      · unfold answerResourcePacks
        extract_lets status
        repeat' split
        all_goals rfl
      · rfl
  | enqueue | takeQueued | sendReliable => cases hwatched
  | _ =>
      simp only [perform] at h
      repeat' split at h
      all_goals cases h
      all_goals refine ⟨calm_of_routine ?_, rfl, rfl⟩
      all_goals rfl

theorem perform_throws_queue (h : perform ctx t s i = .throws s') :
    s'.queuedPackets = s.queuedPackets ∧ s'.wire = s.wire := by
  cases i with
  | build path packets compression =>
      rcases buildPayload_throws h with rfl | ⟨rfl, -⟩ <;> exact ⟨rfl, rfl⟩
  | installKeys verifiedLogin =>
      simp only [perform] at h
      split at h
      · obtain ⟨keys, stream, has, rfl⟩ := installSessionKeys_throws h
        exact ⟨rfl, rfl⟩
      · cases h
  | handleBuiltInPacket packet =>
      simp only [perform, dispatchPacket] at h
      repeat' split at h
      all_goals cases h
      all_goals exact ⟨rfl, rfl⟩
  | verifyLogin login =>
      simp only [perform, verifyLoginData] at h
      repeat' split at h
      all_goals cases h
  | _ =>
      simp only [perform] at h
      repeat' split at h
      all_goals cases h
      all_goals exact ⟨rfl, rfl⟩

end Perform

/-! ## A flush under way -/

section Flush

variable {σ Key ν : Type}

/-- The payload is what `sendPacketsInternal` builds from the batch. -/
def Builds (ctx : Context σ Key ν) (batch : Batch) (payload : WirePayload) : Prop :=
  ∃ s s', buildPayload ctx s .packets batch.2 batch.1 = .next s' [.checkWritable payload]

/-- The critical section of `sendPacketsInternal` for a batch of the queue. -/
def flushCritical (batch : Batch) : Critical := .sendPacketsInternal .packets batch.2 batch.1 false

/-- What a flush does after the batch that it is sending: the other batches, and
the end of its own scope. -/
def flushRest (owed : List Batch) (rest : List Instr) : List Instr :=
  owed.map sendBatch ++ .unlock :: rest

/-- A thread in the middle of a flush: the batch under way, the batches that are not
handed over yet, and how many steps are left. -/
inductive Flushing (ctx : Context σ Key ν) : Option Batch → List Batch → ℕ → List Instr → Prop
  | between {owed : List Batch} {rest : List Instr} (hrest : Calm rest) :
      Flushing ctx none owed (6 * owed.length + 1) (flushRest owed rest)
  | acquiring {batch : Batch} {owed : List Batch} {rest : List Instr} (hrest : Calm rest) :
      Flushing ctx none (batch :: owed) (6 * owed.length + 6)
        (.acquire (flushCritical batch) :: flushRest owed rest)
  | building {batch : Batch} {owed : List Batch} {rest : List Instr} (hrest : Calm rest) :
      Flushing ctx (some batch) (batch :: owed) (6 * owed.length + 5)
        (.build .packets batch.2 batch.1 :: .unlock :: flushRest owed rest)
  | checking {batch : Batch} {owed : List Batch} {rest : List Instr} {payload : WirePayload}
      (hrest : Calm rest) (hpath : payload.path = .packets) (hbuilt : Builds ctx batch payload) :
      Flushing ctx (some batch) (batch :: owed) (6 * owed.length + 4)
        (.checkWritable payload :: .unlock :: flushRest owed rest)
  | sending {batch : Batch} {owed : List Batch} {rest : List Instr} {payload : WirePayload}
      (hrest : Calm rest) (hpath : payload.path = .packets) (hbuilt : Builds ctx batch payload) :
      Flushing ctx (some batch) (batch :: owed) (6 * owed.length + 3)
        (.sendReliable payload :: .unlock :: flushRest owed rest)
  | leaving {owed : List Batch} {rest : List Instr} (hrest : Calm rest) :
      Flushing ctx none owed (6 * owed.length + 2) (.unlock :: flushRest owed rest)

variable {ctx : Context σ Key ν} {sending : Option Batch} {owed : List Batch}
  {todo rest instrs : List Instr} {n t u : ℕ} {i : Instr}

theorem unlock_mem_flushRest : .unlock ∈ flushRest owed rest :=
  List.mem_append_right _ List.mem_cons_self

/-- A flush runs inside the mutex. -/
theorem Flushing.unlock_mem (h : Flushing ctx sending owed n todo) : .unlock ∈ todo := by
  cases h with
  | between => exact unlock_mem_flushRest
  | acquiring => exact List.mem_cons_of_mem _ unlock_mem_flushRest
  | building => exact List.mem_cons_of_mem _ List.mem_cons_self
  | checking => exact List.mem_cons_of_mem _ List.mem_cons_self
  | sending => exact List.mem_cons_of_mem _ List.mem_cons_self
  | leaving => exact List.mem_cons_self

theorem Flushing.pos (h : Flushing ctx sending owed n todo) : 0 < n := by
  cases h <;> omega

/-- It never runs code of the application. -/
theorem Flushing.not_inApplication (h : Flushing ctx sending owed n todo) :
    inApplication t todo = false := by
  cases h with
  | between =>
      cases owed <;> rfl
  | _ => rfl

/-- The flushes and what was handed over agree: no thread is flushing, or one is,
and it still owes what is missing. -/
inductive Flow (ctx : Context σ Key ν) (h : History) (todo : ℕ → List Instr) : Prop
  | idle (hsending : h.sending = none) (hcalm : ∀ u, Calm (todo u))
      (hhanded : h.handed = h.flushes.flatMap batches)
  | flushing (t : ℕ) (owed : List Batch) (n : ℕ)
      (hflush : Flushing ctx h.sending owed n (todo t))
      (hcalm : ∀ u, u ≠ t → Calm (todo u))
      (hhanded : h.handed ++ owed = h.flushes.flatMap batches)

/-- The same, seen from a thread that is not the flushing one. -/
inductive Outside (ctx : Context σ Key ν) (h : History) (todo : ℕ → List Instr) (u : ℕ) : Prop
  | idle (hsending : h.sending = none) (hcalm : ∀ v, Calm (todo v))
      (hhanded : h.handed = h.flushes.flatMap batches)
  | other (t : ℕ) (hne : u ≠ t) (owed : List Batch) (n : ℕ)
      (hflush : Flushing ctx h.sending owed n (todo t))
      (hcalm : ∀ v, v ≠ t → Calm (todo v))
      (hhanded : h.handed ++ owed = h.flushes.flatMap batches)

variable {h h' : History} {todos : ℕ → List Instr}

theorem Flow.cases_at (hflow : Flow ctx h todos) (u : ℕ) :
    Outside ctx h todos u ∨ ∃ owed n, Flushing ctx h.sending owed n (todos u) ∧
      (∀ v, v ≠ u → Calm (todos v)) ∧ h.handed ++ owed = h.flushes.flatMap batches := by
  cases hflow with
  | idle hsending hcalm hhanded => exact .inl (.idle hsending hcalm hhanded)
  | flushing t owed n hflush hcalm hhanded =>
      by_cases hu : u = t
      · subst hu
        exact .inr ⟨owed, n, hflush, hcalm, hhanded⟩
      · exact .inl (.other t hu owed n hflush hcalm hhanded)

theorem Flow.outside (hflow : Flow ctx h todos)
    (hnot : ∀ owed n, ¬ Flushing ctx h.sending owed n (todos u)) : Outside ctx h todos u := by
  rcases hflow.cases_at u with hout | ⟨owed, n, hflush, -⟩
  · exact hout
  · exact absurd hflush (hnot owed n)

theorem Outside.calm (hout : Outside ctx h todos u) : Calm (todos u) := by
  cases hout with
  | idle _ hcalm => exact hcalm u
  | other t hne _ _ _ hcalm => exact hcalm u hne

/-- The thread goes on with something calm. -/
theorem Outside.replace (hout : Outside ctx h todos u) (hinstrs : Calm instrs)
    (hsending : h'.sending = h.sending) (hhanded : h'.handed = h.handed)
    (hflushes : h'.flushes = h.flushes) :
    Flow ctx h' (Function.update todos u instrs) := by
  have hupdate {v : ℕ} (hv : Calm (todos v)) : Calm (Function.update todos u instrs v) := by
    by_cases hvu : v = u
    · rwa [hvu, Function.update_self]
    · rwa [Function.update_of_ne hvu]
  cases hout with
  | idle hnone hcalm hall =>
      refine .idle (hsending.trans hnone) (fun v ↦ hupdate (hcalm v)) ?_
      rw [hhanded, hall, hflushes]
  | other t hne owed n hflush hcalm hall =>
      refine .flushing t owed n ?_ (fun v hv ↦ hupdate (hcalm v hv)) ?_
      · rwa [hsending, Function.update_of_ne hne.symm]
      · rw [hhanded, hall, hflushes]

/-- The history agrees with the session: what is on the wire, what is queued, what
the payloads were built from, and how far the flushes are. -/
structure Kept (ctx : Context σ Key ν) (l : Logged σ ν) : Prop where
  disciplined : Disciplined l.state
  wire : l.history.sent.map Prod.snd = l.state.session.wire
  queue : l.history.flushes.flatten ++ l.state.session.queuedPackets = l.history.admitted
  built : ∀ batch payload, (some batch, payload) ∈ l.history.sent → Builds ctx batch payload
  flow : Flow ctx l.history l.state.todo

theorem kept_opened (compressor : CompressorOptions) (protoDefVariables : ν) :
    Kept ctx ⟨opened compressor protoDefVariables, .empty⟩ where
  disciplined := disciplined_opened compressor protoDefVariables
  wire := rfl
  queue := rfl
  built := nofun
  flow := by
    refine .idle rfl (fun u ↦ ?_) rfl
    by_cases hu : u = worker
    · subst hu
      exact calm_of_routine rfl
    · simpa [opened, hu] using Calm.nil

variable {l : Logged σ ν} {s : State σ ν} {session : Session σ ν}

/-- Two threads are not inside the mutex together. -/
theorem Disciplined.eq_of_unlock_mem (hd : Disciplined s) (ht : .unlock ∈ s.todo t)
    (hu : .unlock ∈ s.todo u) : t = u := by
  have hinside {v : ℕ} (hv : .unlock ∈ s.todo v) : 0 < s.session.outboundMutex.depth v := by
    rw [← (hd v).count, List.countP_pos_iff]
    exact ⟨_, hv, rfl⟩
  by_contra hne
  have hzero := RecursiveMutex.depth_eq_zero_of_pos (hinside ht) (Ne.symm hne)
  have hpos := hinside hu
  omega

/-- A thread inside the mutex other than the flushing one: there is none. -/
theorem Outside.idle_of_unlock_mem (hout : Outside ctx h s.todo u) (hd : Disciplined s)
    (hu : .unlock ∈ s.todo u) :
    h.sending = none ∧ (∀ v, Calm (s.todo v)) ∧ h.handed = h.flushes.flatMap batches := by
  cases hout with
  | idle hsending hcalm hhanded => exact ⟨hsending, hcalm, hhanded⟩
  | other t hne owed n hflush => exact absurd (hd.eq_of_unlock_mem hu hflush.unlock_mem) hne

/-- What the history does not watch leaves it as it is. -/
theorem note_of_not_watched (htodo : s.todo t = i :: rest) (howes : i.owes = false)
    (hwatched : i.watched = false) : h.note s (.exec t) = h := by
  simp only [History.note, htodo]
  cases i with
  | acquire critical =>
      cases critical with
      | sendPacketsInternal path packets compression processOutbound =>
          cases processOutbound with
          | true => rfl
          | false => cases howes
      | _ => rfl
  | enqueue | takeQueued | sendReliable => cases hwatched
  | _ => rfl

/-- A thread that is not flushing takes a step that the history does not watch. -/
theorem Kept.exec_routine (hk : Kept ctx l) (htodo : l.state.todo t = i :: rest)
    (hout : Outside ctx l.history l.state.todo t)
    (hwatched : i.watched = false) : Kept ctx (logStep ctx l (.exec t)) := by
  have hcalm : Calm (i :: rest) := htodo ▸ hout.calm
  have howes := hcalm.owes i List.mem_cons_self
  have hnote : l.history.note l.state (.exec t) = l.history :=
    note_of_not_watched htodo howes hwatched
  refine ⟨disciplined_step hk.disciplined _, ?_, ?_, ?_, ?_⟩ <;> simp only [logStep, hnote]
  · rw [hk.wire]
    simp only [step, htodo]
    cases hp : perform ctx t l.state.session i with
    | waits => rfl
    | next session instrs => exact (perform_calm howes hwatched hp).2.2.symm
    | throws session => exact (perform_throws_queue hp).2.symm
  · rw [← hk.queue]
    simp only [step, htodo]
    cases hp : perform ctx t l.state.session i with
    | waits => rfl
    | next session instrs =>
        exact congrArg (l.history.flushes.flatten ++ ·) (perform_calm howes hwatched hp).2.1
    | throws session =>
        exact congrArg (l.history.flushes.flatten ++ ·) (perform_throws_queue hp).1
  · exact hk.built
  · simp only [step, htodo]
    cases hp : perform ctx t l.state.session i with
    | waits => exact hk.flow
    | next session instrs =>
        exact hout.replace ((perform_calm howes hwatched hp).1.append hcalm.rest) rfl rfl rfl
    | throws session => exact hout.replace hcalm.rest.unwind rfl rfl rfl

theorem Kept.exec_enqueue {packets : List VersionedGamePacket}
    {compression : VersionedMcpeCompression} (hk : Kept ctx l)
    (htodo : l.state.todo t = .enqueue packets compression :: rest)
    (hout : Outside ctx l.history l.state.todo t) :
    Kept ctx (logStep ctx l (.exec t)) := by
  have hcalm : Calm (.enqueue packets compression :: rest) := htodo ▸ hout.calm
  by_cases hstatus : l.state.session.status = .disconnected
  · refine ⟨disciplined_step hk.disciplined _, ?_, ?_, ?_, ?_⟩ <;>
      simp only [logStep, History.note, step, htodo, perform, hstatus, if_true]
    · exact hk.wire
    · exact hk.queue
    · exact hk.built
    · exact hout.replace hcalm.rest rfl rfl rfl
  · refine ⟨disciplined_step hk.disciplined _, ?_, ?_, ?_, ?_⟩ <;>
      simp only [logStep, History.note, step, htodo, perform, hstatus, if_false]
    · exact hk.wire
    · rw [← hk.queue, List.append_assoc]
      rfl
    · exact hk.built
    · exact hout.replace hcalm.rest rfl rfl rfl

/-- A flush takes the queue, and owes its batches from then on. -/
theorem Kept.exec_takeQueued (hk : Kept ctx l) (htodo : l.state.todo t = .takeQueued :: rest)
    (hout : Outside ctx l.history l.state.todo t)
    (hstatus : l.state.session.status ≠ .disconnected) :
    Kept ctx (logStep ctx l (.exec t)) ∧
      (logStep ctx l (.exec t)).history.admitted = l.history.admitted ∧
      (logStep ctx l (.exec t)).state.session.queuedPackets = [] ∧
      (∀ u, u ≠ t → Calm ((logStep ctx l (.exec t)).state.todo u)) ∧
      ∃ owed n, n = 6 * (batches l.state.session.queuedPackets).length + 1 ∧
        Flushing ctx (logStep ctx l (.exec t)).history.sending owed n
          ((logStep ctx l (.exec t)).state.todo t) ∧
        (logStep ctx l (.exec t)).history.handed ++ owed =
          (logStep ctx l (.exec t)).history.flushes.flatMap batches := by
  have hcalm : Calm (.takeQueued :: rest) := htodo ▸ hout.calm
  obtain ⟨after, rfl⟩ : ∃ after, rest = .unlock :: after := by
    have hhead := hcalm.paired.1 rfl
    cases rest with
    | nil => cases hhead
    | cons j after =>
        obtain rfl : j = .unlock := Option.some.inj hhead
        exact ⟨after, rfl⟩
  have hinside : .unlock ∈ l.state.todo t := by simp [htodo]
  obtain ⟨hsending, hall, hhanded⟩ := hout.idle_of_unlock_mem hk.disciplined hinside
  have hdisciplined : Disciplined (logStep ctx l (.exec t)).state :=
    disciplined_step hk.disciplined _
  have hl : logStep ctx l (.exec t) =
      ⟨⟨{ l.state.session with queuedPackets := [] }, Function.update l.state.todo t
          (flushRest (batches l.state.session.queuedPackets) after)⟩,
        { l.history with flushes := l.history.flushes ++ [l.state.session.queuedPackets] }⟩ := by
    simp only [logStep, History.note, step, htodo, perform, hstatus, if_false]
    rfl
  rw [hl] at hdisciplined ⊢
  have hothers : ∀ u, u ≠ t → Calm (Function.update l.state.todo t
      (flushRest (batches l.state.session.queuedPackets) after) u) := by
    intro u hu
    rw [Function.update_of_ne hu]
    exact hall u
  have hflush : Flushing ctx l.history.sending (batches l.state.session.queuedPackets)
      (6 * (batches l.state.session.queuedPackets).length + 1)
      (Function.update l.state.todo t
        (flushRest (batches l.state.session.queuedPackets) after) t) := by
    rw [Function.update_self, hsending]
    exact .between hcalm.rest.rest
  have howed : l.history.handed ++ batches l.state.session.queuedPackets =
      (l.history.flushes ++ [l.state.session.queuedPackets]).flatMap batches := by
    rw [hhanded, List.flatMap_append, List.flatMap_singleton]
  have hqueue : (l.history.flushes ++ [l.state.session.queuedPackets]).flatten ++ [] =
      l.history.admitted := by
    rw [← hk.queue]
    simp
  exact ⟨⟨hdisciplined, hk.wire, hqueue, hk.built, .flushing t _ _ hflush hothers howed⟩, rfl, rfl,
    hothers, _, _, rfl, hflush, howed⟩

/-- A payload that is not from the queue is handed over. -/
theorem Kept.exec_sendReliable {payload : WirePayload} (hk : Kept ctx l)
    (htodo : l.state.todo t = .sendReliable payload :: rest)
    (hout : Outside ctx l.history l.state.todo t) :
    Kept ctx (logStep ctx l (.exec t)) := by
  have hcalm : Calm (.sendReliable payload :: rest) := htodo ▸ hout.calm
  have hsent : ∃ history, l.history.note l.state (.exec t) = history ∧
      history.sent = l.history.sent ++ [(none, payload)] ∧
      history.sending = l.history.sending ∧ history.flushes = l.history.flushes ∧
      history.admitted = l.history.admitted := by
    simp only [History.note, htodo]
    split
    · exact ⟨_, rfl, rfl, rfl, rfl, rfl⟩
    · rename_i hpath
      have hguarded := (hk.disciplined t).guarded
      rw [htodo] at hguarded
      have hinside : .unlock ∈ l.state.todo t := by
        rw [htodo]
        exact List.mem_cons_of_mem _ (hguarded.1 (by simp [Instr.locked, hpath]))
      obtain ⟨hsending, -, -⟩ := hout.idle_of_unlock_mem hk.disciplined hinside
      exact ⟨_, rfl, by rw [hsending], hsending.symm, rfl, rfl⟩
  obtain ⟨history, hnote, hentry, hsending, hflushes, hadmitted⟩ := hsent
  have hhanded : history.handed = l.history.handed := by
    simp [History.handed, hentry]
  refine ⟨disciplined_step hk.disciplined _, ?_, ?_, ?_, ?_⟩ <;>
    simp only [logStep, hnote, step, htodo, perform]
  · simp [hentry, hk.wire, State.setTodo]
  · rw [hflushes, hadmitted, ← hk.queue]
    rfl
  · intro batch other hmem
    refine hk.built batch other ?_
    simpa [hentry] using hmem
  · exact hout.replace hcalm.rest hsending hhanded hflushes

/-- What the flushing thread has become after `n` steps of what it had left: done,
or still flushing. -/
def Advanced (ctx : Context σ Key ν) (t n : ℕ) (l l' : Logged σ ν) : Prop :=
  l'.history.flushes = l.history.flushes ∧ l'.history.admitted = l.history.admitted ∧
    (∀ u, u ≠ t → Calm (l'.state.todo u)) ∧
    ((n = 1 ∧ l'.history.handed = l'.history.flushes.flatMap batches) ∨
      ∃ owed n', n = n' + 1 ∧ Flushing ctx l'.history.sending owed n' (l'.state.todo t) ∧
        l'.history.handed ++ owed = l'.history.flushes.flatMap batches)

/-- The flushing thread goes on, or is done. -/
theorem Kept.flush_step {history : History} (hk : Kept ctx l)
    (hcalm : ∀ u, u ≠ t → Calm (l.state.todo u)) (htodo : l.state.todo t = i :: rest)
    (hperform : perform ctx t l.state.session i = .next session instrs)
    (hnote : l.history.note l.state (.exec t) = history)
    (hwire : history.sent.map Prod.snd = session.wire)
    (hqueued : session.queuedPackets = l.state.session.queuedPackets)
    (hsame : history.flushes = l.history.flushes ∧ history.admitted = l.history.admitted)
    (hbuilt : ∀ batch payload, (some batch, payload) ∈ history.sent → Builds ctx batch payload)
    (hnext : (n = 1 ∧ history.sending = none ∧ Calm (instrs ++ rest) ∧
        history.handed = l.history.flushes.flatMap batches) ∨
      ∃ owed n', n = n' + 1 ∧ Flushing ctx history.sending owed n' (instrs ++ rest) ∧
        history.handed ++ owed = l.history.flushes.flatMap batches) :
    Kept ctx (logStep ctx l (.exec t)) ∧ Advanced ctx t n l (logStep ctx l (.exec t)) := by
  have hstep : step ctx l.state (.exec t) =
      State.setTodo { l.state with session } t (instrs ++ rest) := by
    simp only [step, htodo, hperform]
  have hothers : ∀ u, u ≠ t → Calm (Function.update l.state.todo t (instrs ++ rest) u) := by
    intro u hu
    rw [Function.update_of_ne hu]
    exact hcalm u hu
  have hl : logStep ctx l (.exec t) =
      ⟨⟨session, Function.update l.state.todo t (instrs ++ rest)⟩, history⟩ := by
    simp only [logStep, hnote, hstep, State.setTodo]
  have hdisciplined : Disciplined (logStep ctx l (.exec t)).state :=
    disciplined_step hk.disciplined _
  rw [hl] at hdisciplined ⊢
  have hqueue : history.flushes.flatten ++ session.queuedPackets = history.admitted := by
    rw [hqueued, hsame.1, hsame.2, hk.queue]
  rcases hnext with ⟨hn, hsending, hnext, hhanded⟩ | ⟨owed, n', hn, hflush, hhanded⟩
  · refine ⟨⟨hdisciplined, hwire, hqueue, hbuilt, .idle hsending (fun u ↦ ?_) ?_⟩, hsame.1,
      hsame.2, hothers, .inl ⟨hn, ?_⟩⟩
    · by_cases hu : u = t
      · simpa [hu] using hnext
      · exact hothers u hu
    · rw [hhanded, hsame.1]
    · rw [hhanded, hsame.1]
  · have hhere : Flushing ctx history.sending owed n'
        (Function.update l.state.todo t (instrs ++ rest) t) := by
      rwa [Function.update_self]
    refine ⟨⟨hdisciplined, hwire, hqueue, hbuilt, .flushing t owed n' hhere hothers ?_⟩, hsame.1,
      hsame.2, hothers, .inr ⟨owed, n', hn, hhere, ?_⟩⟩
    · rw [hhanded, hsame.1]
    · rw [hhanded, hsame.1]

/-- The thread that is inside can enter once more. -/
theorem Disciplined.lock_isSome (hd : Disciplined s) (ht : .unlock ∈ s.todo t) :
    ∃ m, s.session.outboundMutex.lock t = some m := by
  have hinside : 0 < s.session.outboundMutex.depth t := by
    rw [← (hd t).count, List.countP_pos_iff]
    exact ⟨_, ht, rfl⟩
  cases hm : s.session.outboundMutex with
  | free =>
      rw [hm] at hinside
      cases hinside
  | held owner extra =>
      have howner : owner = t := by
        by_contra hother
        simp [hm, RecursiveMutex.depth, hother] at hinside
      exact ⟨_, by rw [RecursiveMutex.lock, if_pos howner]⟩

/-- In a connected session a batch that encodes becomes a payload. -/
theorem perform_build {packets : List VersionedGamePacket}
    {compression : VersionedMcpeCompression}
    (htodo : s.todo t = .build .packets packets compression :: rest)
    (hstatus : s.session.status ≠ .disconnected) (hencodes : encodes ctx s (.exec t) = true) :
    ∃ session payload, buildPayload ctx s.session .packets packets compression =
        .next session [.checkWritable payload] ∧
      payload.path = .packets ∧ session.queuedPackets = s.session.queuedPackets ∧
      session.wire = s.session.wire := by
  simp only [encodes, htodo] at hencodes
  cases hp : buildPayload ctx s.session .packets packets compression with
  | waits =>
      unfold buildPayload at hp
      repeat' split at hp
      all_goals cases hp
  | throws session =>
      rw [hp] at hencodes
      cases hencodes
  | next session instrs =>
      rcases buildPayload_next hp with ⟨hdisconnected, -, -⟩ |
        ⟨-, stream, packet, out, sender, -, -, rfl, rfl⟩ | ⟨-, rfl, bytes, rfl⟩
      · exact absurd hdisconnected hstatus
      · exact ⟨_, _, rfl, rfl, rfl, rfl⟩
      · exact ⟨_, _, rfl, rfl, rfl, rfl⟩

theorem Kept.exec_flushing (hk : Kept ctx l)
    (hflush : Flushing ctx l.history.sending owed n (l.state.todo t))
    (hcalm : ∀ u, u ≠ t → Calm (l.state.todo u))
    (hhanded : l.history.handed ++ owed = l.history.flushes.flatMap batches)
    (hconnected : Connected ctx l (.exec t)) :
    Kept ctx (logStep ctx l (.exec t)) ∧ Advanced ctx t n l (logStep ctx l (.exec t)) := by
  obtain ⟨hattached, hstatus, hencodes⟩ := hconnected
  have hinside := hflush.unlock_mem
  generalize hsending : l.history.sending = sending at hflush
  generalize htodo : l.state.todo t = todo at hflush
  cases hflush with
  | between hrest =>
      cases owed with
      | nil =>
          refine hk.flush_step hcalm htodo rfl (by simp only [History.note, htodo, flushRest]; rfl)
            hk.wire rfl ⟨rfl, rfl⟩ hk.built (.inl ⟨rfl, hsending, hrest, ?_⟩)
          rw [← hhanded, List.append_nil]
      | cons batch owed =>
          have hperform : perform ctx t l.state.session (sendBatch batch) =
              .next l.state.session [.acquire (flushCritical batch)] := by
            simp only [sendBatch, perform, hattached, if_true]
            rfl
          refine hk.flush_step hcalm htodo hperform (by simp only [History.note, htodo]; rfl)
            hk.wire rfl ⟨rfl, rfl⟩ hk.built (.inr ⟨_, _, rfl, ?_, hhanded⟩)
          rw [hsending]
          exact .acquiring hrest
  | @acquiring batch owed rest hrest =>
      obtain ⟨m, hlock⟩ := hk.disciplined.lock_isSome hinside
      have hperform : perform ctx t l.state.session (.acquire (flushCritical batch)) =
          .next { l.state.session with outboundMutex := m }
            [.build .packets batch.2 batch.1, .unlock] := by
        simp only [perform, hlock]
        rfl
      have hnote : l.history.note l.state (.exec t) =
          { l.history with sending := some batch } := by
        simp only [History.note, htodo, flushCritical, hlock]
        rfl
      exact hk.flush_step hcalm htodo hperform hnote hk.wire rfl ⟨rfl, rfl⟩ hk.built
        (.inr ⟨_, _, rfl, .building hrest, hhanded⟩)
  | @building batch owed rest hrest =>
      obtain ⟨session, payload, hbuild, hpath, hqueued, hwire⟩ :=
        perform_build htodo hstatus hencodes
      refine hk.flush_step hcalm htodo hbuild (by simp only [History.note, htodo])
        (hk.wire.trans hwire.symm) hqueued ⟨rfl, rfl⟩ hk.built (.inr ⟨_, _, rfl, ?_, hhanded⟩)
      rw [hsending]
      exact .checking hrest hpath ⟨_, _, hbuild⟩
  | @checking batch owed rest payload hrest hpath hbuilt =>
      have hwritable : l.state.session.hasWritablePlayer = true := by
        simp [Session.hasWritablePlayer, hattached, hstatus]
      have hperform : perform ctx t l.state.session (.checkWritable payload) =
          .next l.state.session [.sendReliable payload] := by
        simp only [perform, hwritable, if_true]
      refine hk.flush_step hcalm htodo hperform (by simp only [History.note, htodo])
        hk.wire rfl ⟨rfl, rfl⟩ hk.built (.inr ⟨_, _, rfl, ?_, hhanded⟩)
      rw [hsending]
      exact .sending hrest hpath hbuilt
  | @sending batch owed rest payload hrest hpath hbuilt =>
      have hnote : l.history.note l.state (.exec t) = { l.history with
          sent := l.history.sent ++ [(some batch, payload)], sending := none } := by
        simp [History.note, htodo, hpath, hsending]
      refine hk.flush_step hcalm htodo rfl hnote ?_ rfl ⟨rfl, rfl⟩ ?_
        (.inr ⟨owed, _, rfl, .leaving hrest, ?_⟩)
      · simp [hk.wire]
      · intro other sent hmem
        rcases List.mem_append.mp hmem with hmem | hmem
        · exact hk.built other sent hmem
        · obtain ⟨rfl, rfl⟩ : other = batch ∧ sent = payload := by simpa using hmem
          exact hbuilt
      · rw [← hhanded]
        simp [History.handed]
  | leaving hrest =>
      refine hk.flush_step hcalm htodo rfl (by simp only [History.note, htodo])
        hk.wire rfl ⟨rfl, rfl⟩ hk.built (.inr ⟨owed, _, rfl, ?_, hhanded⟩)
      rw [hsending]
      exact .between hrest

/-- A label of another kind: the threads that are not flushing may start on
something calm, the rest stays as it is. -/
theorem Kept.replace {session : Session σ ν} (hk : Kept ctx l) {label : Label}
    (hnote : l.history.note l.state label = l.history)
    (hstep : step ctx l.state label = State.setTodo { l.state with session } t todo)
    (hqueued : session.queuedPackets = l.state.session.queuedPackets)
    (hwire : session.wire = l.state.session.wire)
    (hout : Outside ctx l.history l.state.todo t)
    (hcalm : Calm (l.state.todo t) → Calm todo) : Kept ctx (logStep ctx l label) := by
  refine ⟨disciplined_step hk.disciplined _, ?_, ?_, ?_, ?_⟩ <;>
    simp only [logStep, hnote, hstep, State.setTodo]
  · rw [hwire, hk.wire]
  · rw [hqueued, hk.queue]
  · exact hk.built
  · exact hout.replace (hcalm (hout.calm)) rfl rfl rfl

/-- Nothing happens. -/
theorem Kept.same (hk : Kept ctx l) {label : Label}
    (hnote : l.history.note l.state label = l.history) (hstep : step ctx l.state label = l.state) :
    Kept ctx (logStep ctx l label) := by
  simp only [logStep, hnote, hstep]
  exact hk

theorem not_flushing_nil : ¬ Flushing ctx sending owed n [] :=
  fun h ↦ nomatch h.unlock_mem

theorem not_flushing_takeQueued : ¬ Flushing ctx sending owed n (.takeQueued :: rest) := by
  intro hflush
  generalize htodo : Instr.takeQueued :: rest = todo at hflush
  cases hflush with
  | between => cases owed <;> cases htodo
  | _ => cases htodo

theorem not_flushing_of_inApplication (h : inApplication t todo = true) :
    ¬ Flushing ctx sending owed n todo := by
  intro hflush
  rw [hflush.not_inApplication] at h
  cases h

/-- The worker starts on something new. -/
theorem Kept.start (hk : Kept ctx l) {label : Label}
    (hnote : l.history.note l.state label = l.history)
    (hstep : step ctx l.state label = l.state ∨
      (l.state.todo worker).isEmpty = true ∧ step ctx l.state label = l.state.setTodo worker instrs)
    (hcalm : Calm instrs) : Kept ctx (logStep ctx l label) := by
  rcases hstep with hsame | ⟨hempty, hstep⟩
  · exact hk.same hnote hsame
  · refine hk.replace hnote hstep rfl rfl (hk.flow.outside fun owed n hflush ↦ ?_) fun _ ↦ hcalm
    rw [List.isEmpty_iff.mp hempty] at hflush
    exact not_flushing_nil hflush

theorem Kept.exec (hk : Kept ctx l) (hconnected : Connected ctx l (.exec t)) :
    Kept ctx (logStep ctx l (.exec t)) := by
  cases htodo : l.state.todo t with
  | nil => exact hk.same (by simp [History.note, htodo]) (by simp [step, htodo])
  | cons i rest =>
      rcases hk.flow.cases_at t with hout | ⟨owed, n, hflush, hcalm, hhanded⟩
      · cases hwatched : i.watched with
        | false => exact hk.exec_routine htodo hout hwatched
        | true =>
            cases i with
            | enqueue packets compression => exact hk.exec_enqueue htodo hout
            | takeQueued => exact (hk.exec_takeQueued htodo hout hconnected.2.1).1
            | sendReliable payload => exact hk.exec_sendReliable htodo hout
            | _ => cases hwatched
      · exact (hk.exec_flushing hflush hcalm hhanded hconnected).1

theorem Kept.step (hk : Kept ctx l) (label : Label) (hconnected : Connected ctx l label) :
    Kept ctx (logStep ctx l label) := by
  cases label with
  | receive packet =>
      have hcalm : Calm [.handleBuiltInPacket packet] := calm_of_routine rfl
      refine hk.start rfl ?_ hcalm
      simp only [BedrockServer.step]
      split
      · exact .inr ⟨(Bool.and_eq_true_iff.mp ‹_›).1, rfl⟩
      · exact .inl rfl
  | undecodable =>
      have hcalm : Calm [.disconnect "Server error"] := calm_of_routine rfl
      refine hk.start rfl ?_ hcalm
      simp only [BedrockServer.step]
      split
      · exact .inr ⟨‹_›, rfl⟩
      · exact .inl rfl
  | wrongChecksum =>
      have hcalm : Calm [.listeners, .badPacket] := calm_of_routine rfl
      refine hk.start rfl ?_ hcalm
      simp only [BedrockServer.step]
      split
      · exact .inr ⟨‹_›, rfl⟩
      · exact .inl rfl
  | peerClosed =>
      have hcalm : Calm [.handlePeerClosed] := calm_of_routine rfl
      refine hk.start rfl ?_ hcalm
      simp only [BedrockServer.step]
      split
      · exact .inr ⟨‹_›, rfl⟩
      · exact .inl rfl
  | reopened writable =>
      exact ⟨disciplined_step hk.disciplined _, hk.wire, hk.queue, hk.built, hk.flow⟩
  | call t call =>
      by_cases happ : inApplication t (l.state.todo t) = true
      · have hstep : BedrockServer.step ctx l.state (.call t call) =
            l.state.setTodo t (call.body ++ l.state.todo t) := by
          simp only [BedrockServer.step, happ, if_true]
        exact hk.replace rfl hstep rfl rfl
          (hk.flow.outside fun _ _ ↦ not_flushing_of_inApplication happ) call.calm_body.append
      · refine hk.same rfl ?_
        simp [BedrockServer.step, happ]
  | exec t => exact hk.exec hconnected
  | throwing t =>
      cases htodo : l.state.todo t with
      | nil => exact hk.same rfl (by simp [BedrockServer.step, htodo])
      | cons i rest =>
          by_cases hi : i = .listeners
          · subst hi
            have happ : inApplication t (l.state.todo t) = true := by rw [htodo]; rfl
            have hstep : BedrockServer.step ctx l.state (.throwing t) =
                l.state.setTodo t (unwind rest) := by
              simp only [BedrockServer.step, htodo]
            refine hk.replace rfl hstep rfl rfl
              (hk.flow.outside fun _ _ ↦ not_flushing_of_inApplication happ) fun hcalm ↦ ?_
            rw [htodo] at hcalm
            exact hcalm.rest.unwind
          · refine hk.same rfl ?_
            simp only [BedrockServer.step, htodo]
            cases i <;> first | rfl | exact absurd rfl hi

theorem kept_run (hk : Kept ctx l) {labels : List Label}
    (hconnected : AllSteps (logStep ctx) (Connected ctx) l labels) :
    Kept ctx (run (logStep ctx) l labels) :=
  invariant_run (fun _ label hk hconnected ↦ hk.step label hconnected) hk hconnected

/-! ## Delivery -/

/-- A tick on thread `t`, and `n` steps of that thread. -/
def tick (t n : ℕ) : List Label := .call t .sendQueued :: List.replicate n (.exec t)

/-- The steps of a tick: three up to the queue, six for every batch, one to let the mutex go. -/
def tickSteps (queued : List QueuedPacket) : ℕ := 6 * (batches queued).length + 1 + 3

theorem allSteps_replicate_succ {n : ℕ}
    (h : AllSteps (logStep ctx) (Connected ctx) l (List.replicate (n + 1) (.exec t))) :
    Connected ctx l (.exec t) ∧
      AllSteps (logStep ctx) (Connected ctx) (logStep ctx l (.exec t))
        (List.replicate n (.exec t)) := h

/-- A flush that goes on alone hands over all that it owes. -/
theorem Kept.run_flush (hk : Kept ctx l)
    (hflush : Flushing ctx l.history.sending owed n (l.state.todo t))
    (hcalm : ∀ u, u ≠ t → Calm (l.state.todo u))
    (hhanded : l.history.handed ++ owed = l.history.flushes.flatMap batches)
    (hconnected : AllSteps (logStep ctx) (Connected ctx) l (List.replicate n (.exec t))) :
    (run (logStep ctx) l (List.replicate n (.exec t))).history.handed =
        l.history.flushes.flatMap batches ∧
      (run (logStep ctx) l (List.replicate n (.exec t))).history.admitted = l.history.admitted := by
  induction n generalizing l owed with
  | zero => exact absurd hflush.pos (lt_irrefl 0)
  | succ n ih =>
      obtain ⟨hfirst, hrest⟩ := allSteps_replicate_succ hconnected
      obtain ⟨hk', hflushes, hadmitted, hcalm', hnext⟩ :=
        hk.exec_flushing hflush hcalm hhanded hfirst
      rcases hnext with ⟨hn, hdone⟩ | ⟨owed', n', hn, hflush', hhanded'⟩
      · obtain rfl : n = 0 := by omega
        exact ⟨by rw [← hflushes]; exact hdone, hadmitted⟩
      · obtain rfl : n = n' := by omega
        obtain ⟨hall, hsame⟩ := ih hk' hflush' hcalm' hhanded' hrest
        exact ⟨by rw [← hflushes]; exact hall, hsame.trans hadmitted⟩

/-- The packets of a history's batches, in order. -/
def History.delivered (h : History) : List QueuedPacket := h.handed.flatMap Batch.queued

theorem flatMap_queued_flushes (flushes : List (List QueuedPacket)) :
    (flushes.flatMap batches).flatMap Batch.queued = flushes.flatten := by
  induction flushes with
  | nil => rfl
  | cons first flushes ih =>
      rw [List.flatMap_cons, List.flatMap_append, flatMap_batches, ih, List.flatten_cons]

theorem logStep_exec (htodo : l.state.todo t = i :: rest)
    (hperform : perform ctx t l.state.session i = .next session instrs)
    (hnote : l.history.note l.state (.exec t) = h) :
    (logStep ctx l (.exec t)).state.session = session ∧
      (logStep ctx l (.exec t)).state.todo t = instrs ++ rest ∧
      (logStep ctx l (.exec t)).history = h := by
  simp [logStep, step, htodo, hperform, hnote, State.setTodo]

/-- Where the mutex is free, a tick of an idle thread that runs on hands over
everything that was admitted. -/
theorem Kept.run_tick (hk : Kept ctx l) (ht : t ≠ worker) (hidle : l.state.todo t = [])
    (hfree : l.state.session.outboundMutex = .free)
    (hattached : l.state.session.attached = true)
    (hall : AllSteps (logStep ctx) (Connected ctx) l
      (tick t (tickSteps l.state.session.queuedPackets))) :
    (run (logStep ctx) l (tick t (tickSteps l.state.session.queuedPackets))).history.delivered =
        l.history.admitted ∧
      (run (logStep ctx) l (tick t (tickSteps l.state.session.queuedPackets))).history.admitted =
        l.history.admitted := by
  obtain ⟨hcall, hall⟩ := hall
  have happ : inApplication t [] = true := by simp [inApplication, ht]
  have hk₁ := hk.step _ hcall
  set l₁ := logStep ctx l (.call t .sendQueued) with hl₁
  obtain ⟨hsession₁, htodo₁, hhistory₁⟩ : l₁.state.session = l.state.session ∧
      l₁.state.todo t = [.enter .sendQueued] ∧ l₁.history = l.history := by
    simp [hl₁, logStep, BedrockServer.step, happ, hidle, State.setTodo, Call.body, History.note]
  obtain ⟨hfirst, hall⟩ := allSteps_replicate_succ hall
  have henter : perform ctx t l₁.state.session (.enter .sendQueued) =
      .next l.state.session [.acquire .sendQueued] := by
    simp [perform, hsession₁, hattached]
  have hk₂ := hk₁.step _ hfirst
  obtain ⟨hsession₂, htodo₂, hhistory₂⟩ := logStep_exec htodo₁ henter
    (by simp only [History.note, htodo₁]; exact hhistory₁)
  set l₂ := logStep ctx l₁ (.exec t) with hl₂
  obtain ⟨hsecond, hall⟩ := allSteps_replicate_succ hall
  have hacquire : perform ctx t l₂.state.session (.acquire .sendQueued) =
      .next { l.state.session with outboundMutex := .held t 0 } [.takeQueued, .unlock] := by
    simp only [perform, hsession₂, hfree, RecursiveMutex.lock]
    rfl
  have hk₃ := hk₂.step _ hsecond
  obtain ⟨hsession₃, htodo₃, hhistory₃⟩ := logStep_exec htodo₂ hacquire
    (by simp only [History.note, htodo₂]; exact hhistory₂)
  set l₃ := logStep ctx l₂ (.exec t) with hl₃
  obtain ⟨hthird, hall⟩ := allSteps_replicate_succ hall
  have hout : Outside ctx l₃.history l₃.state.todo t := by
    refine hk₃.flow.outside fun owed n hflush ↦ ?_
    rw [htodo₃] at hflush
    exact not_flushing_takeQueued hflush
  obtain ⟨hk₄, hadmitted, hqueued, hcalm, owed, n, hn, hflush, hhanded⟩ :=
    hk₃.exec_takeQueued htodo₃ hout hthird.2.1
  have hlength : n = 6 * (batches l.state.session.queuedPackets).length + 1 := by
    rw [hn, hsession₃]
  rw [tickSteps, ← hlength]
  rw [← hlength] at hall
  obtain ⟨hdone, hsame⟩ := hk₄.run_flush hflush hcalm hhanded hall
  have hend : run (logStep ctx) l (tick t (n + 3)) =
      run (logStep ctx) (logStep ctx l₃ (.exec t)) (List.replicate n (.exec t)) := rfl
  have hqueue := hk₄.queue
  rw [hqueued, List.append_nil] at hqueue
  have hstart : (logStep ctx l₃ (.exec t)).history.admitted = l.history.admitted := by
    rw [hadmitted, hhistory₃]
  rw [hend, History.delivered, hdone, flatMap_queued_flushes, hqueue, hsame, hstart]
  exact ⟨rfl, rfl⟩

/-- What is delivered of the queue. -/
structure Delivered (ctx : Context σ Key ν) (l : Logged σ ν) : Prop where
  /-- The history names every payload on the wire. -/
  wire : l.history.sent.map Prod.snd = l.state.session.wire
  built : ∀ batch payload, (some batch, payload) ∈ l.history.sent → Builds ctx batch payload
  /-- What the flushes took and what is still queued is what was admitted. -/
  taken : l.history.flushes.flatten ++ l.state.session.queuedPackets = l.history.admitted
  /-- The batches that left are the first ones of the flushes, in order; where no
  thread is inside the mutex, all of them. -/
  handed : l.history.handed <+: l.history.flushes.flatMap batches
  complete : l.state.session.outboundMutex = .free →
    l.history.handed = l.history.flushes.flatMap batches
  /-- The packets that left are the first ones admitted, in order. -/
  delivered : l.history.delivered <+: l.history.admitted
  /-- A tick that gets the mutex and goes on delivers everything admitted. -/
  drains : ∀ t, t ≠ worker → l.state.todo t = [] →
    l.state.session.outboundMutex = .free → l.state.session.attached = true →
    AllSteps (logStep ctx) (Connected ctx) l (tick t (tickSteps l.state.session.queuedPackets)) →
    (run (logStep ctx) l (tick t (tickSteps l.state.session.queuedPackets))).history.delivered =
        l.history.admitted ∧
      (run (logStep ctx) l (tick t (tickSteps l.state.session.queuedPackets))).history.admitted =
        l.history.admitted

theorem Kept.delivered (hk : Kept ctx l) : Delivered ctx l := by
  have hprefix : l.history.handed <+: l.history.flushes.flatMap batches := by
    cases hk.flow with
    | idle _ _ hhanded => exact hhanded ▸ List.prefix_rfl
    | flushing t owed n _ _ hhanded => exact ⟨owed, hhanded⟩
  refine ⟨hk.wire, hk.built, hk.queue, hprefix, fun hfree ↦ ?_, ?_,
    fun t ht hidle hfree hattached hall ↦ hk.run_tick ht hidle hfree hattached hall⟩
  · cases hk.flow with
    | idle _ _ hhanded => exact hhanded
    | flushing t owed n hflush =>
        have hinside : 0 < l.state.session.outboundMutex.depth t := by
          rw [← (hk.disciplined t).count, List.countP_pos_iff]
          exact ⟨_, hflush.unlock_mem, rfl⟩
        rw [hfree] at hinside
        cases hinside
  · obtain ⟨owed, howed⟩ := hprefix
    refine ⟨owed.flatMap Batch.queued ++ l.state.session.queuedPackets, ?_⟩
    rw [History.delivered, ← List.append_assoc, ← List.flatMap_append, howed,
      flatMap_queued_flushes, hk.queue]

end Flush

/-- In every run of a session that stays connected and whose batches encode, the
queued packets leave in the order of their admission, each once, grouped as their
flushes and their compressions say. -/
theorem queue_delivered {σ Key ν : Type} (ctx : Context σ Key ν) (compressor : CompressorOptions)
    (protoDefVariables : ν) (labels : List Label)
    (hconnected : AllSteps (logStep ctx) (Connected ctx)
      ⟨opened compressor protoDefVariables, .empty⟩ labels) :
    Delivered ctx (run (logStep ctx) ⟨opened compressor protoDefVariables, .empty⟩ labels) ∧
      ∀ queued : List QueuedPacket, (batches queued).flatMap Batch.queued = queued ∧
        (∀ batch ∈ batches queued, batch.2 ≠ []) ∧
        (batches queued).IsChain fun batch next ↦ batch.1 ≠ next.1 :=
  ⟨(kept_run (kept_opened compressor protoDefVariables) hconnected).delivered, fun queued ↦
    ⟨flatMap_batches queued, fun _ hbatch ↦ batch_ne_nil hbatch, isChain_batches queued⟩⟩

/-- One thread queues two packets, another one flushes. -/
def queueing : List Label :=
  .exec worker ::
    .call 1 (.queuePackets [inbound 2 [0, 0, 0, 0], inbound 5 [1]] .automatic) ::
      List.replicate 6 (.exec 1) ++ tick 2 10

theorem queue_delivered_queueing :
    (run (logStep sampleContext) ⟨sampleSession, .empty⟩ queueing).history.delivered.length = 2 ∧
      Delivered sampleContext (run (logStep sampleContext) ⟨sampleSession, .empty⟩ queueing) :=
  ⟨by decide +kernel,
    (queue_delivered sampleContext sampleCompressor () queueing (by decide +kernel)).1⟩

end BedrockProtocol.BedrockServer
