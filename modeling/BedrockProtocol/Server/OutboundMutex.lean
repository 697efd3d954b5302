import BedrockProtocol.Server.SessionSteps

/-!
# The discipline of the outbound mutex

In every run, whatever its interleaving, the threads keep to the outbound mutex:
a payload is built, checked and handed over inside it, at most one thread is
inside, and only the worker runs the steps of a login.  A session's state other
than the mutex plays no part in this.
-/

namespace BedrockProtocol.BedrockServer

/-! ## Threads in order -/

/-- What runs inside the mutex leaves it later. -/
def Guarded : List Instr → Prop
  | [] => True
  | i :: rest => (i.locked = true → .unlock ∈ rest) ∧ Guarded rest

theorem guarded_append {xs ys : List Instr} (hys : Guarded ys)
    (h : ∀ i ∈ xs, i.locked = true → .unlock ∈ ys) : Guarded (xs ++ ys) := by
  induction xs with
  | nil => exact hys
  | cons x xs ih =>
      refine ⟨fun hlocked ↦ ?_, ih fun i hi ↦ h i (List.mem_cons_of_mem x hi)⟩
      exact List.mem_append_right xs (h x (by simp) hlocked)

/-- A thread that is `d` times inside the mutex: it leaves the mutex as often, is
inside where it has to be, carries a payload only in its next instruction, and
does the worker's work only if it is the worker. -/
structure Orderly (d t : ℕ) (todo : List Instr) : Prop where
  count : todo.countP Instr.unlocks = d
  guarded : Guarded todo
  settled : ∀ i ∈ todo.tail, i.inFlight = false
  others : t ≠ worker → ∀ phase ∈ phases todo, phase = .listener

section Orderly

variable {d t : ℕ} {i : Instr} {rest instrs : List Instr}

theorem Orderly.nil (t : ℕ) : Orderly 0 t [] :=
  ⟨rfl, trivial, by simp, by simp [phases]⟩

theorem Orderly.rest_settled (h : Orderly d t (i :: rest)) : ∀ j ∈ rest, j.inFlight = false :=
  h.settled

theorem Orderly.count_rest (h : Orderly d t (i :: rest)) (hi : i.unlocks = false) :
    rest.countP Instr.unlocks = d := by
  rw [← h.count, List.countP_cons_of_neg (by simp [hi])]

theorem Orderly.others_rest (h : Orderly d t (i :: rest)) (ht : t ≠ worker) :
    ∀ phase ∈ phases rest, phase = .listener := by
  intro phase hphase
  apply h.others ht
  rw [phases, List.mem_filterMap] at hphase ⊢
  obtain ⟨j, hj, hphase⟩ := hphase
  exact ⟨j, List.mem_cons_of_mem i hj, hphase⟩

/-- What may stand in front of the rest of a thread. -/
theorem Orderly.replace {d' : ℕ} (h : Orderly d t (i :: rest))
    (hcount : instrs.countP Instr.unlocks + rest.countP Instr.unlocks = d')
    (hguarded : Guarded (instrs ++ rest)) (hsettled : ∀ j ∈ instrs.tail, j.inFlight = false)
    (hothers : t ≠ worker → ∀ phase ∈ phases instrs, phase = .listener) :
    Orderly d' t (instrs ++ rest) where
  count := by rw [List.countP_append, hcount]
  guarded := hguarded
  settled := by
    intro j hj
    cases instrs with
    | nil => exact h.rest_settled j (List.mem_of_mem_tail hj)
    | cons first others =>
        rcases List.mem_append.mp hj with hj | hj
        · exact hsettled j hj
        · exact h.rest_settled j hj
  others := by
    intro ht phase hphase
    rw [phases_append] at hphase
    rcases List.mem_append.mp hphase with hphase | hphase
    · exact hothers ht phase hphase
    · exact h.others_rest ht phase hphase

theorem free_iff : i.free = true ↔ i.inFlight = false ∧ i.unlocks = false ∧ i.locked = false := by
  simp [Instr.free, and_assoc]

theorem countP_unlocks_of_free (h : instrs.all Instr.free = true) :
    instrs.countP Instr.unlocks = 0 := by
  rw [List.countP_eq_zero]
  intro j hj
  simp [(free_iff.mp (List.all_eq_true.mp h j hj)).2.1]

theorem unlocked_of_free (h : instrs.all Instr.free = true) {j : Instr} (hj : j ∈ instrs) :
    ¬ j.locked = true := by
  simp [(free_iff.mp (List.all_eq_true.mp h j hj)).2.2]

theorem guarded_of_free (h : instrs.all Instr.free = true) : Guarded instrs := by
  have hguarded : Guarded (instrs ++ []) :=
    guarded_append trivial fun j hj hlocked ↦ absurd hlocked (unlocked_of_free h hj)
  rwa [List.append_nil] at hguarded

/-- Free instructions in front of a thread's rest keep the thread in order. -/
theorem Orderly.replace_free (h : Orderly d t (i :: rest)) (hi : i.unlocks = false)
    (hfree : instrs.all Instr.free = true)
    (hothers : t ≠ worker → ∀ phase ∈ phases instrs, phase = .listener) :
    Orderly d t (instrs ++ rest) := by
  have hall := List.all_eq_true.mp hfree
  refine h.replace ?_ ?_ ?_ hothers
  · rw [countP_unlocks_of_free hfree, h.count_rest hi, Nat.zero_add]
  · exact guarded_append h.guarded.2 fun j hj hlocked ↦ absurd hlocked (unlocked_of_free hfree hj)
  · exact fun j hj ↦ (free_iff.mp (hall j (List.mem_of_mem_tail hj))).1

/-! ## Exceptions -/

theorem unwind_sublist (instrs : List Instr) : (unwind instrs).Sublist instrs := by
  fun_induction unwind instrs with
  | case1 => exact .slnil
  | case2 rest => exact List.Sublist.refl _
  | case3 rest ih => exact ih.cons_cons _
  | case4 i rest _ _ ih => exact ih.cons i

theorem countP_unwind (instrs : List Instr) :
    (unwind instrs).countP Instr.unlocks = instrs.countP Instr.unlocks := by
  fun_induction unwind instrs with
  | case1 => rfl
  | case2 rest => rfl
  | case3 rest ih => simp only [List.countP_cons, ih]
  | case4 i rest _ hunlock ih =>
      have hi : i.unlocks = false := by
        cases i <;> first | rfl | exact absurd rfl hunlock
      rw [ih, List.countP_cons_of_neg (by simp [hi])]

theorem guarded_unwind (h : Guarded instrs) : Guarded (unwind instrs) := by
  fun_induction unwind instrs with
  | case1 => exact trivial
  | case2 rest => exact h
  | case3 rest ih => exact ⟨nofun, ih h.2⟩
  | case4 i rest _ _ ih => exact ih h.2

/-- The exception of an instruction that is not the end of a scope. -/
theorem Orderly.unwind (h : Orderly d t (i :: rest)) (hi : i.unlocks = false) :
    Orderly d t (unwind rest) where
  count := by rw [countP_unwind, h.count_rest hi]
  guarded := guarded_unwind h.guarded.2
  settled := fun j hj ↦
    h.rest_settled j ((unwind_sublist rest).subset (List.mem_of_mem_tail hj))
  others := by
    intro ht phase hphase
    exact h.others_rest ht phase (((unwind_sublist rest).filterMap _).subset hphase)

end Orderly

/-! ## Steps -/

section Steps

variable {σ Key ν : Type} {ctx : Context σ Key ν} {t : ℕ} {s s' : Session σ ν} {i : Instr}
  {instrs rest : List Instr}

theorem Critical.body_settled (critical : Critical) :
    ∀ j ∈ critical.body, j.inFlight = false ∧ j.unlocks = false := by
  intro j hj
  cases critical with
  | sendPacketsInternal path packets compression processOutbound =>
      rcases List.mem_append.mp hj with hj | hj
      · split at hj
        · obtain ⟨packet, -, rfl⟩ := List.mem_map.mp hj
          exact ⟨rfl, rfl⟩
        · cases hj
      · obtain rfl := List.mem_singleton.mp hj
        exact ⟨rfl, rfl⟩
  | queuePackets packets compression =>
      rcases List.mem_append.mp hj with hj | hj
      · obtain ⟨packet, -, rfl⟩ := List.mem_map.mp hj
        exact ⟨rfl, rfl⟩
      · obtain rfl := List.mem_singleton.mp hj
        exact ⟨rfl, rfl⟩
  | _ =>
      obtain rfl := List.mem_singleton.mp hj
      exact ⟨rfl, rfl⟩

theorem Orderly.acquire {critical : Critical} {m m' : RecursiveMutex}
    (h : Orderly (m.depth t) t (.acquire critical :: rest)) (hlock : m.lock t = some m')
    (hothers : t ≠ worker → ∀ phase ∈ phases (critical.body ++ [.unlock]), phase = .listener) :
    Orderly (m'.depth t) t ((critical.body ++ [.unlock]) ++ rest) := by
  have hsettled := critical.body_settled
  refine h.replace ?_ ?_ ?_ hothers
  · have hbody : critical.body.countP Instr.unlocks = 0 := by
      rw [List.countP_eq_zero]
      intro j hj
      simp [(hsettled j hj).2]
    rw [RecursiveMutex.depth_lock hlock, ← h.count_rest rfl, List.countP_append, hbody]
    exact Nat.add_comm _ _
  · rw [List.append_assoc]
    refine guarded_append ⟨nofun, h.guarded.2⟩ ?_
    exact fun j _ _ ↦ List.mem_cons_self
  · intro j hj
    rcases List.mem_append.mp (List.mem_of_mem_tail hj) with hj | hj
    · exact (hsettled j hj).1
    · obtain rfl := List.mem_singleton.mp hj
      rfl

/-- A step with a payload: what follows it carries the payload on, or nothing. -/
theorem Orderly.carry {d : ℕ} (h : Orderly d t (i :: rest)) (hi : i.unlocks = false)
    (hinstrs : instrs = [] ∨ ∃ j, instrs = [j] ∧ j.unlocks = false ∧ (j.locked → i.locked))
    (hothers : t ≠ worker → ∀ phase ∈ phases instrs, phase = .listener) :
    Orderly d t (instrs ++ rest) := by
  rcases hinstrs with rfl | ⟨j, rfl, hj, hlocked⟩
  · exact h.replace (by simpa using h.count_rest hi) h.guarded.2 (by simp) hothers
  · refine h.replace ?_ ⟨fun hl ↦ h.guarded.1 (hlocked hl), h.guarded.2⟩ (by simp) hothers
    rw [List.countP_cons_of_neg (by simp [hj]), h.count_rest hi, List.countP_nil, Nat.zero_add]

/-- Whatever a thread does next, it stays in order and leaves the others' places in
the mutex as they are. -/
theorem Orderly.perform (h : Orderly (s.outboundMutex.depth t) t (i :: rest))
    (hp : perform ctx t s i = .next s' instrs) :
    Orderly (s'.outboundMutex.depth t) t (instrs ++ rest) ∧
      ∀ u, u ≠ t → s'.outboundMutex.depth u = s.outboundMutex.depth u := by
  have hothers (ht : t ≠ worker) : ∀ phase ∈ phases instrs, phase = .listener := by
    refine perform_phases (fun phase hphase ↦ h.others ht phase ?_) hp
    exact List.mem_filterMap.mpr ⟨i, List.mem_cons_self, hphase⟩
  cases i with
  | acquire critical =>
      simp only [BedrockServer.perform] at hp
      split at hp
      · cases hp
      · rename_i m hlock
        cases hp
        exact ⟨h.acquire hlock hothers, fun u hu ↦ RecursiveMutex.depth_lock_of_ne hlock hu⟩
  | unlock =>
      cases hp
      have hcount : rest.countP Instr.unlocks + 1 = s.outboundMutex.depth t := by
        rw [← h.count, List.countP_cons_of_pos rfl]
      have hinside : 0 < s.outboundMutex.depth t := by omega
      refine ⟨h.replace ?_ h.guarded.2 (by simp) hothers,
        fun u hu ↦ RecursiveMutex.depth_unlock_of_ne hinside hu⟩
      have hdepth := RecursiveMutex.depth_unlock hinside
      simp only [List.countP_nil]
      omega
  | build path packets compression =>
      rcases buildPayload_next hp with ⟨-, rfl, rfl⟩ |
        ⟨-, stream, packet, out, sender, -, -, rfl, rfl⟩ | ⟨-, rfl, bytes, rfl⟩
      · exact ⟨h.carry rfl (.inl rfl) hothers, fun u _ ↦ rfl⟩
      · exact ⟨h.carry rfl (.inr ⟨_, rfl, rfl, fun _ ↦ rfl⟩) hothers, fun u _ ↦ rfl⟩
      · exact ⟨h.carry rfl (.inr ⟨_, rfl, rfl, fun _ ↦ rfl⟩) hothers, fun u _ ↦ rfl⟩
  | checkWritable payload =>
      cases hp
      refine ⟨h.carry rfl ?_ hothers, fun u _ ↦ rfl⟩
      split
      · exact .inr ⟨_, rfl, rfl, id⟩
      · exact .inl rfl
  | sendReliable payload =>
      cases hp
      exact ⟨h.carry rfl (.inl rfl) hothers, fun u _ ↦ rfl⟩
  | encodePreCompression packetName value =>
      simp only [BedrockServer.perform] at hp
      split at hp
      · cases hp
      · cases hp
        exact ⟨h.carry rfl (.inr ⟨_, rfl, rfl, fun hout ↦ by cases hout⟩) hothers, fun u _ ↦ rfl⟩
  | _ =>
      obtain ⟨hmutex, hfree⟩ := perform_free rfl rfl rfl hp
      rw [hmutex]
      exact ⟨h.replace_free rfl hfree hothers, fun u _ ↦ rfl⟩

theorem unlocks_of_throws (hp : BedrockServer.perform ctx t s i = .throws s') :
    i.unlocks = false := by
  cases i with
  | unlock => cases hp
  | _ => rfl

/-- Every thread is in order. -/
def Disciplined (s : State σ ν) : Prop :=
  ∀ t, Orderly (s.session.outboundMutex.depth t) t (s.todo t)

theorem disciplined_setTodo {s : State σ ν} {session : Session σ ν} {todo : List Instr}
    (h : Disciplined s) (ht : Orderly (session.outboundMutex.depth t) t todo)
    (hothers : ∀ u, u ≠ t →
      session.outboundMutex.depth u = s.session.outboundMutex.depth u) :
    Disciplined (State.setTodo { s with session } t todo) := by
  intro u
  by_cases hu : u = t
  · subst hu
    simpa [State.setTodo] using ht
  · simpa [State.setTodo, hu, hothers u hu] using h u

/-- The worker starts on something new. -/
theorem disciplined_begin {s : State σ ν} (h : Disciplined s)
    (hempty : (s.todo worker).isEmpty = true) (hfree : instrs.all Instr.free = true) :
    Disciplined (s.setTodo worker instrs) := by
  have hnil : s.todo worker = [] := List.isEmpty_iff.mp hempty
  have hdepth : s.session.outboundMutex.depth worker = 0 := by rw [← (h worker).count, hnil]; rfl
  refine disciplined_setTodo h ?_ fun _ _ ↦ rfl
  have hall := List.all_eq_true.mp hfree
  refine ⟨?_, ?_, ?_, fun hne ↦ absurd rfl hne⟩
  · rw [hdepth, countP_unlocks_of_free hfree]
  · exact guarded_of_free hfree
  · exact fun j hj ↦ (free_iff.mp (hall j (List.mem_of_mem_tail hj))).1

/-- The application calls a method. -/
theorem Orderly.call {d : ℕ} {todo : List Instr} (h : Orderly d t todo)
    (happ : inApplication t todo = true) (call : Call) : Orderly d t (call.body ++ todo) := by
  have hplain := call.plain_body
  have hlisteners := listener_of_mem_phases hplain
  have hall := List.all_eq_true.mp (all_free_of_plain hplain)
  cases todo with
  | nil =>
      rw [List.append_nil]
      refine ⟨?_, guarded_of_free (all_free_of_plain hplain), ?_, fun _ ↦ hlisteners⟩
      · rw [countP_unlocks_of_free (all_free_of_plain hplain), ← h.count]
        rfl
      · exact fun j hj ↦ (free_iff.mp (hall j (List.mem_of_mem_tail hj))).1
  | cons i rest =>
      have hi : i = .listeners := by
        cases i <;> first | rfl | cases happ
      subst hi
      have hfree : (call.body ++ [Instr.listeners]).all Instr.free = true := by
        rw [List.all_append, all_free_of_plain hplain]
        rfl
      have hreplace := h.replace_free rfl hfree fun _ phase hphase ↦ by
        rw [phases_append] at hphase
        rcases List.mem_append.mp hphase with hphase | hphase
        · exact hlisteners phase hphase
        · exact List.mem_singleton.mp hphase
      rwa [List.append_assoc] at hreplace

theorem disciplined_step {s : State σ ν} (h : Disciplined s) (label : Label) :
    Disciplined (step ctx s label) := by
  cases label with
  | receive packet =>
      simp only [step]
      split
      · rename_i hready
        exact disciplined_begin h (Bool.and_eq_true_iff.mp hready).1 rfl
      · exact h
  | undecodable | wrongChecksum | peerClosed =>
      simp only [step]
      split
      · exact disciplined_begin h ‹_› rfl
      · exact h
  | reopened writable => exact h
  | call t call =>
      simp only [step]
      split
      · exact disciplined_setTodo h ((h t).call ‹_› call) fun _ _ ↦ rfl
      · exact h
  | exec t =>
      simp only [step]
      split
      · exact h
      · rename_i i rest htodo
        have hthread := h t
        rw [htodo] at hthread
        split
        · exact h
        · rename_i session instrs hperform
          obtain ⟨hnext, hothers⟩ := hthread.perform hperform
          exact disciplined_setTodo h hnext hothers
        · rename_i session hperform
          have hmutex := perform_throws_outboundMutex hperform
          refine disciplined_setTodo h ?_ fun _ _ ↦ by rw [hmutex]
          rw [hmutex]
          exact hthread.unwind (unlocks_of_throws hperform)
  | throwing t =>
      simp only [step]
      split
      · rename_i rest htodo
        have hthread := h t
        rw [htodo] at hthread
        exact disciplined_setTodo h (hthread.unwind rfl) fun _ _ ↦ rfl
      · exact h

theorem disciplined_opened (compressor : CompressorOptions) (protoDefVariables : ν) :
    Disciplined (opened compressor protoDefVariables : State σ ν) := by
  intro t
  by_cases ht : t = worker
  · subst ht
    exact ⟨rfl, ⟨nofun, trivial⟩, by simp [opened], fun hne ↦ absurd rfl hne⟩
  · simpa [opened, ht] using Orderly.nil t

/-- Every run of a session keeps every thread in order. -/
theorem disciplined_run {s : State σ ν} (h : Disciplined s) (labels : List Label) :
    Disciplined (run (step ctx) s labels) := by
  induction labels generalizing s with
  | nil => exact h
  | cons label labels ih => exact ih (disciplined_step h label)

/-- Two threads are never inside the mutex together. -/
theorem locked_unique {s : State σ ν} (h : Disciplined s) {t u : ℕ} {i j : Instr}
    (hi : i ∈ s.todo t) (hj : j ∈ s.todo u) (hilocked : i.locked = true)
    (hjlocked : j.locked = true) : t = u := by
  have hinside {t : ℕ} {i : Instr} (hi : i ∈ s.todo t) (hlocked : i.locked = true) :
      0 < s.session.outboundMutex.depth t := by
    rw [← (h t).count, List.countP_pos_iff]
    have hunlock : .unlock ∈ s.todo t := by
      obtain ⟨front, rest, hsplit⟩ := List.append_of_mem hi
      have hguarded := (h t).guarded
      rw [hsplit] at hguarded ⊢
      clear hsplit hi
      induction front with
      | nil => exact List.mem_cons_of_mem i (hguarded.1 hlocked)
      | cons k front ih => exact List.mem_cons_of_mem k (ih hguarded.2)
    exact ⟨.unlock, hunlock, rfl⟩
  by_contra hne
  have hzero := RecursiveMutex.depth_eq_zero_of_pos (hinside hi hilocked) (Ne.symm hne)
  have hpos := hinside hj hjlocked
  omega

end Steps

end BedrockProtocol.BedrockServer
