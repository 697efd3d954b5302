import Mathlib.Data.List.Basic
import Mathlib.Logic.Function.Basic
import Mathlib.Logic.Function.Iterate

/-!
# Interleaved runs

A run is a list of labels, each of which one step of a state machine consumes; a
property that a step keeps under a condition holds after every run whose steps
all meet the condition.  Threads that share the machine exclude each other with
a recursive mutex.
-/

namespace BedrockProtocol

/-! ## Runs -/

section Runs

variable {State Label : Type}

def run (step : State → Label → State) (s : State) (labels : List Label) : State :=
  labels.foldl step s

theorem run_append (step : State → Label → State) (s : State) (labels labels' : List Label) :
    run step s (labels ++ labels') = run step (run step s labels) labels' := List.foldl_append

/-- Every step of the run starts in a state that meets the condition. -/
def AllSteps (step : State → Label → State) (cond : State → Label → Prop) :
    State → List Label → Prop
  | _, [] => True
  | s, label :: labels => cond s label ∧ AllSteps step cond (step s label) labels

variable {step : State → Label → State} {cond : State → Label → Prop} {Inv : State → Prop}

instance decidableAllSteps [∀ s label, Decidable (cond s label)] :
    ∀ s labels, Decidable (AllSteps step cond s labels)
  | _, [] => inferInstanceAs (Decidable True)
  | s, label :: labels =>
      have := decidableAllSteps (step s label) labels
      inferInstanceAs (Decidable (cond s label ∧ AllSteps step cond (step s label) labels))

theorem invariant_run (hstep : ∀ s label, Inv s → cond s label → Inv (step s label))
    {s : State} {labels : List Label} (hs : Inv s) (hcond : AllSteps step cond s labels) :
    Inv (run step s labels) := by
  induction labels generalizing s with
  | nil => exact hs
  | cons label labels ih => exact ih (hstep s label hs hcond.1) hcond.2

/-- Two conditions on a step that agree where an invariant holds, which the second one keeps. -/
theorem allSteps_iff {holds : State → Label → Prop}
    (hiff : ∀ s label, Inv s → (holds s label ↔ cond s label))
    (hstep : ∀ s label, Inv s → cond s label → Inv (step s label)) {s : State}
    (labels : List Label) (hs : Inv s) :
    AllSteps step holds s labels ↔ AllSteps step cond s labels := by
  induction labels generalizing s with
  | nil => exact Iff.rfl
  | cons label labels ih =>
      rw [AllSteps, AllSteps, hiff s label hs]
      exact and_congr_right fun hcond ↦ ih (hstep s label hs hcond)

/-- The steps of a run, each with the labels before it. -/
theorem allSteps_iff_prefix {s : State} (labels : List Label) :
    AllSteps step cond s labels ↔
      ∀ seen label, seen ++ [label] <+: labels → cond (run step s seen) label := by
  induction labels generalizing s with
  | nil =>
      refine iff_of_true trivial fun seen label hseen ↦ ?_
      simp at hseen
  | cons label labels ih =>
      rw [AllSteps, ih]
      constructor
      · rintro ⟨hfirst, hrest⟩ seen next hseen
        cases seen with
        | nil =>
            obtain ⟨rfl, -⟩ := List.cons_prefix_cons.mp hseen
            exact hfirst
        | cons label' seen =>
            obtain ⟨rfl, hfront⟩ := List.cons_prefix_cons.mp hseen
            exact hrest seen next hfront
      · intro hall
        refine ⟨hall [] label (by simp), fun seen next hseen ↦ ?_⟩
        exact hall (label :: seen) next (List.cons_prefix_cons.mpr ⟨rfl, hseen⟩)

/-- What holds after every step holds in every state that is reached. -/
theorem allSteps_reached_iff {s : State} (labels : List Label) (hs : Inv s) :
    AllSteps step (fun s label ↦ Inv (step s label)) s labels ↔
      ∀ seen, seen <+: labels → Inv (run step s seen) := by
  induction labels generalizing s with
  | nil =>
      refine ⟨fun _ seen hseen ↦ ?_, fun _ ↦ trivial⟩
      rw [List.prefix_nil.mp hseen]
      exact hs
  | cons label labels ih =>
      rw [AllSteps]
      constructor
      · rintro ⟨hnext, hrest⟩ seen hseen
        cases seen with
        | nil => exact hs
        | cons label' seen =>
            obtain ⟨rfl, hprefix⟩ := List.cons_prefix_cons.mp hseen
            exact (ih hnext).mp hrest seen hprefix
      · intro hall
        have hnext : Inv (step s label) := hall [label] (by simp)
        refine ⟨hnext, (ih hnext).mpr fun seen hseen ↦ ?_⟩
        exact hall (label :: seen) (List.cons_prefix_cons.mpr ⟨rfl, hseen⟩)

/-- A property of the state and of what the labels so far brought. -/
theorem invariant_run_collected {α : Type} {collect : Label → List α}
    {InvWith : State → List α → Prop}
    (hstep : ∀ s seen label, InvWith s seen → cond s label →
      InvWith (step s label) (seen ++ collect label))
    {s : State} {seen : List α} {labels : List Label} (hs : InvWith s seen)
    (hcond : AllSteps step cond s labels) :
    InvWith (run step s labels) (seen ++ labels.flatMap collect) := by
  induction labels generalizing s seen with
  | nil => simpa [run] using hs
  | cons label labels ih =>
      rw [List.flatMap_cons, ← List.append_assoc]
      exact ih (hstep s seen label hs hcond.1) hcond.2

/-- A property that every step keeps. -/
theorem invariant_always (hstep : ∀ s label, Inv s → Inv (step s label)) {s : State}
    (hs : Inv s) (labels : List Label) : Inv (run step s labels) := by
  induction labels generalizing s with
  | nil => exact hs
  | cons label labels ih => exact ih (hstep s label hs)

end Runs

/-! ## Threads -/

/-- Shared data, and what each thread still has to run. -/
structure Threads (σ ι : Type) where
  shared : σ
  todo : ℕ → List ι

namespace Threads

variable {σ ι : Type}

/-- Thread `t` goes on with `instrs`, having changed the shared data to `shared`. -/
def resume (s : Threads σ ι) (t : ℕ) (shared : σ) (instrs : List ι) : Threads σ ι :=
  ⟨shared, Function.update s.todo t instrs⟩

/-- Thread `t` runs its next instruction, which puts others in front of the rest;
`none` stands for a thread that has to wait. -/
def exec (perform : ℕ → σ → ι → Option (σ × List ι)) (t : ℕ) (s : Threads σ ι) : Threads σ ι :=
  match s.todo t with
  | [] => s
  | instr :: rest =>
      match perform t s.shared instr with
      | none => s
      | some (shared, instrs) => s.resume t shared (instrs ++ rest)

/-- An idle thread starts on something; a busy one does not. -/
def start (t : ℕ) (instrs : List ι) (s : Threads σ ι) : Threads σ ι :=
  if (s.todo t).isEmpty then s.resume t s.shared instrs else s

/-- A thread runs something in front of what it has to do. -/
def call (t : ℕ) (instrs : List ι) (s : Threads σ ι) : Threads σ ι :=
  s.resume t s.shared (instrs ++ s.todo t)

@[simp] theorem resume_shared (s : Threads σ ι) (t : ℕ) (shared : σ) (instrs : List ι) :
    (s.resume t shared instrs).shared = shared := rfl

@[simp] theorem resume_todo_self (s : Threads σ ι) (t : ℕ) (shared : σ) (instrs : List ι) :
    (s.resume t shared instrs).todo t = instrs := by
  simp [resume]

@[simp] theorem resume_resume (s : Threads σ ι) (t : ℕ) (shared shared' : σ)
    (instrs instrs' : List ι) :
    (s.resume t shared instrs).resume t shared' instrs' = s.resume t shared' instrs' := by
  simp [resume]

theorem resume_self (s : Threads σ ι) (t : ℕ) : s.resume t s.shared (s.todo t) = s := by
  simp [resume]

theorem resume_todo_of_ne (s : Threads σ ι) {t u : ℕ} (h : u ≠ t) (shared : σ)
    (instrs : List ι) : (s.resume t shared instrs).todo u = s.todo u := by
  simp [resume, h]

theorem call_todo_of_ne (s : Threads σ ι) {t u : ℕ} (h : u ≠ t) (instrs : List ι) :
    (s.call t instrs).todo u = s.todo u := s.resume_todo_of_ne h _ _

section Exec

variable {perform : ℕ → σ → ι → Option (σ × List ι)} {s : Threads σ ι} {t : ℕ} {instr : ι}
  {instrs rest : List ι} {shared : σ}

theorem exec_of_idle (h : s.todo t = []) : s.exec perform t = s := by
  simp only [exec, h]

theorem exec_of_waits (h : s.todo t = instr :: rest) (hperform : perform t s.shared instr = none) :
    s.exec perform t = s := by
  simp only [exec, h, hperform]

theorem exec_of_performs (h : s.todo t = instr :: rest)
    (hperform : perform t s.shared instr = some (shared, instrs)) :
    s.exec perform t = s.resume t shared (instrs ++ rest) := by
  simp only [exec, h, hperform]

theorem exec_todo_of_ne {u : ℕ} (h : u ≠ t) : (s.exec perform t).todo u = s.todo u := by
  unfold exec
  split
  · rfl
  · split
    · rfl
    · exact s.resume_todo_of_ne h _ _

/-- A thread that nothing disturbs runs its instructions to the end. -/
inductive Finishes (perform : σ → ι → Option (σ × List ι)) : σ → List ι → σ → Prop
  | done (shared : σ) : Finishes perform shared [] shared
  | next {shared shared' final : σ} {instr : ι} {instrs rest : List ι}
      (hperform : perform shared instr = some (shared', instrs))
      (hrest : Finishes perform shared' (instrs ++ rest) final) :
      Finishes perform shared (instr :: rest) final

theorem Finishes.iterate_exec {final : σ}
    (h : Finishes (perform t) s.shared (s.todo t) final) :
    ∃ n, (exec perform t)^[n] s = s.resume t final [] := by
  generalize hshared : s.shared = shared at h
  generalize htodo : s.todo t = todo at h
  induction h generalizing s with
  | done shared => exact ⟨0, by rw [← hshared, ← htodo, resume_self]; rfl⟩
  | next hperform hrest ih =>
      subst hshared
      obtain ⟨n, hn⟩ := @ih (s.resume t _ _) rfl (resume_todo_self _ _ _ _)
      refine ⟨n + 1, ?_⟩
      rw [Function.iterate_succ_apply, exec_of_performs htodo hperform, hn, resume_resume]

end Exec

end Threads

/-! ## Recursive mutexes -/

/-- Free, or held by a thread that entered it `extra` more times than it left. -/
inductive RecursiveMutex
  | free
  | held (owner extra : ℕ)
  deriving DecidableEq, Repr

namespace RecursiveMutex

/-- `none` stands for a thread that has to wait. -/
def lock (t : ℕ) : RecursiveMutex → Option RecursiveMutex
  | free => some (held t 0)
  | held owner extra => if owner = t then some (held t (extra + 1)) else none

def unlock : RecursiveMutex → RecursiveMutex
  | free => free
  | held _ 0 => free
  | held owner (extra + 1) => held owner extra

/-- How many times a thread has to leave the mutex. -/
def depth (t : ℕ) : RecursiveMutex → ℕ
  | free => 0
  | held owner extra => if owner = t then extra + 1 else 0

variable {m m' : RecursiveMutex} {t u : ℕ}

@[simp] theorem depth_free : depth t free = 0 := rfl

/-- At most one thread is inside. -/
theorem depth_eq_zero_of_pos (h : 0 < depth t m) (hne : u ≠ t) : depth u m = 0 := by
  cases m with
  | free => rfl
  | held owner extra =>
      have howner : owner = t := by
        by_contra hother
        simp [depth, hother] at h
      simp [depth, howner, hne.symm]

theorem depth_lock (h : lock t m = some m') : depth t m' = depth t m + 1 := by
  cases m with
  | free =>
      obtain rfl := Option.some.inj h
      simp [depth]
  | held owner extra =>
      simp only [lock] at h
      split at h
      · rename_i howner
        obtain rfl := Option.some.inj h
        simp [depth, howner]
      · cases h

theorem depth_lock_of_ne (h : lock t m = some m') (hne : u ≠ t) : depth u m' = depth u m := by
  have hinside : 0 < depth t m' := by
    rw [depth_lock h]
    exact Nat.succ_pos _
  rw [depth_eq_zero_of_pos hinside hne]
  cases m with
  | free => rfl
  | held owner extra =>
      simp only [lock] at h
      split at h
      · rename_i howner
        simp [depth, howner, hne.symm]
      · cases h

theorem depth_unlock (h : 0 < depth t m) : depth t m.unlock + 1 = depth t m := by
  cases m with
  | free => simp at h
  | held owner extra =>
      have howner : owner = t := by
        by_contra hother
        simp [depth, hother] at h
      cases extra <;> simp [unlock, depth, howner]

theorem depth_unlock_of_ne (h : 0 < depth t m) (hne : u ≠ t) :
    depth u m.unlock = depth u m := by
  rw [depth_eq_zero_of_pos h hne]
  cases m with
  | free => rfl
  | held owner extra =>
      have howner : owner = t := by
        by_contra hother
        simp [depth, hother] at h
      cases extra <;> simp [unlock, depth, howner, hne.symm]

end RecursiveMutex

end BedrockProtocol
