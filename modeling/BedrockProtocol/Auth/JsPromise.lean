import BedrockProtocol.Lib.Interleaving

/-!
# Promises and their microtask queue

`JsPromise.hpp` and `JsPromise.cpp`: promises that share a queue of reaction jobs with a single
worker.  Any thread may settle a promise or register a reaction; the two halves of such a call,
under the lock of the promise and under the lock of the queue, are steps of their own.  The state
of a promise holds its queue, so the queue is not stopping while somebody enqueues.
-/

namespace BedrockProtocol

namespace JsPromise

inductive Outcome (α : Type)
  | fulfilled (value : α)
  | rejected (error : String)
  deriving DecidableEq

/-- An exception, known by its message. -/
abbrev ExceptionPtr := Option String

def normalizeException (error : ExceptionPtr) : String :=
  error.getD "JsPromise rejected without an exception"

/-- What registered the reaction: `then`, `catchError` or `adoptPromise`. -/
inductive ReactionKind
  | onFulfilled
  | onRejected
  | adoption
  deriving DecidableEq

/-- A continuation of the promise `source`, which is to settle the promise `destination`. -/
structure Reaction where
  id : ℕ
  source : ℕ
  destination : ℕ
  kind : ReactionKind
  deriving DecidableEq

/-- What a reaction does when the worker runs it. -/
inductive Job (α : Type)
  | settle (destination : ℕ) (outcome : Outcome α)
  /-- The callback runs, and what it returns or throws settles the destination. -/
  | callback (destination : ℕ) (argument : Outcome α)
  deriving DecidableEq

def Reaction.job {α : Type} (reaction : Reaction) : Option (Outcome α) → Job α
  | some (.fulfilled value) =>
      match reaction.kind with
      | .onFulfilled => .callback reaction.destination (.fulfilled value)
      | .onRejected => .settle reaction.destination (.fulfilled value)
      | .adoption => .settle reaction.destination (.fulfilled value)
  | some (.rejected error) =>
      match reaction.kind with
      | .onFulfilled => .settle reaction.destination (.rejected error)
      | .onRejected => .callback reaction.destination (.rejected error)
      | .adoption => .settle reaction.destination (.rejected error)
  | none =>
      match reaction.kind with
      | .onFulfilled =>
          .settle reaction.destination (.rejected "JsPromise continuation ran before settlement")
      | .onRejected =>
          .settle reaction.destination
            (.rejected "JsPromise rejection continuation ran before settlement")
      | .adoption =>
          .settle reaction.destination (.rejected "JsPromise adoption ran before settlement")

/-- The shared state of a promise, and the outcomes that calls brought for it, in order. -/
structure Promise (α : Type) where
  outcome : Option (Outcome α) := none
  continuations : List Reaction := []
  attempts : List (Outcome α) := []

/-- A thread between the two locks, with the reactions that it is going to enqueue. -/
structure Hand where
  thread : ℕ
  promise : ℕ
  reactions : List Reaction

structure State (α : Type) where
  promises : ℕ → Promise α := fun _ ↦ {}
  /-- In the order in which the threads left the lock of their promise. -/
  hands : List Hand := []
  tasks : List Reaction := []
  /-- What the worker took from the queue. -/
  started : List Reaction := []
  registered : List Reaction := []

/-- A step, by the thread that takes it. -/
inductive Label (α : Type)
  | fulfill (thread promise : ℕ) (value : α)
  | reject (thread promise : ℕ) (error : ExceptionPtr)
  | addContinuation (thread promise destination : ℕ) (kind : ReactionKind)
  | enqueueBatch (thread : ℕ)
  | work

namespace State

variable {α : Type} (s : State α)

/-- The thread is still on its way to the queue. -/
def Busy (thread : ℕ) : Prop := ∃ hand ∈ s.hands, hand.thread = thread

instance (thread : ℕ) : Decidable (s.Busy thread) :=
  inferInstanceAs (Decidable (∃ hand ∈ s.hands, hand.thread = thread))

/-- The locked part of `fulfillShared`, `fulfill` and `reject`. -/
def settle (thread promise : ℕ) (outcome : Outcome α) : State α :=
  let found := s.promises promise
  match found.outcome with
  | some _ =>
      { s with
        promises := Function.update s.promises promise
          { found with attempts := found.attempts ++ [outcome] } }
  | none =>
      { s with
        promises := Function.update s.promises promise
          { outcome := some outcome, continuations := []
            attempts := found.attempts ++ [outcome] }
        -- nothing is published for an empty list
        hands := if found.continuations = [] then s.hands
          else s.hands ++ [⟨thread, promise, found.continuations⟩] }

/-- The locked part of `addContinuation`. -/
def addContinuation (thread promise destination : ℕ) (kind : ReactionKind) : State α :=
  let found := s.promises promise
  let reaction : Reaction := ⟨s.registered.length, promise, destination, kind⟩
  match found.outcome with
  | none =>
      { s with
        promises := Function.update s.promises promise
          { found with continuations := found.continuations ++ [reaction] }
        registered := s.registered ++ [reaction] }
  | some _ =>
      { s with
        hands := s.hands ++ [⟨thread, promise, [reaction]⟩]
        registered := s.registered ++ [reaction] }

/-- The locked part of `enqueueBatch`. -/
def enqueueBatch (thread : ℕ) : State α :=
  match s.hands.find? fun hand ↦ hand.thread = thread with
  | none => s
  | some hand =>
      { s with
        hands := s.hands.eraseP fun hand ↦ hand.thread = thread
        tasks := s.tasks ++ hand.reactions }

/-- The worker takes the first task. -/
def work : State α :=
  match s.tasks with
  | [] => s
  | task :: tasks => { s with tasks, started := s.started ++ [task] }

/-- A thread that is on its way to the queue makes no other call. -/
def step (s : State α) : Label α → State α
  | .fulfill thread promise value =>
      if s.Busy thread then s else s.settle thread promise (.fulfilled value)
  | .reject thread promise error =>
      if s.Busy thread then s
      else s.settle thread promise (.rejected (normalizeException error))
  | .addContinuation thread promise destination kind =>
      if s.Busy thread then s else s.addContinuation thread promise destination kind
  | .enqueueBatch thread => s.enqueueBatch thread
  | .work => s.work

/-! ## What is observed -/

/-- What was put on the queue, in order. -/
def entered : List Reaction := s.started ++ s.tasks

def enteredOf (promise : ℕ) : List Reaction :=
  s.entered.filter fun reaction ↦ reaction.source = promise

def registeredOf (promise : ℕ) : List Reaction :=
  s.registered.filter fun reaction ↦ reaction.source = promise

/-- The reactions that threads are going to enqueue. -/
def handsOf (promise : ℕ) : List Reaction :=
  (s.hands.filter fun hand ↦ hand.promise = promise).flatMap Hand.reactions

end State

end JsPromise

end BedrockProtocol
