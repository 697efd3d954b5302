import BedrockProtocol.Auth.JsPromise
import Mathlib.Data.List.Nodup

/-!
# The order of reactions

A promise is settled once, and its reactions reach the queue after that, each at most once.
They do so in the order of their registration as long as a thread that holds reactions of a
promise enqueues them before the threads that found the promise settled after it.
-/

namespace BedrockProtocol.JsPromise.State

variable {α : Type} {s : State α}

/-! ## What holds in every state -/

/-- The invariant of promises, threads and queue. -/
structure Sound (s : State α) : Prop where
  first : ∀ p, (s.promises p).outcome = (s.promises p).attempts.head?
  parked_source : ∀ p, ∀ reaction ∈ (s.promises p).continuations, reaction.source = p
  parked_pending : ∀ p, (s.promises p).outcome ≠ none → (s.promises p).continuations = []
  hand_source : ∀ hand ∈ s.hands, ∀ reaction ∈ hand.reactions, reaction.source = hand.promise
  hand_ne_nil : ∀ hand ∈ s.hands, hand.reactions ≠ []
  hand_settled : ∀ hand ∈ s.hands, (s.promises hand.promise).outcome ≠ none
  entered_settled : ∀ reaction ∈ s.entered, (s.promises reaction.source).outcome ≠ none
  numbered : s.registered.map Reaction.id = List.range s.registered.length

theorem sound_start : ({} : State α).Sound where
  first _ := rfl
  parked_source := by simp
  parked_pending := by simp
  hand_source := by simp
  hand_ne_nil := by simp
  hand_settled := by simp
  entered_settled := by simp [entered]
  numbered := rfl

theorem Sound.nodup_registered (h : s.Sound) : s.registered.Nodup := by
  apply List.Nodup.of_map Reaction.id
  rw [h.numbered]
  exact List.nodup_range

/-- The two ways to settle. -/
theorem settle_cases (thread p : ℕ) (outcome : Outcome α) :
    ((s.promises p).outcome ≠ none ∧ s.settle thread p outcome =
      { s with
        promises := Function.update s.promises p
          { s.promises p with attempts := (s.promises p).attempts ++ [outcome] } }) ∨
    ((s.promises p).outcome = none ∧ s.settle thread p outcome =
      { s with
        promises := Function.update s.promises p
          { outcome := some outcome, continuations := []
            attempts := (s.promises p).attempts ++ [outcome] }
        hands := if (s.promises p).continuations = [] then s.hands
          else s.hands ++ [⟨thread, p, (s.promises p).continuations⟩] }) := by
  unfold settle
  cases houtcome : (s.promises p).outcome with
  | some found => exact .inl ⟨by simp, by simp [houtcome]⟩
  | none => exact .inr ⟨rfl, by simp [houtcome]⟩

/-- The two ways to register a reaction. -/
theorem addContinuation_cases (thread p destination : ℕ) (kind : ReactionKind) :
    ∃ reaction : Reaction, reaction.id = s.registered.length ∧ reaction.source = p ∧
      (((s.promises p).outcome = none ∧ s.addContinuation thread p destination kind =
        { s with
          promises := Function.update s.promises p
            { s.promises p with
              continuations := (s.promises p).continuations ++ [reaction] }
          registered := s.registered ++ [reaction] }) ∨
      ((s.promises p).outcome ≠ none ∧ s.addContinuation thread p destination kind =
        { s with
          hands := s.hands ++ [⟨thread, p, [reaction]⟩]
          registered := s.registered ++ [reaction] })) := by
  refine ⟨⟨s.registered.length, p, destination, kind⟩, rfl, rfl, ?_⟩
  unfold addContinuation
  cases houtcome : (s.promises p).outcome with
  | none => exact .inl ⟨rfl, by simp [houtcome]⟩
  | some found => exact .inr ⟨by simp, by simp only [houtcome]⟩

/-- A thread enqueues what it holds, if it holds something. -/
theorem enqueueBatch_cases (thread : ℕ) :
    (s.hands.find? (fun hand ↦ hand.thread = thread) = none ∧ s.enqueueBatch thread = s) ∨
    ∃ before hand after, s.hands = before ++ hand :: after ∧
      s.hands.find? (fun hand ↦ hand.thread = thread) = some hand ∧
      s.hands.takeWhile (fun hand ↦ hand.thread ≠ thread) = before ∧
      s.enqueueBatch thread =
        { s with hands := before ++ after, tasks := s.tasks ++ hand.reactions } := by
  unfold enqueueBatch
  cases hfind : s.hands.find? fun hand ↦ hand.thread = thread with
  | none => exact .inl ⟨rfl, rfl⟩
  | some hand =>
      obtain ⟨hhand, before, after, hhands, hbefore⟩ := List.find?_eq_some_iff_append.mp hfind
      refine .inr ⟨before, hand, after, hhands, rfl, ?_, ?_⟩
      · rw [hhands, List.takeWhile_append_of_pos, List.takeWhile_cons_of_neg, List.append_nil]
        · simpa using hhand
        · simpa using hbefore
      · have herase : s.hands.eraseP (fun hand ↦ hand.thread = thread) = before ++ after := by
          rw [hhands, List.eraseP_append_right, List.eraseP_cons_of_pos (by simpa using hhand)]
          simpa using hbefore
        dsimp only
        rw [herase]

theorem work_cases : s.work = s ∨ ∃ task tasks, s.tasks = task :: tasks ∧
    s.work = { s with tasks, started := s.started ++ [task] } := by
  unfold work
  cases htasks : s.tasks with
  | nil => exact .inl rfl
  | cons task tasks => exact .inr ⟨task, tasks, rfl, rfl⟩

@[simp] theorem entered_work : s.work.entered = s.entered := by
  rcases work_cases (s := s) with h | ⟨task, tasks, htasks, h⟩
  · rw [h]
  · rw [h, entered, entered, htasks, List.append_assoc]
    rfl

theorem Sound.settle (h : s.Sound) (thread p : ℕ) (outcome : Outcome α) :
    (s.settle thread p outcome).Sound := by
  rcases settle_cases (s := s) thread p outcome with ⟨hsettled, heq⟩ | ⟨hpending, heq⟩
  · have houtcome (q : ℕ) : ((s.settle thread p outcome).promises q).outcome =
        (s.promises q).outcome := by
      rw [heq]
      by_cases hq : q = p
      · subst hq
        simp
      · simp [hq]
    have hcontinuations (q : ℕ) : ((s.settle thread p outcome).promises q).continuations =
        (s.promises q).continuations := by
      rw [heq]
      by_cases hq : q = p
      · subst hq
        simp
      · simp [hq]
    have hhands : (s.settle thread p outcome).hands = s.hands := by rw [heq]
    have hentered : (s.settle thread p outcome).entered = s.entered := by rw [heq]; rfl
    constructor
    · intro q
      rw [houtcome, heq]
      by_cases hq : q = p
      · subst hq
        have hne : (s.promises q).attempts ≠ [] := by
          intro hnil
          rw [h.first, hnil] at hsettled
          exact hsettled rfl
        simp [h.first, List.head?_append_of_ne_nil _ hne]
      · simp [hq, h.first]
    · intro q
      rw [hcontinuations]
      exact h.parked_source q
    · intro q
      rw [houtcome, hcontinuations]
      exact h.parked_pending q
    · rw [hhands]
      exact h.hand_source
    · rw [hhands]
      exact h.hand_ne_nil
    · rw [hhands]
      intro hand hhand
      rw [houtcome]
      exact h.hand_settled hand hhand
    · rw [hentered]
      intro reaction hreaction
      rw [houtcome]
      exact h.entered_settled reaction hreaction
    · rw [heq]
      exact h.numbered
  · have hother (q : ℕ) (hq : q ≠ p) :
        (s.settle thread p outcome).promises q = s.promises q := by
      rw [heq]
      simp [hq]
    have hself : (s.settle thread p outcome).promises p =
        { outcome := some outcome, continuations := []
          attempts := (s.promises p).attempts ++ [outcome] } := by
      rw [heq]
      simp
    have hkeeps (q : ℕ) (hq : (s.promises q).outcome ≠ none) :
        ((s.settle thread p outcome).promises q).outcome ≠ none := by
      by_cases hqp : q = p
      · rw [hqp, hself]
        simp
      · rwa [hother q hqp]
    have hhand : ∀ hand ∈ (s.settle thread p outcome).hands, hand ∈ s.hands ∨
        (s.promises p).continuations ≠ [] ∧ hand = ⟨thread, p, (s.promises p).continuations⟩ := by
      intro hand hhand
      rw [heq] at hhand
      by_cases hnone : (s.promises p).continuations = []
      · rw [if_pos hnone] at hhand
        exact .inl hhand
      · rw [if_neg hnone, List.mem_append, List.mem_singleton] at hhand
        exact hhand.imp_right fun hnew ↦ ⟨hnone, hnew⟩
    have hentered : (s.settle thread p outcome).entered = s.entered := by rw [heq]; rfl
    constructor
    · intro q
      by_cases hq : q = p
      · have hnone : (s.promises p).attempts = [] := by
          rwa [h.first, List.head?_eq_none_iff] at hpending
        rw [hq, hself, hnone]
        rfl
      · rw [hother q hq, h.first]
    · intro q
      by_cases hq : q = p
      · rw [hq, hself]
        simp
      · rw [hother q hq]
        exact h.parked_source q
    · intro q
      by_cases hq : q = p
      · rw [hq, hself]
        simp
      · rw [hother q hq]
        exact h.parked_pending q
    · intro hand hmem
      rcases hhand hand hmem with hold | ⟨-, rfl⟩
      · exact h.hand_source hand hold
      · exact h.parked_source p
    · intro hand hmem
      rcases hhand hand hmem with hold | ⟨hne, rfl⟩
      · exact h.hand_ne_nil hand hold
      · exact hne
    · intro hand hmem
      rcases hhand hand hmem with hold | ⟨-, rfl⟩
      · exact hkeeps _ (h.hand_settled hand hold)
      · rw [hself]
        simp
    · rw [hentered]
      intro reaction hreaction
      exact hkeeps _ (h.entered_settled reaction hreaction)
    · rw [heq]
      exact h.numbered

theorem numbered_append (h : s.Sound) {reaction : Reaction}
    (hid : reaction.id = s.registered.length) :
    (s.registered ++ [reaction]).map Reaction.id =
      List.range (s.registered ++ [reaction]).length := by
  rw [List.map_append, h.numbered, List.length_append, List.length_singleton, List.range_succ]
  simp [hid]

theorem Sound.addContinuation (h : s.Sound) (thread p destination : ℕ) (kind : ReactionKind) :
    (s.addContinuation thread p destination kind).Sound := by
  obtain ⟨reaction, hid, hsource, ⟨hpending, heq⟩ | ⟨hsettled, heq⟩⟩ :=
    addContinuation_cases (s := s) thread p destination kind
  · have houtcome (q : ℕ) : ((s.addContinuation thread p destination kind).promises q).outcome =
        (s.promises q).outcome := by
      rw [heq]
      by_cases hq : q = p
      · subst hq
        simp
      · simp [hq]
    have hhands : (s.addContinuation thread p destination kind).hands = s.hands := by rw [heq]
    have hentered : (s.addContinuation thread p destination kind).entered = s.entered := by
      rw [heq]
      rfl
    constructor
    · intro q
      rw [houtcome, heq, h.first]
      by_cases hq : q = p
      · subst hq
        simp
      · simp [hq]
    · intro q found hfound
      rw [heq] at hfound
      by_cases hq : q = p
      · subst hq
        simp only [Function.update_self, List.mem_append, List.mem_singleton] at hfound
        rcases hfound with hold | rfl
        · exact h.parked_source q found hold
        · exact hsource
      · simp only [Function.update_of_ne hq] at hfound
        exact h.parked_source q found hfound
    · intro q hne
      rw [houtcome] at hne
      have hq : q ≠ p := fun hq ↦ hne (hq ▸ hpending)
      rw [heq]
      simpa [hq] using h.parked_pending q hne
    · rw [hhands]
      exact h.hand_source
    · rw [hhands]
      exact h.hand_ne_nil
    · rw [hhands]
      intro hand hhand
      rw [houtcome]
      exact h.hand_settled hand hhand
    · rw [hentered]
      intro found hfound
      rw [houtcome]
      exact h.entered_settled found hfound
    · rw [heq]
      exact numbered_append h hid
  · rw [heq]
    have hhand : ∀ hand ∈ s.hands ++ [(⟨thread, p, [reaction]⟩ : Hand)],
        hand ∈ s.hands ∨ hand = ⟨thread, p, [reaction]⟩ := by simp
    refine ⟨h.first, h.parked_source, h.parked_pending, ?_, ?_, ?_, h.entered_settled,
      numbered_append h hid⟩
    · intro hand hmem
      rcases hhand hand hmem with hold | rfl
      · exact h.hand_source hand hold
      · simpa using hsource
    · intro hand hmem
      rcases hhand hand hmem with hold | rfl
      · exact h.hand_ne_nil hand hold
      · simp
    · intro hand hmem
      rcases hhand hand hmem with hold | rfl
      · exact h.hand_settled hand hold
      · exact hsettled

theorem Sound.enqueueBatch (h : s.Sound) (thread : ℕ) : (s.enqueueBatch thread).Sound := by
  rcases enqueueBatch_cases (s := s) thread with
    ⟨-, heq⟩ | ⟨before, hand, after, hhands, -, -, heq⟩
  · rwa [heq]
  · have hmem : hand ∈ s.hands := by simp [hhands]
    have hrest : ∀ other ∈ before ++ after, other ∈ s.hands := by
      intro other hother
      rw [hhands]
      rcases List.mem_append.mp hother with hleft | hright
      · simp [hleft]
      · simp [hright]
    rw [heq]
    refine ⟨h.first, h.parked_source, h.parked_pending, fun other hother ↦
      h.hand_source other (hrest other hother), fun other hother ↦
      h.hand_ne_nil other (hrest other hother), fun other hother ↦
      h.hand_settled other (hrest other hother), ?_, h.numbered⟩
    intro reaction hreaction
    rw [entered, ← List.append_assoc] at hreaction
    rcases List.mem_append.mp hreaction with hold | hnew
    · exact h.entered_settled reaction hold
    · rw [h.hand_source hand hmem reaction hnew]
      exact h.hand_settled hand hmem

theorem Sound.work (h : s.Sound) : s.work.Sound := by
  have hentered := s.entered_work
  rcases work_cases (s := s) with heq | ⟨task, tasks, -, heq⟩
  · rwa [heq]
  · rw [heq] at hentered ⊢
    refine ⟨h.first, h.parked_source, h.parked_pending, h.hand_source, h.hand_ne_nil,
      h.hand_settled, ?_, h.numbered⟩
    rw [hentered]
    exact h.entered_settled

/-- What a step can do. -/
theorem step_cases (s : State α) (label : Label α) :
    s.step label = s ∨
    (∃ thread p outcome, s.step label = s.settle thread p outcome) ∨
    (∃ thread p destination kind,
      s.step label = s.addContinuation thread p destination kind) ∨
    (∃ thread, label = .enqueueBatch thread ∧ s.step label = s.enqueueBatch thread) ∨
    s.step label = s.work := by
  cases label with
  | fulfill thread p value =>
      by_cases hbusy : s.Busy thread
      · exact .inl (if_pos hbusy)
      · exact .inr (.inl ⟨thread, p, _, if_neg hbusy⟩)
  | reject thread p error =>
      by_cases hbusy : s.Busy thread
      · exact .inl (if_pos hbusy)
      · exact .inr (.inl ⟨thread, p, _, if_neg hbusy⟩)
  | addContinuation thread p destination kind =>
      by_cases hbusy : s.Busy thread
      · exact .inl (if_pos hbusy)
      · exact .inr (.inr (.inl ⟨thread, p, destination, kind, if_neg hbusy⟩))
  | enqueueBatch thread => exact .inr (.inr (.inr (.inl ⟨thread, rfl, rfl⟩)))
  | work => exact .inr (.inr (.inr (.inr rfl)))

theorem Sound.step (h : s.Sound) (label : Label α) : (s.step label).Sound := by
  rcases step_cases s label with heq | ⟨thread, p, outcome, heq⟩ |
    ⟨thread, p, destination, kind, heq⟩ | ⟨thread, -, heq⟩ | heq
  · rwa [heq]
  · rw [heq]
    exact h.settle thread p outcome
  · rw [heq]
    exact h.addContinuation thread p destination kind
  · rw [heq]
    exact h.enqueueBatch thread
  · rw [heq]
    exact h.work

/-! ## The line of a promise -/

/-- The reactions of every promise stand in the order of their registration: in the queue, with
the threads on their way there, and at the promise. -/
def InLine (s : State α) : Prop :=
  ∀ p, s.enteredOf p ++ (s.handsOf p ++ (s.promises p).continuations) = s.registeredOf p

theorem handsOf_append {s s' : State α} {hand : Hand} (h : s'.hands = s.hands ++ [hand]) (p : ℕ) :
    s'.handsOf p = s.handsOf p ++ if hand.promise = p then hand.reactions else [] := by
  rw [handsOf, h, List.filter_append, List.flatMap_append]
  by_cases hp : hand.promise = p
  · simp [handsOf, hp]
  · simp [handsOf, hp]

theorem InLine.settle (h : s.InLine) (thread p : ℕ) (outcome : Outcome α) :
    (s.settle thread p outcome).InLine := by
  intro q
  rcases settle_cases (s := s) thread p outcome with ⟨-, heq⟩ | ⟨-, heq⟩
  · have hcontinuations : ((s.settle thread p outcome).promises q).continuations =
        (s.promises q).continuations := by
      rw [heq]
      by_cases hq : q = p
      · subst hq
        simp
      · simp [hq]
    rw [hcontinuations, heq]
    exact h q
  · have hentered : (s.settle thread p outcome).enteredOf q = s.enteredOf q := by rw [heq]; rfl
    have hregistered : (s.settle thread p outcome).registeredOf q = s.registeredOf q := by
      rw [heq]
      rfl
    have hhands : (s.settle thread p outcome).handsOf q =
        s.handsOf q ++ if p = q then (s.promises p).continuations else [] := by
      by_cases hnone : (s.promises p).continuations = []
      · rw [hnone, ite_self, List.append_nil, heq, if_pos hnone]
        rfl
      · have happend : (s.settle thread p outcome).hands =
            s.hands ++ [⟨thread, p, (s.promises p).continuations⟩] := by
          rw [heq, if_neg hnone]
        exact handsOf_append happend q
    rw [hentered, hregistered, hhands, ← h q, heq]
    by_cases hq : q = p
    · subst hq
      simp
    · simp [hq, Ne.symm hq]

theorem InLine.addContinuation (hs : s.Sound) (h : s.InLine) (thread p destination : ℕ)
    (kind : ReactionKind) : (s.addContinuation thread p destination kind).InLine := by
  intro q
  obtain ⟨reaction, -, hsource, hcases⟩ :=
    addContinuation_cases (s := s) thread p destination kind
  have hline := h q
  have hregistered : (s.addContinuation thread p destination kind).registeredOf q =
      s.registeredOf q ++ if p = q then [reaction] else [] := by
    have heq : (s.addContinuation thread p destination kind).registered =
        s.registered ++ [reaction] := by
      rcases hcases with ⟨-, heq⟩ | ⟨-, heq⟩ <;> rw [heq]
    rw [registeredOf, heq, List.filter_append]
    by_cases hq : p = q
    · simp [registeredOf, hsource, hq]
    · simp [registeredOf, hsource, hq]
  have hentered : (s.addContinuation thread p destination kind).enteredOf q = s.enteredOf q := by
    rcases hcases with ⟨-, heq⟩ | ⟨-, heq⟩ <;> rw [heq] <;> rfl
  rw [hregistered, hentered, ← hline, List.append_assoc, List.append_assoc]
  congr 1
  rcases hcases with ⟨-, heq⟩ | ⟨hsettled, heq⟩
  · have hhands : (s.addContinuation thread p destination kind).handsOf q = s.handsOf q := by
      rw [heq]
      rfl
    rw [hhands, heq]
    congr 1
    by_cases hq : q = p
    · subst hq
      simp
    · simp [hq, Ne.symm hq]
  · have happend : (s.addContinuation thread p destination kind).hands =
        s.hands ++ [⟨thread, p, [reaction]⟩] := by rw [heq]
    have hhands := handsOf_append happend q
    rw [hhands, heq, List.append_assoc]
    congr 1
    by_cases hq : p = q
    · subst hq
      simp [hs.parked_pending p hsettled]
    · simp [hq]

theorem InLine.work (h : s.InLine) : s.work.InLine := by
  intro p
  have hentered : s.work.enteredOf p = s.enteredOf p := by rw [enteredOf, entered_work, enteredOf]
  rw [hentered]
  rcases work_cases (s := s) with heq | ⟨task, tasks, -, heq⟩
  · rw [heq]
    exact h p
  · rw [heq]
    exact h p

/-- Threads that left the lock of the promise earlier have enqueued what they hold. -/
def InTurn (s : State α) : Label α → Prop
  | .enqueueBatch thread =>
      ∀ hand, s.hands.find? (fun hand ↦ hand.thread = thread) = some hand →
        ∀ other ∈ s.hands.takeWhile fun hand ↦ hand.thread ≠ thread, other.promise ≠ hand.promise
  | _ => True

/-- What enqueueing adds to the reactions of a promise. -/
theorem Sound.enteredOf_enqueueBatch (h : s.Sound) (thread : ℕ) {hand : Hand}
    (hmem : hand ∈ s.hands) (p : ℕ)
    (htasks : (s.enqueueBatch thread).entered = s.entered ++ hand.reactions) :
    (s.enqueueBatch thread).enteredOf p =
      s.enteredOf p ++ if hand.promise = p then hand.reactions else [] := by
  have hsource := h.hand_source hand hmem
  rw [enteredOf, htasks, List.filter_append, enteredOf]
  congr 1
  split
  · rename_i hp
    rw [List.filter_eq_self]
    intro reaction hreaction
    simpa [hsource reaction hreaction] using hp
  · rename_i hp
    rw [List.filter_eq_nil_iff]
    intro reaction hreaction
    simpa [hsource reaction hreaction] using hp

theorem InLine.enqueueBatch (hs : s.Sound) (h : s.InLine) {thread : ℕ}
    (hturn : s.InTurn (.enqueueBatch thread)) : (s.enqueueBatch thread).InLine := by
  rcases enqueueBatch_cases (s := s) thread with
    ⟨-, heq⟩ | ⟨before, hand, after, hhands, hfind, hbefore, heq⟩
  · rwa [heq]
  intro p
  have hmem : hand ∈ s.hands := by simp [hhands]
  have hentered := hs.enteredOf_enqueueBatch thread hmem p (by
    rw [heq, entered, entered, List.append_assoc])
  have hothers := hturn hand hfind
  rw [hbefore] at hothers
  have hline := h p
  rw [handsOf, hhands] at hline
  rw [hentered, heq, handsOf]
  dsimp only
  by_cases hp : hand.promise = p
  · have hnone : before.filter (fun hand ↦ hand.promise = p) = [] := by
      rw [List.filter_eq_nil_iff]
      intro other hother
      simpa [← hp] using hothers other hother
    rw [List.filter_append, hnone, List.filter_cons_of_pos (by simpa using hp)] at hline
    rw [if_pos hp, List.filter_append, hnone]
    change _ = s.registeredOf p
    simpa using hline
  · rw [List.filter_append, List.filter_cons_of_neg (by simpa using hp), ← List.filter_append]
      at hline
    rw [if_neg hp, List.append_nil]
    exact hline

theorem InLine.step (hs : s.Sound) (h : s.InLine) {label : Label α} (hturn : s.InTurn label) :
    (s.step label).InLine := by
  rcases step_cases s label with heq | ⟨thread, p, outcome, heq⟩ |
    ⟨thread, p, destination, kind, heq⟩ | ⟨thread, rfl, heq⟩ | heq
  · rwa [heq]
  · rw [heq]
    exact h.settle thread p outcome
  · rw [heq]
    exact h.addContinuation hs thread p destination kind
  · rw [heq]
    exact h.enqueueBatch hs hturn
  · rw [heq]
    exact h.work

/-! ## What is promised -/

/-- A promise has the outcome of the first call that settled it; its reactions are different, they
enter the queue after that and in the order of their registration, and once no thread holds one,
all of them have. -/
structure Kept (s : State α) : Prop where
  first : ∀ p, (s.promises p).outcome = (s.promises p).attempts.head?
  settled : ∀ reaction ∈ s.entered, (s.promises reaction.source).outcome ≠ none
  distinct : s.registered.Nodup
  order : ∀ p, s.enteredOf p <+: s.registeredOf p
  complete : ∀ p, (s.promises p).outcome ≠ none → s.handsOf p = [] →
    s.enteredOf p = s.registeredOf p

theorem kept_of_inLine (hs : s.Sound) (h : s.InLine) : s.Kept where
  first := hs.first
  settled := hs.entered_settled
  distinct := hs.nodup_registered
  order p := ⟨_, h p⟩
  complete := by
    intro p hsettled hhands
    rw [← h p, hhands, hs.parked_pending p hsettled]
    simp

/-- A thread that enqueues before its turn breaks the order. -/
theorem inTurn_of_order (hs : s.Sound) (h : s.InLine) {label : Label α}
    (horder : ∀ p, (s.step label).enteredOf p <+: (s.step label).registeredOf p) :
    s.InTurn label := by
  cases label with
  | fulfill thread p value => trivial
  | reject thread p error => trivial
  | addContinuation thread p destination kind => trivial
  | work => trivial
  | enqueueBatch thread =>
      change ∀ p, (s.enqueueBatch thread).enteredOf p <+: (s.enqueueBatch thread).registeredOf p
        at horder
      rcases enqueueBatch_cases (s := s) thread with
        ⟨hnone, -⟩ | ⟨before, hand, after, hhands, hfind, hbefore, heq⟩
      · intro hand hfind
        rw [hnone] at hfind
        cases hfind
      intro found hfound other hother hsame
      obtain rfl := Option.some.inj (hfind.symm.trans hfound)
      rw [hbefore] at hother
      have hmem : hand ∈ s.hands := by simp [hhands]
      have hmem' : other ∈ s.hands := by simp [hhands, hother]
      have hentered := hs.enteredOf_enqueueBatch thread hmem hand.promise (by
        rw [heq, entered, entered, List.append_assoc])
      have hline := h hand.promise
      have hregistered : (s.enqueueBatch thread).registeredOf hand.promise =
          s.registeredOf hand.promise := by
        rw [heq]
        rfl
      rw [handsOf, hhands, List.filter_append, List.filter_cons_of_pos (by simp),
        List.flatMap_append, List.flatMap_cons] at hline
      have hprefix := horder hand.promise
      rw [hentered, if_pos rfl, hregistered, ← hline, List.prefix_append_right_inj,
        List.append_assoc] at hprefix
      -- the first reaction of the thread would be the first of the others' too
      obtain ⟨reaction, rest, hreactions⟩ := List.exists_cons_of_ne_nil (hs.hand_ne_nil hand hmem)
      obtain ⟨earlier, others, hearlier⟩ : ∃ earlier others,
          (before.filter fun hand' ↦ hand'.promise = hand.promise).flatMap Hand.reactions =
            earlier :: others := by
        apply List.exists_cons_of_ne_nil
        intro hnil
        rw [List.flatMap_eq_nil_iff] at hnil
        exact hs.hand_ne_nil other hmem' (hnil other (List.mem_filter.mpr ⟨hother, by simpa⟩))
      rw [hearlier, hreactions, List.cons_append, List.cons_prefix_cons] at hprefix
      obtain ⟨rfl, -⟩ := hprefix
      have hnodup := hs.nodup_registered.filter fun found ↦ found.source = hand.promise
      change (s.registeredOf hand.promise).Nodup at hnodup
      rw [← hline, hearlier, hreactions, List.nodup_append, List.append_assoc, List.cons_append,
        List.nodup_cons] at hnodup
      exact hnodup.2.1.1 (by simp)

/-- Whatever the threads do, promises are kept all along a run exactly when threads enqueue
the reactions of a promise in the order in which they left its lock. -/
theorem kept_iff (labels : List (Label α)) :
    (∀ before, before <+: labels → (run step ({} : State α) before).Kept) ↔
      AllSteps step InTurn ({} : State α) labels := by
  suffices hall : ∀ s : State α, s.Sound → s.InLine →
      ((∀ before, before <+: labels → (run step s before).Kept) ↔
        AllSteps step InTurn s labels) by
    exact hall {} sound_start fun p ↦ rfl
  induction labels with
  | nil =>
      intro s hs h
      refine iff_of_true (fun before hbefore ↦ ?_) trivial
      rw [List.prefix_nil.mp hbefore]
      exact kept_of_inLine hs h
  | cons label labels ih =>
      intro s hs h
      constructor
      · intro hkept
        have hturn : s.InTurn label := inTurn_of_order hs h
          (hkept [label] ⟨labels, rfl⟩).order
        refine ⟨hturn, (ih _ (hs.step label) (h.step hs hturn)).mp fun before hbefore ↦ ?_⟩
        exact hkept (label :: before) (List.cons_prefix_cons.mpr ⟨rfl, hbefore⟩)
      · rintro ⟨hturn, hrest⟩ before hbefore
        cases before with
        | nil => exact kept_of_inLine hs h
        | cons first before =>
            obtain ⟨rfl, hlater⟩ := List.cons_prefix_cons.mp hbefore
            exact (ih _ (hs.step first) (h.step hs hturn)).mpr hrest before hlater

/-- What holds whatever the order is. -/
theorem sound_run (labels : List (Label α)) : (run step ({} : State α) labels).Sound :=
  invariant_always (fun _ label h ↦ h.step label) sound_start labels

/-- A reaction rejects only with what its promise was rejected with: none runs before the
settlement. -/
theorem Sound.job_rejected (h : s.Sound) {reaction : Reaction} (hreaction : reaction ∈ s.entered)
    {destination : ℕ} {error : String}
    (hjob : reaction.job (s.promises reaction.source).outcome =
      .settle destination (.rejected error)) :
    (s.promises reaction.source).outcome = some (.rejected error) := by
  have hsettled := h.entered_settled reaction hreaction
  obtain ⟨id, source, destination', kind⟩ := reaction
  cases houtcome : (s.promises source).outcome with
  | none => exact (hsettled houtcome).elim
  | some outcome =>
      rw [houtcome] at hjob
      cases outcome with
      | fulfilled value => cases kind <;> cases hjob
      | rejected found =>
          cases kind with
          | onRejected => cases hjob
          | onFulfilled =>
              cases hjob
              rfl
          | adoption =>
              cases hjob
              rfl

/-- One reaction is registered, then the promise is fulfilled, and a second reaction overtakes
the first one. -/
theorem late_reaction_overtakes :
    let s := run step ({} : State ℕ) [.addContinuation 0 0 1 .onFulfilled, .fulfill 1 0 7,
      .addContinuation 2 0 2 .onFulfilled, .enqueueBatch 2, .enqueueBatch 1]
    s.registeredOf 0 = [⟨0, 0, 1, .onFulfilled⟩, ⟨1, 0, 2, .onFulfilled⟩] ∧
      s.enteredOf 0 = [⟨1, 0, 2, .onFulfilled⟩, ⟨0, 0, 1, .onFulfilled⟩] ∧ ¬ s.Kept := by
  have hentered : (run step ({} : State ℕ) [.addContinuation 0 0 1 .onFulfilled, .fulfill 1 0 7,
      .addContinuation 2 0 2 .onFulfilled, .enqueueBatch 2, .enqueueBatch 1]).enteredOf 0 =
        [⟨1, 0, 2, .onFulfilled⟩, ⟨0, 0, 1, .onFulfilled⟩] := rfl
  refine ⟨rfl, hentered, fun h ↦ ?_⟩
  have horder := h.order 0
  rw [hentered] at horder
  exact absurd (List.cons_prefix_cons.mp horder).1 (by decide)

end BedrockProtocol.JsPromise.State
