import Mathlib.Data.List.Induction

/-!
# Requests and answers in a log

Every entry of a log that asks for something is followed by one that answers it.
-/

namespace BedrockProtocol

variable {α : Type} {ask ask' answer answer' : α → Prop} {log entries : List α}

def Answered (ask answer : α → Prop) (log : List α) : Prop :=
  ∀ earlier entry later, log = earlier ++ entry :: later → ask entry → ∃ a ∈ later, answer a

theorem Answered.nil : Answered ask answer [] := by
  intro earlier entry later hlog
  simp at hlog

/-- An entry that asks nothing is an answer to all before it or changes nothing. -/
theorem answered_concat {last : α} :
    Answered ask answer (log ++ [last]) ↔ ¬ ask last ∧ (answer last ∨ Answered ask answer log) := by
  constructor
  · intro h
    refine ⟨fun hask ↦ ?_, ?_⟩
    · obtain ⟨a, ha, -⟩ := h log last [] rfl hask
      simp at ha
    · by_cases hlast : answer last
      · exact .inl hlast
      · refine .inr fun earlier entry later hlog hask ↦ ?_
        obtain ⟨a, ha, hanswer⟩ := h earlier entry (later ++ [last]) (by simp [hlog]) hask
        rcases List.mem_append.mp ha with ha | ha
        · exact ⟨a, ha, hanswer⟩
        · rw [List.mem_singleton.mp ha] at hanswer
          exact (hlast hanswer).elim
  · rintro ⟨hquiet, h⟩ earlier entry later hlog hask
    rcases List.eq_nil_or_concat later with rfl | ⟨later, last', rfl⟩
    · obtain ⟨-, hsame⟩ := List.append_inj' hlog rfl
      rw [List.singleton_inj.mp hsame] at hquiet
      exact (hquiet hask).elim
    · rw [List.concat_eq_append, ← List.cons_append, ← List.append_assoc] at hlog
      obtain ⟨rfl, hsame⟩ := List.append_inj' hlog rfl
      obtain rfl := List.singleton_inj.mp hsame
      rcases h with hlast | h
      · exact ⟨last, by simp, hlast⟩
      · obtain ⟨a, ha, hanswer⟩ := h earlier entry later rfl hask
        exact ⟨a, by simp [ha], hanswer⟩

/-- Entries that ask nothing leave every answer where it is. -/
theorem Answered.append (h : Answered ask answer log) (hquiet : ∀ entry ∈ entries, ¬ ask entry) :
    Answered ask answer (log ++ entries) := by
  induction entries using List.reverseRecOn with
  | nil => rwa [List.append_nil]
  | append_singleton entries last ih =>
      rw [← List.append_assoc, answered_concat]
      exact ⟨hquiet last (by simp), .inr (ih fun entry hentry ↦ hquiet entry (by simp [hentry]))⟩

/-- One answer among entries that ask nothing answers all before them. -/
theorem Answered.of_mem (log : List α) {a : α} (ha : a ∈ entries) (hanswer : answer a)
    (hquiet : ∀ entry ∈ entries, ¬ ask entry) : Answered ask answer (log ++ entries) := by
  obtain ⟨before, after, rfl⟩ := List.append_of_mem ha
  have hfirst : Answered ask answer (log ++ (before ++ [a])) := by
    rw [← List.append_assoc, answered_concat]
    exact ⟨hquiet a (by simp), .inl hanswer⟩
  have hall := @Answered.append _ _ _ _ after hfirst fun entry hentry ↦
    hquiet entry (by simp [hentry])
  simpa using hall

theorem Answered.mono (h : Answered ask answer log) (hask : ∀ entry, ask' entry → ask entry)
    (hanswer : ∀ entry, answer entry → answer' entry) : Answered ask' answer' log := by
  intro earlier entry later hlog hentry
  obtain ⟨a, ha, hfound⟩ := h earlier entry later hlog (hask entry hentry)
  exact ⟨a, ha, hanswer a hfound⟩

end BedrockProtocol
