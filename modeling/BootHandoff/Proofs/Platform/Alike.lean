/-
# Two runs that are answered alike

Two programs that look at the same thing agree on it only if they are given the same
answers.  `AnsweredAlike` says so of two lists of steps and asks no more: wherever the two went
alike so far and ask the same next, the answers are the same.  Which platforms gave them,
and what is asked once the two have parted, does not matter.

What is run on one platform from one state is always answered alike (`answeredAlike_run`).  And
two programs that start with a common part, and are answered alike, go through it on the
same steps and leave it with the same value (`AnsweredAlike.eq_of_path`).
-/

import BootHandoff.Proofs.Platform.Replay

namespace BootHandoff
namespace Platform

variable {α β : Type} {first second common rest more : List Step} {step : Step}

/-- Where two lists of steps went alike so far and the same is asked next, the answers in
them are the same. -/
def AnsweredAlike (first second : List Step) : Prop :=
  ∀ (before : List Step) (q : Query) (answer other : q.Answer),
    before ++ [⟨q, answer⟩] <+: first → before ++ [⟨q, other⟩] <+: second → answer = other

namespace AnsweredAlike

theorem answer_eq {q : Query} {answer other : q.Answer}
    (h : AnsweredAlike (⟨q, answer⟩ :: rest) (⟨q, other⟩ :: more)) : answer = other :=
  h [] q answer other ⟨rest, rfl⟩ ⟨more, rfl⟩

theorem tail (h : AnsweredAlike (step :: rest) (step :: more)) : AnsweredAlike rest more := by
  intro before q answer other hfirst hsecond
  refine h (step :: before) q answer other ?_ ?_
  · exact List.cons_prefix_cons.2 ⟨rfl, hfirst⟩
  · exact List.cons_prefix_cons.2 ⟨rfl, hsecond⟩

theorem of_append (h : AnsweredAlike (common ++ rest) (common ++ more)) :
    AnsweredAlike rest more := by
  induction common with
  | nil => exact h
  | cons step common ih => exact ih h.tail

/-- **A common part goes the same way** in two runs that are answered alike. -/
theorem eq_of_path {x : Firmware α} {a b : α} (h : AnsweredAlike (first ++ rest) (second ++ more))
    (h₁ : x.Path first a) (h₂ : x.Path second b) : first = second ∧ a = b := by
  induction h₁ generalizing second with
  | done a =>
    cases h₂
    exact ⟨rfl, rfl⟩
  | ask q answer _ ih =>
    cases h₂ with
    | ask _ other hrest =>
      obtain rfl := h.answer_eq
      obtain ⟨rfl, rfl⟩ := ih h.tail hrest
      exact ⟨rfl, rfl⟩

end AnsweredAlike

/-- A platform gives one answer to what it is asked after the same steps. -/
theorem Machine.Answers.answeredAlike {σ : Type} {m : Machine σ} {u : σ} (h₁ : m.Answers u first)
    (h₂ : m.Answers u second) : AnsweredAlike first second := by
  rintro before q answer other ⟨rest, rfl⟩ ⟨more, rfl⟩
  have hanswer := (answers_append.1 (answers_append.1 h₁).1).2.1
  have hother := (answers_append.1 (answers_append.1 h₂).1).2.1
  exact hanswer.trans hother.symm

/-- **On one platform, from one state, all is answered alike.** -/
theorem answeredAlike_run {σ : Type} (m : Machine σ) (u : σ) (x : Firmware α) (y : Firmware β) :
    AnsweredAlike (x.run m u).steps (y.run m u).steps :=
  (Firmware.answers_run m x u).answeredAlike (Firmware.answers_run m y u)

end Platform
end BootHandoff
