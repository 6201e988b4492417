import FrequencySampling.Proofs.Search.Transcript

/-!
The questions of a run in their order, each with what came back. A refused question is the last and
its error is the outcome. What a search asks depends on the answers alone: two objectives, whatever
else they are, that give the same first answers are asked the same until then, and the next question
is the same as well.
-/

namespace FrequencySampling.Search

variable {α π ρ : Type}

/-- The point of a question and what came back. -/
def Event.question? : Event α π → Option (π × Outcome α α)
  | .asked p a => some (p, a)
  | .told _ => none

/-- The questions asked, in order. -/
def questions (es : List (Event α π)) : List (π × Outcome α α) :=
  es.filterMap Event.question?

/-- The points asked about, in order. -/
def points (es : List (Event α π)) : List π :=
  (questions es).map Prod.fst

/-- What came back, in order. -/
def answers (es : List (Event α π)) : List (Outcome α α) :=
  (questions es).map Prod.snd

variable {es es' : List (Event α π)}

@[simp] theorem questions_append (es es' : List (Event α π)) :
    questions (es ++ es') = questions es ++ questions es' :=
  List.filterMap_append

@[simp] theorem points_append (es es' : List (Event α π)) :
    points (es ++ es') = points es ++ points es' := by
  simp [points]

@[simp] theorem questions_asked (p : π) (a : Outcome α α) (es : List (Event α π)) :
    questions (.asked p a :: es) = (p, a) :: questions es :=
  rfl

@[simp] theorem questions_told (n : Notice α) (es : List (Event α π)) :
    questions (.told n :: es) = questions es :=
  rfl

theorem questions_told_if (c : Prop) [Decidable c] (n : Notice α) :
    questions (if c then [.told n] else [] : List (Event α π)) = [] := by
  split <;> rfl

theorem mem_questions {p : π} {a : Outcome α α} : (p, a) ∈ questions es ↔ .asked p a ∈ es := by
  rw [questions, List.mem_filterMap]
  constructor
  · rintro ⟨e, he, hquestion⟩
    cases e with
    | asked q b =>
        cases hquestion
        exact he
    | told n => cases hquestion
  · exact fun h => ⟨_, h, rfl⟩

theorem length_questions (es : List (Event α π)) :
    (questions es).length = es.countP Event.isAsked := by
  induction es with
  | nil => rfl
  | cons e es ih =>
      cases e with
      | asked p a =>
          rw [questions_asked, List.length_cons, ih, List.countP_cons_of_pos rfl]
      | told n => rw [questions_told, ih, List.countP_cons_of_neg Bool.false_ne_true]

/-- Whatever holds of all answers holds of everything heard. -/
theorem forall_heard {σ : Type} {answer : π → σ → Outcome α α × σ} {given : π → α → Prop}
    (hanswer : ∀ p s, ∃ v s', answer p s = (.ok v, s') ∧ given p v) (hear : Notice α → σ → σ)
    (m : Search α π ρ) (s : σ) : ∀ e ∈ heard (m.events answer hear s), given e.1 e.2 := by
  rintro ⟨p, v⟩ he
  obtain ⟨t, ht⟩ := answer_of_mem_events answer hear (mem_heard.mp he)
  obtain ⟨w, t', hw, hgiven⟩ := hanswer p t
  rw [hw] at ht
  cases ht
  exact hgiven

namespace Transcript

variable {m : Search α π ρ} {r r' : Outcome α ρ}

theorem of_refused_question (h : Transcript m es r) {j : Nat} {p : π} {e : DesignError α}
    (hj : (questions es)[j]? = some (p, .error e)) :
    r = .error e ∧ (questions es).length = j + 1 := by
  induction h generalizing j with
  | done => cases hj
  | answered rest ih =>
      cases j with
      | zero => cases hj
      | succ j =>
          obtain ⟨hr, hlength⟩ := ih hj
          exact ⟨hr, congrArg (· + 1) hlength⟩
  | refused =>
      cases j with
      | zero =>
          cases hj
          exact ⟨rfl, rfl⟩
      | succ j => cases hj
  | posted rest ih => exact ih hj

/-- The same answers so far lead to the same next question. -/
theorem points_take_eq (h : Transcript m es r) (h' : Transcript m es' r') {j : Nat}
    (hanswers : (answers es').take j = (answers es).take j) :
    (points es').take (j + 1) = (points es).take (j + 1) := by
  induction h generalizing es' j with
  | done =>
      cases h'
      rfl
  | @answered p v next es r rest ih =>
      cases h' with
      | answered rest' =>
          cases j with
          | zero => rfl
          | succ j =>
              obtain ⟨hv, hlater⟩ := List.cons_eq_cons.mp hanswers
              cases hv
              exact congrArg (List.cons p) (ih rest' hlater)
      | refused =>
          cases j with
          | zero => rfl
          | succ j => cases (List.cons_eq_cons.mp hanswers).1
  | @refused p e next =>
      cases h' with
      | answered rest' =>
          cases j with
          | zero => rfl
          | succ j => cases (List.cons_eq_cons.mp hanswers).1
      | refused => rfl
  | posted rest ih =>
      cases h' with
      | posted rest' => exact ih rest' hanswers

end Transcript
end FrequencySampling.Search
