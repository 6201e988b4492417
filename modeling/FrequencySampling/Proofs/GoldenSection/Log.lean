import FrequencySampling.Proofs.GoldenSection.Ends

/-!
What a line search writes to a log, wherever it ends. The log is a function of the trials alone, and
of how the search ended: the warning that no bracket was found stands directly after the last trial
at finding one, and is there exactly if all of these were made and missed; the warning that
narrowing stopped at its cap stands at the end of a search that has not converged.
-/

namespace FrequencySampling

theorem Notice.filterMap_ite {α β : Type} {f : Notice α → Option β} {n : Notice α} (h : f n = none)
    (c : Prop) [Decidable c] : (if c then [n] else []).filterMap f = [] := by
  split
  · exact List.filterMap_cons_none h
  · rfl

theorem Notice.countP_ite {α : Type} (p : Notice α → Bool) (c : Prop) [Decidable c] (n : Notice α) :
    (if c then [n] else []).countP p = if p n && c then 1 else 0 := by
  by_cases hc : c <;> simp [hc, List.countP_singleton]

namespace Search

variable {α ρ : Type} {place : α → List α} {es : List (Event α α)}

/-- The log entry for an event of a search over one coordinate, at which the transition samples are
as given. A question that was not answered leaves none. -/
def Event.logged? (place : α → List α) : Event α α → Option (Notice α)
  | .asked x (.ok v) => some (.trial ⟨x, place x, v⟩)
  | .asked _ (.error _) => none
  | .told n => some n

/-- The trials of a search: the questions that were answered, in order. -/
def trials (place : α → List α) (es : List (Event α α)) : List (Trial α) :=
  (heard es).map fun e => ⟨e.1, place e.1, e.2⟩

theorem trials_append (es es' : List (Event α α)) :
    trials place (es ++ es') = trials place es ++ trials place es' := by
  rw [trials, heard_append, List.map_append]
  rfl

theorem trials_told_if (c : Prop) [Decidable c] (n : Notice α) :
    trials place (if c then [.told n] else []) = [] := by
  rw [trials, heard_told_if, List.map_nil]

theorem logged_told_if (place : α → List α) (c : Prop) [Decidable c] (n : Notice α) :
    (if c then [.told n] else [] : List (Event α α)).filterMap (Event.logged? place) =
      if c then [n] else [] := by
  split <;> rfl

theorem Transcript.of_value_error {π : Type} {p : π} {es : List (Event α π)} {e : DesignError α}
    (h : Transcript (Search.value p) es (.error e)) : es = [.asked p (.error e)] := by
  cases h with
  | answered hdone => cases hdone
  | refused => rfl

/-- A search that posts nothing logs its trials only. -/
theorem logged_of_untold (h : ∀ n, .told n ∉ es) :
    es.filterMap (Event.logged? place) = (trials place es).map .trial := by
  induction es with
  | nil => rfl
  | cons e es ih =>
      have hrest := ih fun n hn => h n (List.mem_cons_of_mem _ hn)
      cases e with
      | told n => exact absurd List.mem_cons_self (h n)
      | asked x a =>
          cases a with
          | ok v => exact congrArg (Notice.trial ⟨x, place x, v⟩ :: ·) hrest
          | error e => exact hrest

end Search

namespace GoldenSection

variable {α : Type} [Scalar α] {params : LineSearchParams α} {lo hi : α} {place : α → List α}
  {es : List (Search.Event α α)} {steps : Nat}

/-- The value that a trial at finding a bracket has to beat. -/
def smallerEnd (left right : Trial α) : α :=
  if left.objective < right.objective then left.objective else right.objective

/-- All trials at finding a bracket were made, after those at the ends, and none of them beat the
smaller end. -/
def Exhausted (steps : Nat) : List (Trial α) → Prop
  | left :: right :: later =>
    steps ≤ later.length ∧ ∀ t ∈ later.take steps, ¬ t.objective < smallerEnd left right
  | _ => False

instance (ts : List (Trial α)) : Decidable (Exhausted steps ts) :=
  match ts with
  | _ :: _ :: _ => inferInstanceAs (Decidable (_ ∧ _))
  | [] | [_] => isFalse id

/-- The trials, with the warning directly after the last one at finding a bracket. -/
def bracketLog (steps : Nat) (ts : List (Trial α)) : List (Notice α) :=
  (ts.take (2 + steps)).map .trial ++ (if Exhausted steps ts then [.bracketingExhausted] else []) ++
    (ts.drop (2 + steps)).map .trial

/-- What a search says at its end, by whether it has converged if it completes. -/
def closing (settled : Option Bool) : List (Notice α) :=
  if settled = some false then [.narrowingCapped] else []

/-- The log of a line search with these trials. -/
def log (params : LineSearchParams α) (ts : List (Trial α)) (settled : Option Bool) :
    List (Notice α) :=
  bracketLog params.maxBracketSteps ts ++ closing settled

section Trials

variable {ts missed later : List (Trial α)} {left right accepted : Trial α}

theorem bracketLog_of_not_exhausted (h : ¬ Exhausted steps ts) :
    bracketLog steps ts = ts.map .trial := by
  rw [bracketLog, if_neg h, List.append_nil, ← List.map_append, List.take_append_drop]

theorem bracketLog_of_found (hlength : missed.length < steps)
    (hfound : accepted.objective < smallerEnd left right) :
    bracketLog steps (left :: right :: (missed ++ accepted :: later)) =
      (left :: right :: (missed ++ accepted :: later)).map .trial := by
  refine bracketLog_of_not_exhausted fun hexhausted => hexhausted.2 accepted ?_ hfound
  obtain ⟨k, rfl⟩ := Nat.exists_eq_add_of_lt hlength
  rw [Nat.add_assoc, List.take_length_add_append, List.take_succ_cons]
  exact List.mem_append_right _ List.mem_cons_self

theorem bracketLog_of_exhausted (hall : missed.length + 1 = steps)
    (hmissed : ∀ t ∈ missed, ¬ t.objective < smallerEnd left right)
    (haccepted : ¬ accepted.objective < smallerEnd left right) :
    bracketLog steps (left :: right :: (missed ++ accepted :: later)) =
      (left :: right :: (missed ++ [accepted])).map .trial ++
        .bracketingExhausted :: later.map .trial := by
  subst hall
  have hsplit : missed ++ accepted :: later = (missed ++ [accepted]) ++ later := by simp
  have hlength : (missed ++ [accepted]).length = missed.length + 1 := List.length_append
  have hexhausted : Exhausted (missed.length + 1)
      (left :: right :: (missed ++ accepted :: later)) := by
    rw [hsplit]
    constructor
    · rw [List.length_append, hlength]
      exact Nat.le_add_right _ _
    · rw [List.take_left' hlength]
      exact List.forall_mem_append.mpr ⟨hmissed, List.forall_mem_singleton.mpr haccepted⟩
  have hlength' : (left :: right :: (missed ++ [accepted])).length = 2 + (missed.length + 1) := by
    rw [List.length_cons, List.length_cons, hlength]
    omega
  rw [bracketLog, if_pos hexhausted, hsplit, ← List.cons_append, ← List.cons_append,
    List.take_left' hlength', List.drop_left' hlength', List.append_assoc]
  rfl

end Trials

theorem bracket_trials (place : α → List α) {trialAt : α → α} {target : α} {step : α}
    {last b : Bracket α} (hsteps : steps ≠ 0)
    (h : Search.Transcript (bracket trialAt target steps step last) es (.ok b)) :
    ∃ missed accepted, Search.trials place es = missed ++ [accepted] ∧
      (∀ t ∈ missed, ¬ t.objective < target) ∧ missed.length < steps ∧
      (b.found = true ↔ accepted.objective < target) ∧
      (b.found = false → missed.length + 1 = steps) := by
  obtain ⟨missed, hheard, hmissed, hlength, hfound, hall⟩ := bracket_heard hsteps h
  refine ⟨missed.map fun e => ⟨e.1, place e.1, e.2⟩, ⟨b.point, place b.point, b.value⟩, ?_, ?_, ?_,
    hfound, ?_⟩
  · rw [Search.trials, hheard, List.map_append]
    rfl
  · exact List.forall_mem_map.mpr hmissed
  · rwa [List.length_map]
  · rwa [List.length_map]

/-- A bracketing that fails has made fewer trials than it may. -/
theorem bracket_error {trialAt : α → α} {target : α} {remaining : Nat} {step : α}
    {last : Bracket α} {e : DesignError α}
    (h : Search.Transcript (bracket trialAt target remaining step last) es (.error e)) :
    (Search.heard es).length < remaining := by
  induction remaining generalizing es step last with
  | zero => cases h
  | succ remaining ih =>
      rcases h.bind_cases with ⟨_, -, hvalue⟩ | ⟨_, f, rest, hvalue, hrest, rfl⟩
      · rw [hvalue.of_value_error]
        exact Nat.succ_pos remaining
      · rw [hvalue.of_value, Search.heard_append, List.length_append, Nat.add_comm]
        split at hrest
        · cases hrest
        · exact Nat.succ_lt_succ (ih hrest)

/-- The log from the first end on, where bracketing has ended and the search has gone on. -/
theorem log_of_bracketed {left right : α} {trialAt : α → α} {step : α} {last b : Bracket α}
    {tried later : List (Search.Event α α)} (hsteps : steps ≠ 0)
    (htried : Search.Transcript (bracket trialAt (if decide (left < right) then left else right)
      steps step last) tried (.ok b))
    (hlater : ∀ n, .told n ∉ later)
    (hes : es = .asked lo (.ok left) :: .asked hi (.ok right) ::
      (tried ++ ((if !b.found then [.told .bracketingExhausted] else []) ++ later))) :
    es.filterMap (Search.Event.logged? place) = bracketLog steps (Search.trials place es) := by
  obtain ⟨missed, accepted, hmade, hmissed, hlength, hfound, hall⟩ :=
    bracket_trials place hsteps htried
  have htarget : (if decide (left < right) then left else right) =
      smallerEnd ⟨lo, place lo, left⟩ ⟨hi, place hi, right⟩ := by
    simp only [smallerEnd, decide_eq_true_eq]
  rw [htarget] at hmissed hfound
  have hposted : es.filterMap (Search.Event.logged? place) =
      .trial ⟨lo, place lo, left⟩ :: .trial ⟨hi, place hi, right⟩ ::
        ((missed ++ [accepted]).map .trial ++ ((if !b.found then [.bracketingExhausted] else []) ++
          (Search.trials place later).map .trial)) := by
    rw [hes, ← hmade, ← Search.logged_of_untold (not_told_of_bracket hsteps htried),
      ← Search.logged_of_untold hlater, ← Search.logged_told_if place,
      ← List.filterMap_append, ← List.filterMap_append]
    rfl
  have htrials : Search.trials place es = ⟨lo, place lo, left⟩ :: ⟨hi, place hi, right⟩ ::
      (missed ++ accepted :: Search.trials place later) := by
    have hrest : Search.trials place
        (tried ++ ((if !b.found then [.told .bracketingExhausted] else []) ++ later)) =
        missed ++ accepted :: Search.trials place later := by
      rw [Search.trials_append, Search.trials_append, Search.trials_told_if, hmade]
      simp
    rw [hes, ← hrest]
    rfl
  rw [hposted, htrials]
  cases hb : b.found with
  | true =>
      rw [bracketLog_of_found hlength (hfound.mp hb)]
      simp
  | false =>
      have haccepted := fun hlt => Bool.eq_false_iff.mp hb (hfound.mpr hlt)
      rw [bracketLog_of_exhausted (hall hb) hmissed haccepted]
      simp

/-- Where no bracket was sought to its end, there is nothing to warn of. -/
theorem log_of_short (huntold : ∀ n, .told n ∉ es)
    (hshort : (Search.heard es).length < 2 + steps) :
    es.filterMap (Search.Event.logged? place) = bracketLog steps (Search.trials place es) := by
  rw [Search.logged_of_untold huntold, bracketLog_of_not_exhausted]
  intro hexhausted
  rw [← List.length_map (fun e => (⟨e.1, place e.1, e.2⟩ : Trial α))] at hshort
  unfold Search.trials at hexhausted
  generalize (Search.heard es).map _ = ts at hexhausted hshort
  obtain _ | ⟨left, _ | ⟨right, later⟩⟩ := ts
  · exact hexhausted
  · exact hexhausted
  · have hlength := hexhausted.1
    rw [List.length_cons, List.length_cons] at hshort
    omega

theorem opening_log_error {e : DesignError α}
    (h : Search.Transcript (opening params lo hi) es (.error e)) :
    es.filterMap (Search.Event.logged? place) =
      bracketLog params.maxBracketSteps (Search.trials place es) := by
  unfold opening at h
  obtain ⟨_, -, hcheck⟩ | ⟨_, _, _, hcheck, h, hes⟩ := h.bind_cases
  · rw [hcheck.of_ofOutcome.1]
    exact log_of_short (by simp) (Nat.lt_add_right _ Nat.two_pos)
  obtain ⟨hes', hparams⟩ := hcheck.of_ofOutcome
  obtain ⟨-, -, hsteps⟩ := LineSearchParams.accepts_iff.mp hparams.symm
  rw [hes'] at hes
  obtain ⟨-, hempty, -⟩ | ⟨-, h⟩ := Search.Transcript.guard_cases h
  · rw [hes, hempty]
    exact log_of_short (by simp) (Nat.lt_add_right _ Nat.two_pos)
  obtain ⟨_, -, hleft⟩ | ⟨_, left, _, hleft, h, hes1⟩ := h.bind_cases
  · rw [hes, hleft.of_value_error]
    exact log_of_short (by simp) (Nat.lt_add_right _ Nat.two_pos)
  obtain ⟨_, -, hright⟩ | ⟨_, right, _, hright, h, hes2⟩ := h.bind_cases
  · rw [hes, hes1, hleft.of_value, hright.of_value_error]
    exact log_of_short (by simp) (Nat.lt_add_right _ (Nat.lt_succ_self 1))
  rw [hes1, hes2, hleft.of_value, hright.of_value] at hes
  obtain ⟨_, -, hb⟩ | ⟨tried, b, _, hb, h, hes3⟩ := h.bind_cases
  · have hlength := bracket_error hb
    rw [hes]
    refine log_of_short ?_ ?_
    · simpa using not_told_of_bracket hsteps hb
    · simp only [Search.heard_append, List.length_append]
      change 0 + (1 + (1 + _)) < _
      omega
  · obtain ⟨_, h, hes4⟩ := Search.Transcript.of_postIf_eq h
    obtain ⟨_, -, hinner⟩ | ⟨_, _, _, _, hdone, _⟩ := h.bind_cases
    · rw [hes3, hes4, hinner.of_value_error] at hes
      exact log_of_bracketed hsteps hb (by simp) hes
    · cases hdone

/-- The log of a line search is told by its trials and by how it ended. -/
theorem minimize_log {r : Outcome α (LineMinimum α)}
    (h : Search.Transcript (minimize params lo hi) es r) :
    es.filterMap (Search.Event.logged? place) =
      log params (Search.trials place es) (r.toOption.map (·.converged)) := by
  rw [log]
  obtain ⟨_, rfl, hopening⟩ | ⟨opened, o, _, hopening, h, hes⟩ := h.bind_cases
  · rw [opening_log_error hopening]
    exact (List.append_nil _).symm
  obtain ⟨left, right, tried, b, inner, hsteps, hb, hopened, -⟩ := opening_events hopening
  -- What follows the bracketing, up to the end of the narrowing, posts nothing.
  have hbody : ∀ {narrowed : List (Search.Event α α)}, (∀ n, .told n ∉ narrowed) →
      (opened ++ narrowed).filterMap (Search.Event.logged? place) =
        bracketLog params.maxBracketSteps (Search.trials place (opened ++ narrowed)) := by
    intro narrowed huntold
    have hsplit : opened ++ narrowed = .asked lo (.ok left) :: .asked hi (.ok right) ::
        (tried ++ ((if !b.found then [.told .bracketingExhausted] else []) ++
          (.asked (b.point + smallPart * (hi - b.point)) (.ok inner) :: narrowed))) := by
      rw [hopened]
      simp
    exact log_of_bracketed hsteps hb (by simpa using huntold) hsplit
  obtain ⟨_, rfl, hnarrow⟩ | ⟨narrowed, n, _, hnarrow, h, hes1⟩ := h.bind_cases
  · rw [hes, hbody (not_told_of_narrow hnarrow)]
    exact (List.append_nil _).symm
  · unfold conclude at h
    obtain ⟨_, h, hes2⟩ := Search.Transcript.of_postIf_eq h
    obtain ⟨hes3, rfl⟩ := h.of_pure
    rw [hes, hes1, hes2, hes3, List.append_nil, ← List.append_assoc, List.filterMap_append,
      Search.logged_told_if, Search.trials_append, Search.trials_told_if, List.append_nil,
      hbody (not_told_of_narrow hnarrow)]
    cases hn : n.converged <;> simp [closing, Except.toOption]

theorem filterMap_log {β : Type} {f : Notice α → Option β} {ts : List (Trial α)}
    (hexhausted : f .bracketingExhausted = none) (hcapped : f .narrowingCapped = none)
    (settled : Option Bool) :
    (log params ts settled).filterMap f = ts.filterMap fun t => f (.trial t) := by
  have hsplit := congrArg (List.filterMap fun t => f (.trial t))
    (List.take_append_drop (2 + params.maxBracketSteps) ts)
  rw [List.filterMap_append] at hsplit
  rw [log, bracketLog, closing, ← hsplit]
  simp only [List.filterMap_append, Notice.filterMap_ite hexhausted, Notice.filterMap_ite hcapped,
    List.append_nil, List.filterMap_map, Function.comp_def]

/-- What is logged apart from trials. -/
theorem countP_log {p : Notice α → Bool} {ts : List (Trial α)} (htrial : ∀ t, p (.trial t) = false)
    (settled : Option Bool) :
    (log params ts settled).countP p =
      (if p .bracketingExhausted && Exhausted params.maxBracketSteps ts then 1 else 0) +
        if p .narrowingCapped && settled = some false then 1 else 0 := by
  have htrials : ∀ us : List (Trial α), (us.map Notice.trial).countP p = 0 := by
    intro us
    rw [List.countP_map, List.countP_eq_zero]
    exact fun t _ ht => Bool.false_ne_true ((htrial t).symm.trans ht)
  rw [log, bracketLog, closing, List.countP_append, List.countP_append, List.countP_append, htrials,
    htrials, Nat.zero_add, Nat.add_zero, Notice.countP_ite, Notice.countP_ite]

end GoldenSection
end FrequencySampling
