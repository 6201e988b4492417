import FrequencySampling.Session

/-!
What one evaluation of the objective can do to a session. Every evaluation is an attempt: it makes
one stop check, and what happens then falls into six cases, each with the session it leaves. Later
facts about runs are read off the cases and never open the programs again.
-/

namespace FrequencySampling.Session

variable {α β γ : Type}

theorem bind_eq (op : SessionM α β) (k : β → SessionM α γ) (s : Session α) :
    (op >>= k) s = match op s with
      | (.ok r, s) => k r s
      | (.error e, s) => (.error e, s) := by
  simp only [bind, ExceptT.bind, ExceptT.mk, StateT.bind, ExceptT.bindCont]
  cases op s with
  | mk r s => cases r <;> rfl

/-- A program that ends well has ended its first part well. -/
theorem bind_eq_ok_iff {op : SessionM α β} {k : β → SessionM α γ} {s s' : Session α} {r : γ} :
    (op >>= k) s = (.ok r, s') ↔ ∃ x s'', op s = (.ok x, s'') ∧ k x s'' = (.ok r, s') := by
  rw [bind_eq]
  cases op s with
  | mk a t =>
      cases a with
      | ok x =>
          refine ⟨fun h => ⟨x, t, rfl, h⟩, ?_⟩
          rintro ⟨_, _, hop, h⟩
          cases hop
          exact h
      | error e =>
          refine iff_of_false (fun h => ?_) ?_
          · cases h
          · rintro ⟨_, _, hop, -⟩
            cases hop

theorem exists_of_isOk {outcome : Outcome α β × Session α} (h : outcome.1.isOk = true) :
    ∃ r s', outcome = (.ok r, s') := by
  obtain ⟨r | r, s'⟩ := outcome
  · cases h
  · exact ⟨r, s', rfl⟩

theorem get_eq (s : Session α) : (get : SessionM α (Session α)) s = (.ok s, s) := rfl

theorem get_bind_eq (k : Session α → SessionM α β) (s : Session α) : (get >>= k) s = k s s := rfl

theorem set_eq (s t : Session α) : (set t : SessionM α PUnit) s = (.ok ⟨⟩, t) := rfl

theorem pure_eq (r : β) (s : Session α) : (pure r : SessionM α β) s = (.ok r, s) := rfl

theorem ofOutcome_eq (r : Outcome α β) (s : Session α) : ofOutcome r s = (r, s) := rfl

theorem ofOutcome_eq_ok_iff {o : Outcome α β} {s s' : Session α} {r : β} :
    ofOutcome o s = (.ok r, s') ↔ o = .ok r ∧ s' = s := by
  rw [ofOutcome_eq, Prod.mk.injEq, eq_comm (a := s)]

theorem conduct_ask {π : Type} (answer : π → SessionM α α) (p : π) (next : α → Search α π β)
    (s : Session α) :
    conduct answer (.ask p next) s = match answer p s with
      | (.ok v, s') => conduct answer (next v) s'
      | (.error e, s') => (.error e, s') := by
  simp only [conduct, Search.run]
  cases answer p s with
  | mk a s' => cases a <;> rfl

/-- The session after a stop check. -/
def checked (s : Session α) : Session α :=
  { s with checks := s.checks + 1 }

/-- The session after a write to its half spectrum. -/
def holding (t : HalfSpectrum α) (s : Session α) : Session α :=
  { s with spectrum := t }

/-- The session after a trial was counted and reported. -/
def reported (trial : Trial α) (s : Session α) : Session α :=
  { hear (.trial trial) s with
    evaluations := s.evaluations + 1
    cancelled := s.cancelled || s.context.cancels (s.evaluations + 1) trial }

theorem checkStop_eq (s : Session α) : checkStop s =
    if s.cancelled then (.error .cancelled, s.checked)
    else if s.context.expired s.checks then (.error .deadlineExceeded, s.checked)
    else (.ok (), s.checked) := by
  simp only [checkStop, bind_eq, get_eq, set_eq]
  by_cases hc : s.cancelled
  · rw [if_pos hc, if_pos hc]
    rfl
  · rw [if_neg hc, if_neg hc]
    by_cases he : s.context.expired s.checks
    · rw [if_pos he, if_pos he]
      rfl
    · rw [if_neg he, if_neg he]
      rfl

theorem amend_eq (change : HalfSpectrum α → Outcome α (HalfSpectrum α)) (s : Session α) :
    amend change s = match change s.spectrum with
      | .ok t => (.ok (), s.holding t)
      | .error e => (.error e, s) := by
  simp only [amend, bind_eq, get_eq, ofOutcome_eq]
  cases change s.spectrum <;> rfl

/-- What a run from one session to another entered into the journal. -/
def journalSince (before after : Session α) : List (Notice α) :=
  after.journal.toList.drop before.journal.size

def trialsSince (before after : Session α) : List (Trial α) :=
  (journalSince before after).filterMap Notice.trial?

theorem journalSince_eq {s s' : Session α} {news : List (Notice α)}
    (h : s'.journal.toList = s.journal.toList ++ news) : journalSince s s' = news := by
  rw [journalSince, h, ← Array.length_toList]
  exact List.drop_left

variable [Scalar α]

theorem evaluate_eq (x : α) (s : Session α) :
    evaluate x s = match s.grid.stopbandLevel s.spectrum with
      | .ok peak =>
        if !Scalar.isFinite peak then
          (.error (.degenerateResponse (.peakNotFinite peak x)), s)
        else (.ok peak, s.reported ⟨x, s.spectrum.transitionValues, peak⟩)
      | .error e => (.error e, s) := by
  simp only [evaluate, bind_eq, get_eq, ofOutcome_eq]
  cases s.grid.stopbandLevel s.spectrum with
  | error e => rfl
  | ok peak =>
      by_cases hf : Scalar.isFinite peak
      · simp only [hf]
        rfl
      · simp only [hf]
        rfl

/-- Writes a trial into the half spectrum and evaluates it, unless the run is to stop. -/
def attempt (change : HalfSpectrum α → Outcome α (HalfSpectrum α)) (x : α) : SessionM α α := do
  checkStop
  amend change
  evaluate x

theorem tryScalar_eq (v : α) : tryScalar v = attempt (·.setScalar v) v := rfl

theorem tryLine_eq (p : LinePoint α) : tryLine p = attempt (·.setOnLine p.line p.rho) p.rho := rfl

/-- How an attempt can end, and the session it then leaves. -/
inductive Attempted (change : HalfSpectrum α → Outcome α (HalfSpectrum α)) (x : α)
    (s : Session α) : Outcome α α × Session α → Prop
  | cancelled (h : s.cancelled = true) : Attempted change x s (.error .cancelled, s.checked)
  | expired (h : s.cancelled = false) (he : s.context.expired s.checks = true) :
      Attempted change x s (.error .deadlineExceeded, s.checked)
  | refused {e} (h : s.cancelled = false) (he : s.context.expired s.checks = false)
      (hc : change s.spectrum = .error e) : Attempted change x s (.error e, s.checked)
  | unmeasured {t e} (h : s.cancelled = false) (he : s.context.expired s.checks = false)
      (hc : change s.spectrum = .ok t) (hm : s.grid.stopbandLevel t = .error e) :
      Attempted change x s (.error e, s.checked.holding t)
  | notFinite {t peak} (h : s.cancelled = false) (he : s.context.expired s.checks = false)
      (hc : change s.spectrum = .ok t) (hm : s.grid.stopbandLevel t = .ok peak)
      (hf : Scalar.isFinite peak = false) :
      Attempted change x s
        (.error (.degenerateResponse (.peakNotFinite peak x)), s.checked.holding t)
  | made {t peak} (h : s.cancelled = false) (he : s.context.expired s.checks = false)
      (hc : change s.spectrum = .ok t) (hm : s.grid.stopbandLevel t = .ok peak)
      (hf : Scalar.isFinite peak = true) :
      Attempted change x s
        (.ok peak, (s.checked.holding t).reported ⟨x, t.transitionValues, peak⟩)

theorem attempted (change : HalfSpectrum α → Outcome α (HalfSpectrum α)) (x : α)
    (s : Session α) : Attempted change x s (attempt change x s) := by
  simp only [attempt, bind_eq, checkStop_eq]
  cases h : s.cancelled with
  | true => exact .cancelled h
  | false =>
      cases he : s.context.expired s.checks with
      | true => exact .expired h he
      | false =>
          simp only [Bool.false_eq_true, if_false, amend_eq]
          cases hc : change s.checked.spectrum with
          | error e => exact .refused h he hc
          | ok t =>
              simp only [evaluate_eq]
              cases hm : (s.checked.holding t).grid.stopbandLevel
                  (s.checked.holding t).spectrum with
              | error e => exact .unmeasured h he hc hm
              | ok peak =>
                  cases hf : Scalar.isFinite peak with
                  | false =>
                      simp only [hf, Bool.not_false, if_true]
                      exact .notFinite h he hc hm hf
                  | true =>
                      simp only [hf, Bool.not_true, Bool.false_eq_true, if_false]
                      exact .made h he hc hm hf

theorem Attempted.eq {change : HalfSpectrum α → Outcome α (HalfSpectrum α)} {x : α}
    {s : Session α} {o : Outcome α α × Session α} (h : Attempted change x s o) :
    attempt change x s = o := by
  have hchecked : s.checked.spectrum = s.spectrum := rfl
  have hgrid : ∀ t, (s.checked.holding t).grid = s.grid := fun _ => rfl
  have hholding : ∀ t, (s.checked.holding t).spectrum = t := fun _ => rfl
  cases h with
  | cancelled h => simp only [attempt, bind_eq, checkStop_eq, h, if_true]
  | expired h he =>
      simp only [attempt, bind_eq, checkStop_eq, h, he, Bool.false_eq_true, if_false, if_true]
  | refused h he hc =>
      simp only [attempt, bind_eq, checkStop_eq, h, he, Bool.false_eq_true, if_false, amend_eq,
        hchecked, hc]
  | unmeasured h he hc hm =>
      simp only [attempt, bind_eq, checkStop_eq, h, he, Bool.false_eq_true, if_false, amend_eq,
        hchecked, hc, evaluate_eq, hgrid, hholding, hm]
  | notFinite h he hc hm hf =>
      simp only [attempt, bind_eq, checkStop_eq, h, he, Bool.false_eq_true, if_false, amend_eq,
        hchecked, hc, evaluate_eq, hgrid, hholding, hm, hf, Bool.not_false, if_true]
  | made h he hc hm hf =>
      simp only [attempt, bind_eq, checkStop_eq, h, he, Bool.false_eq_true, if_false, amend_eq,
        hchecked, hc, evaluate_eq, hgrid, hholding, hm, hf, Bool.not_true]

end FrequencySampling.Session
