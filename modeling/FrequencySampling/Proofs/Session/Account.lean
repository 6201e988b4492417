import FrequencySampling.Proofs.Plane.Notices
import FrequencySampling.Proofs.RationalArithmetic
import FrequencySampling.Proofs.Session.Conduct
import FrequencySampling.Proofs.StopbandLevel
import Mathlib.Data.List.Forall2

/-!
The account that a session keeps. Any number of calls may be made on one session, and each may fail;
after every one of them the counter is the number of trials in the journal, every trial tells the
transition samples and the stopband peak of the half spectrum that it was made with, and the half
spectrum has changed at its transition samples only. An evaluation that is refused changes nothing.
-/

namespace FrequencySampling

variable {α : Type}

namespace HalfSpectrum

theorem agreesOff_of_setTransitions [Scalar α] {s t : HalfSpectrum α} {values : List α}
    (h : s.setTransitions values = .ok t) : s.AgreesOff s.geometry.IsTransition t := by
  obtain ⟨hslots, rfl⟩ := setTransitions_eq_ok_iff.mp h
  exact agreesOff_of_writeSlots (Nat.le_of_eq hslots)

theorem agreesOff_of_setScalar {s t : HalfSpectrum α} {v : α} (h : s.setScalar v = .ok t) :
    s.AgreesOff s.geometry.IsTransition t := by
  unfold setScalar at h
  split at h
  · cases h
  · rename_i hsome
    cases h
    exact (agreesOff_writeSlot s 0 v).mono fun k hk => ⟨0, Nat.pos_of_ne_zero hsome, hk⟩

end HalfSpectrum

namespace Session

variable [Scalar α] {π ρ τ : Type} {s s' s'' : Session α}

/-- The trial tells what was found at the half spectrum. -/
structure TrialOf (grid : ResponseGrid) (t : HalfSpectrum α) (trial : Trial α) : Prop where
  transitions_eq : trial.transitions = t.transitionValues
  objective_eq : grid.stopbandLevel t = .ok trial.objective

/-- What became of a session in which these half spectra were evaluated. -/
structure Accounts (s : Session α) (evaluated : List (HalfSpectrum α)) (s' : Session α) : Prop where
  grid_eq : s'.grid = s.grid
  agrees : s.spectrum.AgreesOff s.spectrum.geometry.IsTransition s'.spectrum
  evaluations_eq : s'.evaluations = s.evaluations + evaluated.length
  journal_eq : ∃ news, s'.journal.toList = s.journal.toList ++ news ∧
    List.Forall₂ (TrialOf s.grid) evaluated (news.filterMap Notice.trial?)

namespace Accounts

variable {evaluated evaluated' : List (HalfSpectrum α)}

/-- Nothing was posted. -/
theorem of_unheard (hgrid : s'.grid = s.grid)
    (hagrees : s.spectrum.AgreesOff s.spectrum.geometry.IsTransition s'.spectrum)
    (hevaluations : s'.evaluations = s.evaluations) (hjournal : s'.journal = s.journal) :
    Accounts s [] s' := by
  refine ⟨hgrid, hagrees, hevaluations, [], ?_, .nil⟩
  rw [hjournal, List.append_nil]

theorem refl (s : Session α) : Accounts s [] s :=
  .of_unheard rfl (.refl _) rfl rfl

theorem append (h : Accounts s evaluated s') (h' : Accounts s' evaluated' s'') :
    Accounts s (evaluated ++ evaluated') s'' := by
  obtain ⟨news, hnews, htells⟩ := h.journal_eq
  obtain ⟨news', hnews', htells'⟩ := h'.journal_eq
  have hagrees := h'.agrees
  rw [← h.agrees.geometry_eq] at hagrees
  rw [h.grid_eq] at htells'
  refine ⟨h'.grid_eq.trans h.grid_eq, h.agrees.trans hagrees, ?_, news ++ news', ?_, ?_⟩
  · rw [h'.evaluations_eq, h.evaluations_eq, List.length_append, Nat.add_assoc]
  · rw [hnews', hnews, List.append_assoc]
  · rw [List.filterMap_append]
    exact List.rel_append htells htells'

theorem hear {n : Notice α} (hn : n.trial? = none) (s : Session α) :
    Accounts s [] (Session.hear n s) := by
  refine ⟨rfl, .refl _, rfl, [n], by simp [Session.hear], ?_⟩
  rw [List.filterMap_cons_none hn]
  exact .nil

theorem checked (s : Session α) : Accounts s [] s.checked :=
  .of_unheard rfl (.refl _) rfl rfl

theorem holding {t : HalfSpectrum α}
    (h : s.spectrum.AgreesOff s.spectrum.geometry.IsTransition t) : Accounts s [] (s.holding t) :=
  .of_unheard rfl h rfl rfl

theorem reported {trial : Trial α} (h : TrialOf s.grid s.spectrum trial) :
    Accounts s [s.spectrum] (s.reported trial) :=
  ⟨rfl, .refl _, rfl, [.trial trial], by simp [Session.reported, Session.hear], .cons h .nil⟩

end Accounts

/-- The half spectra at which a search's questions were answered. An evaluation leaves the half
spectrum as it found it. -/
def evaluatedBy (answer : π → SessionM α α) : Search α π ρ → Session α → List (HalfSpectrum α)
  | .done _, _ => []
  | .ask p next, s =>
    match answer p s with
    | (.ok v, s) => s.spectrum :: evaluatedBy answer (next v) s
    | (.error _, _) => []
  | .tell n next, s => evaluatedBy answer next (hear n s)

/-- Every question is put by an attempt that writes to transition samples only. -/
def AttemptsTransitions (answer : π → SessionM α α) : Prop :=
  ∀ p, ∃ change x, answer p = attempt change x ∧
    ∀ t u, change t = .ok u → t.AgreesOff t.geometry.IsTransition u

theorem accounts_answer {answer : π → SessionM α α} (hanswer : AttemptsTransitions answer) {p : π}
    {a : Outcome α α} (h : answer p s = (a, s')) :
    Accounts s (if a.isOk then [s'.spectrum] else []) s' := by
  obtain ⟨change, x, hp, hchange⟩ := hanswer p
  have hcases := attempted change x s
  rw [← hp, h] at hcases
  cases hcases with
  | cancelled | expired | refused => exact .checked s
  | unmeasured _ _ hc | notFinite _ _ hc =>
      exact (Accounts.checked s).append (.holding (hchange _ _ hc))
  | made _ _ hc hm =>
      exact ((Accounts.checked s).append (.holding (hchange _ _ hc))).append (.reported ⟨rfl, hm⟩)

theorem accounts_conduct {answer : π → SessionM α α} (hanswer : AttemptsTransitions answer)
    {m : Search α π ρ} (hsilent : m.Silent) (s : Session α) :
    Accounts s (evaluatedBy answer m s) (conduct answer m s).2 := by
  induction m generalizing s with
  | done r => exact .refl s
  | tell n next ih => exact (Accounts.hear hsilent.1 s).append (ih hsilent.2 (hear n s))
  | ask p next ih =>
      rw [conduct_ask]
      simp only [evaluatedBy]
      cases hrun : answer p s with
      | mk a s' =>
          have hfirst := accounts_answer hanswer hrun
          cases a with
          | error e => exact hfirst
          | ok v => exact hfirst.append (ih v (hsilent.2 v trivial) s')

theorem accounts_bind {op : SessionM α ρ} {k : ρ → SessionM α τ}
    {evaluated : List (HalfSpectrum α)} (h : Accounts s evaluated (op s).2)
    (hk : ∀ r s', Accounts s' [] (k r s').2) : Accounts s evaluated ((op >>= k) s).2 := by
  rw [bind_eq]
  generalize op s = run at *
  obtain ⟨r, s'⟩ := run
  cases r with
  | error e => exact h
  | ok r =>
      have htogether := h.append (hk r s')
      rwa [List.append_nil] at htogether

theorem accounts_leaveAt (values : List α) (s : Session α) :
    Accounts s [] (leaveAt values s).2 := by
  rw [leaveAt, amend_eq]
  cases hset : s.spectrum.setTransitions values with
  | error e => exact .refl s
  | ok t => exact .holding (HalfSpectrum.agreesOff_of_setTransitions hset)

theorem attemptsTransitions_tryScalar : AttemptsTransitions (tryScalar (α := α)) :=
  fun v => ⟨_, _, tryScalar_eq v, fun _ _ h => HalfSpectrum.agreesOff_of_setScalar h⟩

theorem attemptsTransitions_tryLine : AttemptsTransitions (tryLine (α := α)) :=
  fun p => ⟨_, _, tryLine_eq p, fun _ _ h => agreesOff_of_setOnLine h⟩

/-- What may be done with a session from outside, the stop signal included. -/
inductive Call (α : Type) where
  | tryScalar (value : α)
  | tryLine (point : LinePoint α)
  | leaveAt (values : List α)
  | searchScalar (params : LineSearchParams α)
  | searchLine (params : LineSearchParams α) (line : SlotLine α) (lo hi : α)
  | searchPlane (params : LineSearchParams α) (direction : PlaneSearchParams α)
  | cancel

namespace Call

/-- The session after a call, whether the call fails or not. -/
def leave : Call α → Session α → Session α
  | .tryScalar value, s => (Session.tryScalar value s).2
  | .tryLine point, s => (Session.tryLine point s).2
  | .leaveAt values, s => (Session.leaveAt values s).2
  | .searchScalar params, s => (Session.searchScalar params s).2
  | .searchLine params line lo hi, s => (Session.searchLine params line lo hi s).2
  | .searchPlane params direction, s => (Session.searchPlane params direction s).2
  | .cancel, s => s.cancel

/-- The half spectra that a call evaluates. -/
def evaluated : Call α → Session α → List (HalfSpectrum α)
  | .tryScalar value, s => evaluatedBy Session.tryScalar (Search.value value) s
  | .tryLine point, s => evaluatedBy Session.tryLine (Search.value point) s
  | .leaveAt _, _ | .cancel, _ => []
  | .searchScalar params, s =>
    if s.spectrum.numTransitions = 1 then
      evaluatedBy Session.tryScalar (GoldenSection.minimize params 0 1) s
    else []
  | .searchLine params line lo hi, s =>
    evaluatedBy Session.tryLine (PlaneSearch.along params line lo hi) s
  | .searchPlane params direction, s =>
    evaluatedBy Session.tryLine
      (PlaneSearch.search params direction s.spectrum.numTransitions) s

theorem accounts_value {answer : π → SessionM α α} (hanswer : AttemptsTransitions answer) (p : π)
    (s : Session α) : Accounts s (evaluatedBy answer (Search.value p) s) (answer p s).2 := by
  have hsilent : (Search.value p : Search α π α).Silent := ⟨trivial, fun _ _ => trivial⟩
  have haccounts := accounts_conduct hanswer hsilent s
  rw [Search.value, conduct_ask] at haccounts
  rw [Search.value]
  generalize answer p s = run at haccounts ⊢
  obtain ⟨a | a, s'⟩ := run <;> exact haccounts

theorem accounts_searchScalar (params : LineSearchParams α) (s : Session α) :
    Accounts s ((searchScalar params).evaluated s) (Session.searchScalar params s).2 := by
  rw [Session.searchScalar, get_bind_eq, evaluated]
  by_cases hone : s.spectrum.numTransitions = 1
  · rw [if_pos hone, if_neg (not_not.mpr hone)]
    refine accounts_bind (accounts_conduct attemptsTransitions_tryScalar
      (GoldenSection.minimize_silent params 0 1) s) fun minimum s' => ?_
    refine accounts_bind (accounts_leaveAt [minimum.x] s') fun _ s'' => ?_
    exact accounts_bind (.hear rfl s'') fun _ => .refl
  · rw [if_neg hone, if_pos hone]
    exact .refl s

theorem accounts_searchPlane (params : LineSearchParams α) (direction : PlaneSearchParams α)
    (s : Session α) :
    Accounts s ((searchPlane params direction).evaluated s)
      (Session.searchPlane params direction s).2 := by
  rw [Session.searchPlane, get_bind_eq, evaluated]
  refine accounts_bind (accounts_conduct attemptsTransitions_tryLine
    (PlaneSearch.search_silent params direction _) s) fun descent s' => ?_
  rw [get_bind_eq]
  exact accounts_bind (accounts_leaveAt [descent.best.x, descent.best.y] s') fun _ => .refl

theorem accounts (c : Call α) (s : Session α) : Accounts s (c.evaluated s) (c.leave s) := by
  cases c with
  | tryScalar v => exact accounts_value attemptsTransitions_tryScalar v s
  | tryLine p => exact accounts_value attemptsTransitions_tryLine p s
  | leaveAt values => exact accounts_leaveAt values s
  | searchScalar params => exact accounts_searchScalar params s
  | searchLine params line lo hi =>
      exact accounts_conduct attemptsTransitions_tryLine
        (PlaneSearch.along_silent params line lo hi) s
  | searchPlane params direction => exact accounts_searchPlane params direction s
  | cancel => exact .of_unheard rfl (.refl _) rfl rfl

/-- The session after some calls. -/
def leaveAll (calls : List (Call α)) (s : Session α) : Session α :=
  calls.foldl (fun s c => c.leave s) s

def evaluatedAll : List (Call α) → Session α → List (HalfSpectrum α)
  | [], _ => []
  | c :: calls, s => c.evaluated s ++ evaluatedAll calls (c.leave s)

theorem accounts_leaveAll (calls : List (Call α)) (s : Session α) :
    Accounts s (evaluatedAll calls s) (leaveAll calls s) := by
  induction calls generalizing s with
  | nil => exact .refl s
  | cons c calls ih => exact (c.accounts s).append (ih (c.leave s))

end Call

/-- The errors of an evaluation that is refused before it writes anything: the run is to stop, or
the half spectrum has no transition sample, or another number of them. -/
inductive Refusal : DesignError α → Prop
  | cancelled : Refusal .cancelled
  | deadlineExceeded : Refusal .deadlineExceeded
  | noTransitionSample (band) : Refusal (.invalidParameter (.noTransitionSample band))
  | slotCount (band expected given) : Refusal (.invalidParameter (.slotCount band expected given))

theorem not_refusal_of_stopbandLevel {grid : ResponseGrid} {t : HalfSpectrum α} {e : DesignError α}
    (h : grid.stopbandLevel t = .error e) : ¬ Refusal e := by
  cases ResponseGrid.untold_of_stopbandLevel h <;> rintro ⟨⟩

/-- Once something was written, no error looks like a refusal. -/
theorem attempt_refused {change : HalfSpectrum α → Outcome α (HalfSpectrum α)} {x : α}
    {e : DesignError α} (h : attempt change x s = (.error e, s')) (he : Refusal e) :
    s' = s.checked := by
  have hcases := attempted change x s
  rw [h] at hcases
  cases hcases with
  | cancelled | expired | refused => rfl
  | unmeasured _ _ _ hm => exact absurd he (not_refusal_of_stopbandLevel hm)
  | notFinite => cases he

/-- A session keeps account over any calls, also those that fail: it has counted its trials, each
trial is of a half spectrum that it held, and outside the transitions nothing was written. An
evaluation that is refused leaves no trace but the question whether the run is to stop. -/
theorem calls_keep_account {spectrum : HalfSpectrum α} (hs : spectrum.WellFormed)
    (grid : ResponseGrid) (context : RunContext α) (calls : List (Call α)) :
    let before := start spectrum grid context
    let after := Call.leaveAll calls before
    let trials := after.journal.toList.filterMap Notice.trial?
    after.evaluations = trials.length ∧
    List.Forall₂ (TrialOf grid) (Call.evaluatedAll calls before) trials ∧
    spectrum.AgreesOff spectrum.geometry.BetweenBands after.spectrum ∧
    (∀ v e s', tryScalar v after = (.error e, s') → Refusal e → s' = after.checked) ∧
    ∀ p e s', tryLine p after = (.error e, s') → Refusal e → s' = after.checked := by
  intro before after trials
  obtain ⟨-, hagrees, hevaluations, news, hjournal, htells⟩ := Call.accounts_leaveAll calls before
  have hnews : after.journal.toList = news := hjournal.trans (List.nil_append news)
  have htrials : List.Forall₂ (TrialOf grid) (Call.evaluatedAll calls before) trials := by
    rw [show trials = news.filterMap Notice.trial? from congrArg _ hnews]
    exact htells
  refine ⟨?_, htrials, ?_, fun v e s' h he => attempt_refused h he,
    fun p e s' h he => attempt_refused h he⟩
  · rw [← htrials.length_eq]
    exact hevaluations.trans (Nat.zero_add _)
  · exact hagrees.mono fun k hk => (Geometry.isTransition_iff_betweenBands hs.check).mp hk

open RationalArithmetic in
/-- A search that is cut off by its deadline, and another evaluation after it. -/
theorem calls_keep_account_rational :
    let spectrum := (session .unbounded).spectrum
    let context : RunContext ℚ := ⟨false, fun checks => checks == 5, fun _ _ => false⟩
    let before := start spectrum ⟨3, .decibel, .amplitude⟩ context
    let calls := [.searchPlane line direction, .tryLine ⟨PlaneSearch.overX ⟨1, 0⟩, mkRat 1 2⟩]
    let after := Call.leaveAll calls before
    spectrum.WellFormed ∧ after.evaluations = 6 ∧
      (after.journal.toList.filterMap Notice.trial?).length = 6 ∧
      spectrum.AgreesOff spectrum.geometry.BetweenBands after.spectrum := by
  have hs : (session .unbounded).spectrum.WellFormed := ⟨rfl, rfl⟩
  intro spectrum context before calls after
  have hcount : after.evaluations = 6 := by decide +kernel
  obtain ⟨hevaluations, -, hagrees, -⟩ :=
    calls_keep_account hs ⟨3, .decibel, .amplitude⟩ context calls
  exact ⟨hs, hcount, hevaluations.symm.trans hcount, hagrees⟩

end Session
end FrequencySampling
