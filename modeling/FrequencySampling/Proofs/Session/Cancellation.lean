import FrequencySampling.FilterDesign
import FrequencySampling.Proofs.Plane.Notices
import FrequencySampling.Proofs.RationalArithmetic
import FrequencySampling.Proofs.Session.Attempt

/-!
A cancelled run is a beginning of the run that is not cancelled. The two sessions are compared side
by side: while trials are left they go through the same states, and the first attempt after the
cancelling trial fails before it writes anything. Deadlines may pass at any check, in both runs
alike. What a program does before its search and after it makes no attempts, and takes the same
course in both sessions.
-/

namespace FrequencySampling.Session

variable {α π ρ τ : Type}

/-- Nothing has cancelled the run, and no report of a trial will. -/
structure CancelFree (s : Session α) : Prop where
  cancelled_eq : s.cancelled = false
  cancels_eq : ∀ k t, s.context.cancels k t = false

/-- The same session with an observer that cancels on the report of trial number `m`. -/
def cancelAt (m : Nat) (s : Session α) : Session α :=
  { s with
    context := { s.context with cancels := fun k _ => k == m }
    cancelled := decide (m ≤ s.evaluations) }

/-- More was checked and reported, and nothing taken back. -/
structure Grows (s s' : Session α) : Prop where
  checks_le : s.checks ≤ s'.checks
  journal_eq : ∃ news, s'.journal.toList = s.journal.toList ++ news

namespace Grows

variable {s s' s'' : Session α}

theorem refl (s : Session α) : Grows s s :=
  ⟨Nat.le_refl _, [], (List.append_nil _).symm⟩

theorem trans (h : Grows s s') (h' : Grows s' s'') : Grows s s'' := by
  obtain ⟨news, hnews⟩ := h.journal_eq
  obtain ⟨news', hnews'⟩ := h'.journal_eq
  refine ⟨Nat.le_trans h.checks_le h'.checks_le, news ++ news', ?_⟩
  rw [hnews', hnews, List.append_assoc]

theorem trialsSince_append (h : Grows s s') (h' : Grows s' s'') :
    trialsSince s s'' = trialsSince s s' ++ trialsSince s' s'' := by
  obtain ⟨news, hnews⟩ := h.journal_eq
  obtain ⟨news', hnews'⟩ := h'.journal_eq
  have hboth : s''.journal.toList = s.journal.toList ++ (news ++ news') := by
    rw [hnews', hnews, List.append_assoc]
  rw [trialsSince, trialsSince, trialsSince, journalSince_eq hboth, journalSince_eq hnews,
    journalSince_eq hnews', List.filterMap_append]

end Grows

theorem trialsSince_of_journal_eq {s s' : Session α} (h : s'.journal = s.journal) :
    trialsSince s s' = [] := by
  have hjournal : s'.journal.toList = s.journal.toList ++ [] := by
    rw [h, List.append_nil]
  rw [trialsSince, journalSince_eq hjournal]
  rfl

theorem grows_hear (n : Notice α) (s : Session α) : Grows s (hear n s) :=
  ⟨Nat.le_refl _, [n], by simp [hear]⟩

theorem trialsSince_hear {n : Notice α} (hn : n.trial? = none) (s : Session α) :
    trialsSince s (hear n s) = [] := by
  have hjournal : (hear n s).journal.toList = s.journal.toList ++ [n] := by simp [hear]
  rw [trialsSince, journalSince_eq hjournal, List.filterMap_cons_none hn, List.filterMap_nil]

theorem grows_reported (trial : Trial α) (s : Session α) : Grows s (s.reported trial) :=
  ⟨Nat.le_refl _, [.trial trial], by simp [reported, hear]⟩

theorem trialsSince_reported (trial : Trial α) (s : Session α) :
    trialsSince s (s.reported trial) = [trial] := by
  have hjournal : (s.reported trial).journal.toList = s.journal.toList ++ [.trial trial] := by
    simp [reported, hear]
  rw [trialsSince, journalSince_eq hjournal]
  rfl

theorem cancelAt_reported {m : Nat} {s : Session α} (hm : s.evaluations < m) (trial : Trial α) :
    (s.cancelAt m).reported trial = (s.reported trial).cancelAt m := by
  have hcancelled : (decide (m ≤ s.evaluations) || s.evaluations + 1 == m) =
      decide (m ≤ s.evaluations + 1) := by
    rw [decide_eq_false (Nat.not_le.mpr hm), Bool.false_or, Bool.eq_iff_iff, beq_iff_eq,
      decide_eq_true_iff]
    omega
  simp only [reported, cancelAt, hear, hcancelled]
  rfl

theorem CancelFree.of_reported {s : Session α} (hs : s.CancelFree) (t : HalfSpectrum α)
    (trial : Trial α) : ((s.checked.holding t).reported trial).CancelFree := by
  refine ⟨?_, hs.cancels_eq⟩
  change (s.cancelled || s.context.cancels (s.evaluations + 1) trial) = false
  rw [hs.cancelled_eq, hs.cancels_eq, Bool.false_or]

section Attempt

variable [Scalar α] {change : HalfSpectrum α → Outcome α (HalfSpectrum α)} {x : α}
  {s s' : Session α}

theorem attempt_checks : (attempt change x s).2.checks = s.checks + 1 := by
  have hcases := attempted change x s
  generalize attempt change x s = o at hcases ⊢
  cases hcases <;> rfl

theorem attempt_eq_ok {v : α} (h : attempt change x s = (.ok v, s')) :
    ∃ t trial, trial.transitions = t.transitionValues ∧
      s' = (s.checked.holding t).reported trial := by
  have hcases := attempted change x s
  rw [h] at hcases
  cases hcases with
  | made => exact ⟨_, _, rfl, rfl⟩

theorem attempt_grows : Grows s (attempt change x s).2 := by
  have hchecked : Grows s s.checked := ⟨Nat.le_succ _, [], (List.append_nil _).symm⟩
  have hcases := attempted change x s
  generalize attempt change x s = o at hcases ⊢
  cases hcases with
  | cancelled | expired | refused => exact hchecked
  | unmeasured | notFinite => exact ⟨hchecked.checks_le, hchecked.journal_eq⟩
  | made => exact hchecked.trans ⟨Nat.le_refl _, (grows_reported _ _).journal_eq⟩

theorem CancelFree.attempt_cancelAt {m : Nat} (hs : s.CancelFree) (hm : s.evaluations < m) :
    attempt change x (s.cancelAt m) =
      ((attempt change x s).1, (attempt change x s).2.cancelAt m) := by
  have hgoes : (s.cancelAt m).cancelled = false := decide_eq_false (Nat.not_le.mpr hm)
  have hcases := attempted change x s
  generalize attempt change x s = o at hcases ⊢
  cases hcases with
  | cancelled h =>
      rw [hs.cancelled_eq] at h
      cases h
  | expired _ he => exact (Attempted.expired hgoes he).eq
  | refused _ he hc => exact (Attempted.refused hgoes he hc).eq
  | unmeasured _ he hc hlevel => exact (Attempted.unmeasured hgoes he hc hlevel).eq
  | notFinite _ he hc hlevel hf => exact (Attempted.notFinite hgoes he hc hlevel hf).eq
  | @made t peak _ he hc hlevel hf =>
      have hmade := (Attempted.made (x := x) hgoes he hc hlevel hf).eq
      have hreported := cancelAt_reported (s := s.checked.holding t) hm
        ⟨x, t.transitionValues, peak⟩
      exact hmade.trans (congrArg (Prod.mk (Except.ok peak)) hreported)

theorem attempt_cancelAt_evaluations : attempt change x (s.cancelAt s.evaluations) =
    (.error .cancelled, (s.cancelAt s.evaluations).checked) :=
  (Attempted.cancelled (decide_eq_true (Nat.le_refl _))).eq

end Attempt

/-- The half spectrum is left as the last trial found it, or untouched if there was none. -/
def Held [Scalar α] (s s' : Session α) : Prop :=
  match (trialsSince s s').getLast? with
  | none => s'.spectrum = s.spectrum
  | some trial => s'.spectrum.transitionValues = trial.transitions

/-- How a run compares with the same run whose trial number `m` cancels it. -/
inductive Cut [Scalar α] (m : Nat) (s : Session α) :
    Outcome α ρ × Session α → Outcome α ρ × Session α → Prop
  | through {r after} (hfew : after.checks + s.evaluations ≤ s.checks + m) :
      Cut m s (r, after) (r, after.cancelAt m)
  | short {r after left} (hmany : s.checks + m < after.checks + s.evaluations)
      (hgrows : Grows s left) (hevaluations : left.evaluations = m)
      (htrials : trialsSince s left = (trialsSince s after).take (m - s.evaluations))
      (hlength : (trialsSince s left).length = m - s.evaluations) (hheld : Held s left) :
      Cut m s (r, after) (.error .cancelled, left)

/-- What was compared from a later session on counts from an earlier one as well, if every check in
between was followed by a trial. -/
theorem Cut.after [Scalar α] {m : Nat} {s s' : Session α} {full cut : Outcome α ρ × Session α}
    (h : Cut m s' full cut) (hfirst : Grows s s') (hheld : Held s s')
    (hchecks : s'.checks = s.checks + (trialsSince s s').length)
    (hevaluations : s'.evaluations = s.evaluations + (trialsSince s s').length)
    (hm : s'.evaluations ≤ m) (hgrows : Grows s' full.2) : Cut m s full cut := by
  have hleft : m - s.evaluations = (trialsSince s s').length + (m - s'.evaluations) := by omega
  cases h with
  | through hfew => exact .through (by omega)
  | @short r after left hmany hgrows' heval htrials hlength hheld' =>
      have hsplit := hfirst.trialsSince_append hgrows'
      refine .short (by omega) (hfirst.trans hgrows') heval ?_ ?_ ?_
      · rw [hsplit, htrials, hfirst.trialsSince_append hgrows, hleft, List.take_length_add_append]
      · rw [hsplit, List.length_append, hlength, hleft]
      · unfold Held at hheld hheld' ⊢
        rw [hsplit, List.getLast?_append]
        cases hlast : (trialsSince s' left).getLast? with
        | none =>
            rw [hlast] at hheld'
            rw [Option.none_or, hheld']
            exact hheld
        | some last =>
            rw [hlast] at hheld'
            exact hheld'

section Conduct

variable [Scalar α] {answer : π → SessionM α α}

def Attempts (answer : π → SessionM α α) : Prop :=
  ∀ p, ∃ change x, answer p = attempt change x

theorem conduct_grows (hanswer : Attempts answer) (m : Search α π ρ) (s : Session α) :
    Grows s (conduct answer m s).2 := by
  induction m generalizing s with
  | done r => exact .refl s
  | ask p next ih =>
      obtain ⟨change, x, hp⟩ := hanswer p
      have hgrows : Grows s (answer p s).2 := by
        rw [hp]
        exact attempt_grows
      rw [conduct_ask]
      cases hrun : answer p s with
      | mk a s' =>
          rw [hrun] at hgrows
          cases a with
          | error e => exact hgrows
          | ok v => exact hgrows.trans (ih v s')
  | tell n next ih => exact (grows_hear n s).trans (ih (hear n s))

theorem conduct_ask_checks (hanswer : Attempts answer) (p : π) (next : α → Search α π ρ)
    (s : Session α) : s.checks < (conduct answer (.ask p next) s).2.checks := by
  obtain ⟨change, x, hp⟩ := hanswer p
  have hchecks : (answer p s).2.checks = s.checks + 1 := by
    rw [hp]
    exact attempt_checks
  rw [conduct_ask]
  cases hrun : answer p s with
  | mk a s' =>
      rw [hrun] at hchecks
      cases a with
      | error e => exact Nat.lt_of_lt_of_eq (Nat.lt_succ_self _) hchecks.symm
      | ok v =>
          have hle := (conduct_grows hanswer (next v) s').checks_le
          exact Nat.lt_of_lt_of_le (Nat.lt_of_lt_of_eq (Nat.lt_succ_self _) hchecks.symm) hle

theorem Cut.reported {m : Nat} {s : Session α} {t : HalfSpectrum α} {trial : Trial α}
    {full cut : Outcome α ρ × Session α}
    (h : Cut m ((s.checked.holding t).reported trial) full cut)
    (htrial : trial.transitions = t.transitionValues) (hm : s.evaluations < m)
    (hgrows : Grows ((s.checked.holding t).reported trial) full.2) : Cut m s full cut := by
  have hone : trialsSince s ((s.checked.holding t).reported trial) = [trial] :=
    trialsSince_reported trial s
  refine h.after ⟨Nat.le_succ _, (grows_reported trial s).journal_eq⟩ ?_ ?_ ?_ hm hgrows
  · rw [Held, hone]
    exact htrial.symm
  · rw [hone]
    rfl
  · rw [hone]
    rfl

theorem Cut.hear {m : Nat} {s : Session α} {n : Notice α} {full cut : Outcome α ρ × Session α}
    (h : Cut m (hear n s) full cut) (hn : n.trial? = none) (hm : s.evaluations ≤ m)
    (hgrows : Grows (Session.hear n s) full.2) : Cut m s full cut := by
  have hnone := trialsSince_hear hn s
  refine h.after (grows_hear n s) ?_ ?_ ?_ hm hgrows
  · rw [Held, hnone]
    rfl
  · rw [hnone]
    rfl
  · rw [hnone]
    rfl

theorem conduct_cut (hanswer : Attempts answer) {search : Search α π ρ} (hsilent : search.Silent)
    {m : Nat} {s : Session α} (hs : s.CancelFree) (hm : s.evaluations ≤ m) :
    Cut m s (conduct answer search s) (conduct answer search (s.cancelAt m)) := by
  -- What is left of the search is compared from the session that it begins in, and a trial that was
  -- made in both runs is then put in front.
  induction search generalizing s with
  | done r => exact .through (Nat.add_le_add_left hm _)
  | tell n next ih =>
      have hfree : (hear n s).CancelFree := ⟨hs.cancelled_eq, hs.cancels_eq⟩
      exact (ih hsilent.2 hfree hm).hear hsilent.1 hm (conduct_grows hanswer next _)
  | ask p next ih =>
      obtain ⟨change, x, hp⟩ := hanswer p
      rcases Nat.eq_or_lt_of_le hm with rfl | hlt
      · -- No trial is left, and the question is refused before anything is written.
        have hchecks := conduct_ask_checks hanswer p next s
        have hgrows := conduct_grows hanswer (.ask p next) s
        have hcut : conduct answer (.ask p next) (s.cancelAt s.evaluations) =
            (.error .cancelled, (s.cancelAt s.evaluations).checked) := by
          rw [conduct_ask, hp, attempt_cancelAt_evaluations]
        rw [hcut]
        have hnone : trialsSince s (s.cancelAt s.evaluations).checked = [] :=
          trialsSince_of_journal_eq rfl
        generalize conduct answer (.ask p next) s = full at *
        obtain ⟨r, after⟩ := full
        dsimp only at hchecks
        refine .short (by omega) ⟨Nat.le_succ _, [], (List.append_nil _).symm⟩ rfl ?_ ?_ ?_
        · rw [hnone, Nat.sub_self, List.take_zero]
        · rw [hnone, Nat.sub_self, List.length_nil]
        · rw [Held, hnone]
          rfl
      · have hagree : attempt change x (s.cancelAt m) = _ := hs.attempt_cancelAt hlt
        rw [conduct_ask, conduct_ask, hp, hagree]
        have hchecks : (attempt change x s).2.checks = s.checks + 1 := attempt_checks
        cases hrun : attempt change x s with
        | mk a s' =>
            rw [hrun] at hchecks
            dsimp only at hchecks
            cases a with
            | error e => exact .through (by omega)
            | ok v =>
                obtain ⟨t, trial, htrial, rfl⟩ := attempt_eq_ok hrun
                have hrest := ih v (hsilent.2 v trivial) (hs.of_reported t trial) hlt
                exact hrest.reported htrial hlt (conduct_grows hanswer (next v) _)

end Conduct

/-- The program makes no attempts, and how a run may be cancelled makes no difference to it. -/
structure Quiet (op : SessionM α ρ) : Prop where
  alike : ∀ m s, op (s.cancelAt m) = ((op s).1, (op s).2.cancelAt m)
  grows : ∀ s, Grows s (op s).2
  checks_eq : ∀ s, (op s).2.checks = s.checks
  trials_eq : ∀ s, trialsSince s (op s).2 = []

namespace Quiet

theorem pure (r : ρ) : Quiet (Pure.pure r : SessionM α ρ) where
  alike _ _ := rfl
  grows s := .refl s
  checks_eq _ := rfl
  trials_eq _ := trialsSince_of_journal_eq rfl

theorem ofOutcome (r : Outcome α ρ) : Quiet (Session.ofOutcome r) where
  alike _ _ := rfl
  grows s := .refl s
  checks_eq _ := rfl
  trials_eq _ := trialsSince_of_journal_eq rfl

theorem post {n : Notice α} (hn : n.trial? = none) : Quiet (Session.post n) where
  alike _ _ := rfl
  grows s := grows_hear n s
  checks_eq _ := rfl
  trials_eq s := trialsSince_hear hn s

theorem leaveAt [Scalar α] (values : List α) : Quiet (Session.leaveAt values) where
  alike m s := by
    have hspectrum : (s.cancelAt m).spectrum = s.spectrum := rfl
    rw [Session.leaveAt, amend_eq, amend_eq, hspectrum]
    cases s.spectrum.setTransitions values <;> rfl
  grows s := by
    rw [Session.leaveAt, amend_eq]
    cases s.spectrum.setTransitions values <;>
      exact ⟨Nat.le_refl _, [], (List.append_nil _).symm⟩
  checks_eq s := by
    rw [Session.leaveAt, amend_eq]
    cases s.spectrum.setTransitions values <;> rfl
  trials_eq s := by
    rw [Session.leaveAt, amend_eq]
    cases s.spectrum.setTransitions values <;> exact trialsSince_of_journal_eq rfl

/-- The program may look at the session first, but not at how the run may be cancelled. -/
theorem get_bind {k : Session α → SessionM α ρ} (hk : ∀ s, Quiet (k s))
    (hsame : ∀ m s, k (s.cancelAt m) = k s) : Quiet (get >>= k) where
  alike m s := by
    rw [bind_eq, bind_eq, get_eq, get_eq]
    dsimp only
    rw [hsame]
    exact (hk s).alike m s
  grows s := (hk s).grows s
  checks_eq s := (hk s).checks_eq s
  trials_eq s := (hk s).trials_eq s

theorem bind {op : SessionM α ρ} {k : ρ → SessionM α τ} (h : Quiet op) (hk : ∀ r, Quiet (k r)) :
    Quiet (op >>= k) := by
  -- Either the program fails, or the session goes on from where it was left.
  have hcases : ∀ s, (∃ e, (op >>= k) s = (.error e, (op s).2)) ∨
      ∃ r, (op >>= k) s = k r (op s).2 := by
    intro s
    rw [bind_eq]
    cases hrun : op s with
    | mk r s' =>
        cases r with
        | error e => exact .inl ⟨e, rfl⟩
        | ok r => exact .inr ⟨r, rfl⟩
  refine ⟨fun m s => ?_, fun s => ?_, fun s => ?_, fun s => ?_⟩
  · rw [bind_eq, bind_eq, h.alike]
    cases hrun : op s with
    | mk r s' =>
        cases r with
        | error e => rfl
        | ok r => exact (hk r).alike m s'
  · obtain ⟨e, hrun⟩ | ⟨r, hrun⟩ := hcases s
    · rw [hrun]
      exact h.grows s
    · rw [hrun]
      exact (h.grows s).trans ((hk r).grows _)
  · obtain ⟨e, hrun⟩ | ⟨r, hrun⟩ := hcases s
    · rw [hrun]
      exact h.checks_eq s
    · rw [hrun, (hk r).checks_eq, h.checks_eq]
  · obtain ⟨e, hrun⟩ | ⟨r, hrun⟩ := hcases s
    · rw [hrun]
      exact h.trials_eq s
    · rw [hrun, (h.grows s).trialsSince_append ((hk r).grows _), h.trials_eq, (hk r).trials_eq]
      rfl

end Quiet

/-- A cancelled run of the program is a beginning of the run that is not cancelled. -/
structure Cuts [Scalar α] (op : SessionM α ρ) : Prop where
  cut : ∀ m s, s.CancelFree → s.evaluations ≤ m → Cut m s (op s) (op (s.cancelAt m))
  grows : ∀ s, Grows s (op s).2

namespace Cuts

variable [Scalar α] {op : SessionM α ρ}

theorem conduct {answer : π → SessionM α α} (hanswer : Attempts answer) {search : Search α π ρ}
    (hsilent : search.Silent) : Cuts (Session.conduct answer search) where
  cut _ _ hs hm := conduct_cut hanswer hsilent hs hm
  grows s := conduct_grows hanswer search s

theorem ofOutcome (r : Outcome α ρ) : Cuts (Session.ofOutcome r) where
  cut _ _ _ hm := .through (Nat.add_le_add_left hm _)
  grows s := .refl s

theorem get_bind {k : Session α → SessionM α ρ} (hk : ∀ s, Cuts (k s))
    (hsame : ∀ m s, k (s.cancelAt m) = k s) : Cuts (get >>= k) where
  cut m s hs hm := by
    rw [bind_eq, bind_eq, get_eq, get_eq]
    dsimp only
    rw [hsame]
    exact (hk s).cut m s hs hm
  grows s := (hk s).grows s

theorem bind_quiet {k : ρ → SessionM α τ} (h : Cuts op) (hk : ∀ r, Quiet (k r)) :
    Cuts (op >>= k) where
  cut m s hs hm := by
    have hcut := h.cut m s hs hm
    have hgrows := h.grows s
    rw [bind_eq, bind_eq]
    generalize op s = full at *
    generalize op (s.cancelAt m) = cut at *
    cases hcut with
    | @through r after hfew =>
        cases r with
        | error e => exact .through hfew
        | ok r =>
            dsimp only
            rw [(hk r).alike]
            refine .through ?_
            rw [(hk r).checks_eq]
            exact hfew
    | @short r after left hmany hgrows' heval htrials hlength hheld =>
        cases r with
        | error e => exact .short hmany hgrows' heval htrials hlength hheld
        | ok r =>
            refine .short ?_ hgrows' heval ?_ hlength hheld
            · rw [(hk r).checks_eq]
              exact hmany
            · rw [hgrows.trialsSince_append ((hk r).grows after), (hk r).trials_eq,
                List.append_nil]
              exact htrials
  grows s := by
    have hgrows := h.grows s
    rw [bind_eq]
    cases hrun : op s with
    | mk r s' =>
        rw [hrun] at hgrows
        cases r with
        | error e => exact hgrows
        | ok r => exact hgrows.trans ((hk r).grows s')

end Cuts

section Programs

variable [Scalar α]

end Programs

end FrequencySampling.Session
