import FrequencySampling.Proofs.GoldenSection.Log
import FrequencySampling.Proofs.Session.Account

/-!
One line search of a session: what is searched, and the session that it begins in. Its trials and
its outcome follow from these, and so does what it enters into the journal, whether it completes or
is cut short by an error, a deadline or a cancellation.
-/

namespace FrequencySampling

variable {α : Type}

structure LineRun (α : Type) where
  /-- The line that is searched; without one it is the single transition sample itself. -/
  line : Option (SlotLine α)
  lo : α
  hi : α
  before : Session α

namespace LineRun

open Session (conduct hear)

/-- The session is one that the search can go on in. -/
structure Fits (r : LineRun α) (s : Session α) : Prop where
  wellFormed : s.spectrum.WellFormed
  one : r.line = none → s.spectrum.numTransitions = 1

theorem Fits.of_agrees {r : LineRun α} {s t : Session α} (hs : r.Fits s)
    (h : s.spectrum.AgreesOff s.spectrum.geometry.IsTransition t.spectrum) : r.Fits t :=
  ⟨hs.wellFormed.of_agreesOff h, fun hline => h.numTransitions_eq.trans (hs.one hline)⟩

variable [Scalar α] {ρ : Type} (r : LineRun α) (params : LineSearchParams α) {s : Session α} {x : α}

/-- The transition samples at a coordinate. -/
def transitions (x : α) : List α :=
  match r.line with
  | none => [x]
  | some line => line.values x

def change (x : α) (s : HalfSpectrum α) : Outcome α (HalfSpectrum α) :=
  match r.line with
  | none => s.setScalar x
  | some line => s.setOnLine line x

def answer (x : α) : SessionM α α :=
  match r.line with
  | none => Session.tryScalar x
  | some line => Session.tryLine ⟨line, x⟩

def outcome : Outcome α (LineMinimum α) :=
  (conduct r.answer (GoldenSection.minimize params r.lo r.hi) r.before).1

/-- The evaluations that succeeded, in order. -/
def trials : List (Trial α) :=
  Search.trials r.transitions
    ((GoldenSection.minimize params r.lo r.hi).events r.answer hear r.before)

/-- The result, if the search completes. -/
def minimum? : Option (LineMinimum α) :=
  (r.outcome params).toOption

/-- The session as the search leaves it, which reports a search that has completed. -/
def after : Session α :=
  let left := (conduct r.answer (GoldenSection.minimize params r.lo r.hi) r.before).2
  match r.minimum? params with
  | some m => hear (.lineSearchFinished m) left
  | none => left

/-- The entries of the search in the journal. -/
def log : List (Notice α) :=
  GoldenSection.log params (r.trials params) ((r.minimum? params).map (·.converged)) ++
    ((r.minimum? params).map .lineSearchFinished).toList

theorem answer_eq (x : α) : r.answer x = Session.attempt (r.change x) x := by
  unfold answer change
  cases r.line with
  | none => exact Session.tryScalar_eq x
  | some line => exact Session.tryLine_eq ⟨line, x⟩

theorem attemptsTransitions : Session.AttemptsTransitions r.answer := by
  refine fun x => ⟨r.change x, x, r.answer_eq x, fun t u h => ?_⟩
  unfold change at h
  cases hline : r.line with
  | none =>
      rw [hline] at h
      exact HalfSpectrum.agreesOff_of_setScalar h
  | some line =>
      rw [hline] at h
      exact Session.agreesOff_of_setOnLine h

/-- What a trial writes is what is read back. -/
theorem transitionValues_of_change {r : LineRun α} (hs : r.Fits s) {t : HalfSpectrum α}
    (h : r.change x s.spectrum = .ok t) : t.transitionValues = r.transitions x := by
  unfold change at h
  unfold transitions
  cases hline : r.line with
  | none =>
      rw [hline] at h
      have hone := hs.one hline
      rw [HalfSpectrum.setScalar, if_neg (hone ▸ Nat.one_ne_zero)] at h
      cases h
      have hlength : [x].length = s.spectrum.numTransitions := hone.symm
      exact HalfSpectrum.transitionValues_writeSlots hs.wellFormed hlength
  | some line =>
      rw [hline] at h
      obtain ⟨hslots, rfl⟩ := HalfSpectrum.setOnLine_eq_ok_iff.mp h
      exact HalfSpectrum.transitionValues_writeSlots hs.wellFormed
        ((line.length_values x).trans hslots)

variable {r}

theorem journal_answer (hs : r.Fits s) (x : α) :
    (r.answer x s).2.journal.toList = s.journal.toList ++
      [Search.Event.asked x (r.answer x s).1].filterMap (Search.Event.logged? r.transitions) := by
  rw [answer_eq]
  have hcases := Session.attempted (r.change x) x s
  generalize Session.attempt (r.change x) x s = o at hcases
  cases hcases with
  | cancelled | expired | refused | unmeasured | notFinite => exact (List.append_nil _).symm
  | made _ _ hc =>
      rw [transitionValues_of_change hs hc]
      simp [Session.reported, Session.holding, Session.checked, hear, Search.Event.logged?]

/-- A search enters into the journal what its events amount to. -/
theorem journal_conduct (m : Search α α ρ) (hs : r.Fits s) :
    (conduct r.answer m s).2.journal.toList = s.journal.toList ++
      (m.events r.answer hear s).filterMap (Search.Event.logged? r.transitions) := by
  induction m generalizing s with
  | done => exact (List.append_nil _).symm
  | tell n next ih =>
      have hrest := ih (s := hear n s) (hs.of_agrees (.refl _))
      refine hrest.trans ?_
      simp [hear, Search.events, Search.Event.logged?]
  | ask x next ih =>
      rw [Session.conduct_ask, Search.events]
      have hfirst := journal_answer hs x
      cases hrun : r.answer x s with
      | mk a t =>
          rw [hrun] at hfirst
          cases a with
          | error e => exact hfirst
          | ok v =>
              have hagrees := (Session.accounts_answer r.attemptsTransitions hrun).agrees
              rw [ih v (hs.of_agrees hagrees), hfirst, List.append_assoc]
              rfl

theorem journal_minimize (hs : r.Fits r.before) :
    (conduct r.answer (GoldenSection.minimize params r.lo r.hi) r.before).2.journal.toList =
      r.before.journal.toList ++
        GoldenSection.log params (r.trials params) ((r.minimum? params).map (·.converged)) := by
  rw [journal_conduct _ hs]
  exact congrArg _ (GoldenSection.minimize_log (Search.transcript_events _ _ _ _))

theorem journal_after (hs : r.Fits r.before) :
    (r.after params).journal.toList = r.before.journal.toList ++ r.log params := by
  have hminimize := journal_minimize params hs
  unfold after log
  generalize r.minimum? params = minimum at hminimize ⊢
  cases minimum with
  | none =>
      refine hminimize.trans ?_
      simp
  | some m =>
      rw [← List.append_assoc, ← hminimize]
      exact Array.toList_push

theorem fits_after (hs : r.Fits r.before) : r.Fits (r.after params) := by
  have hagrees := (Session.accounts_conduct r.attemptsTransitions
    (GoldenSection.minimize_silent params r.lo r.hi) r.before).agrees
  unfold after
  cases r.minimum? params with
  | none => exact hs.of_agrees hagrees
  | some m => exact hs.of_agrees hagrees

theorem trials_log (r : LineRun α) :
    (r.log params).filterMap Notice.trial? = r.trials params := by
  rw [log, List.filterMap_append, GoldenSection.filterMap_log rfl rfl]
  cases r.minimum? params <;> simp [Notice.trial?]

theorem minima_log (r : LineRun α) :
    (r.log params).filterMap Notice.lineMinimum? = (r.minimum? params).toList := by
  rw [log, List.filterMap_append, GoldenSection.filterMap_log rfl rfl]
  cases r.minimum? params <;> simp [Notice.lineMinimum?]

/-- What is logged apart from trials and the final report. -/
theorem countP_log {p : Notice α → Bool} (htrial : ∀ t, p (.trial t) = false)
    (hfinished : ∀ m, p (.lineSearchFinished m) = false) (r : LineRun α) :
    (r.log params).countP p =
      (if p .bracketingExhausted &&
        GoldenSection.Exhausted params.maxBracketSteps (r.trials params) then 1 else 0) +
      if p .narrowingCapped && (r.minimum? params).map (·.converged) = some false then 1
        else 0 := by
  rw [log, List.countP_append, GoldenSection.countP_log htrial]
  cases r.minimum? params <;> simp [hfinished]

end LineRun
end FrequencySampling
