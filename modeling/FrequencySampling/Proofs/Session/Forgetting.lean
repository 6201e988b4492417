import FrequencySampling.FilterDesign
import FrequencySampling.Proofs.RationalArithmetic
import FrequencySampling.Proofs.Session.Conduct

/-!
Optimization forgets the transition samples that it starts from. Two sessions that differ in these
samples alone are run side by side. As long as both are refused they go on differing in nothing
else; the first write sets every transition sample, and from then on they are one and the same
session. Nothing is said of evaluations that write only a part of the transitions.
-/

namespace FrequencySampling

namespace HalfSpectrum

variable {α : Type} {s t : HalfSpectrum α}

/-- A write to every slot has one outcome, be it a refusal or a half spectrum. -/
theorem AgreesOff.checked_writeSlots_eq (h : s.AgreesOff s.geometry.IsTransition t) {given : Nat}
    {values : List α} (hlength : values.length = given) :
    (do s.checkSlotCount given; return s.writeSlots 0 values : Outcome α (HalfSpectrum α)) =
      do t.checkSlotCount given; return t.writeSlots 0 values := by
  rw [checkSlotCount, checkSlotCount, h.numTransitions_eq, ← h.geometry_eq]
  by_cases hslots : given = s.numTransitions
  · rw [h.writeSlots_eq (hlength.trans hslots)]
  · rw [if_neg hslots]
    rfl

theorem AgreesOff.setOnLine_eq [Scalar α] (h : s.AgreesOff s.geometry.IsTransition t)
    (line : SlotLine α) (rho : α) : s.setOnLine line rho = t.setOnLine line rho :=
  h.checked_writeSlots_eq (line.length_values rho)

theorem AgreesOff.setTransitions_eq [Scalar α] (h : s.AgreesOff s.geometry.IsTransition t)
    (values : List α) : s.setTransitions values = t.setTransitions values :=
  h.checked_writeSlots_eq rfl

/-- A single value is a write to every slot only where there is one slot. -/
theorem AgreesOff.setScalar_eq (h : s.AgreesOff s.geometry.IsTransition t)
    (hone : s.numTransitions = 1) (v : α) : s.setScalar v = t.setScalar v := by
  have hwritten : s.writeSlots 0 [v] = t.writeSlots 0 [v] := h.writeSlots_eq hone.symm
  change s.writeSlot 0 v = t.writeSlot 0 v at hwritten
  rw [setScalar, setScalar, h.numTransitions_eq, hone, hwritten]
  rfl

theorem AgreesOff.eq_of_no_transitions (h : s.AgreesOff s.geometry.IsTransition t)
    (hnone : s.numTransitions = 0) : s = t := by
  refine h.eq_of_not_free ?_
  rintro k ⟨slot, hslot, -⟩
  rw [← numTransitions, hnone] at hslot
  exact Nat.not_lt_zero slot hslot

end HalfSpectrum

namespace Session

variable {α π ρ τ : Type} {s t : Session α}

/-- The sessions differ in the transition samples of their half spectra, if at all. -/
inductive Alike (s : Session α) : Session α → Prop
  | holding {u} (h : s.spectrum.AgreesOff s.spectrum.geometry.IsTransition u) :
      Alike s (s.holding u)

namespace Alike

theorem refl (s : Session α) : Alike s s :=
  .holding (.refl s.spectrum)

theorem hear (h : Alike s t) (n : Notice α) : Alike (Session.hear n s) (Session.hear n t) := by
  cases h with
  | holding h => exact .holding (s := Session.hear n s) h

theorem journal_eq (h : Alike s t) : s.journal = t.journal := by
  cases h
  rfl

theorem evaluations_eq (h : Alike s t) : t.evaluations = s.evaluations := by
  cases h
  rfl

theorem numTransitions_eq (h : Alike s t) :
    t.spectrum.numTransitions = s.spectrum.numTransitions := by
  cases h with
  | holding h => exact h.numTransitions_eq

theorem eq_of_no_transitions (h : Alike s t) (hnone : s.spectrum.numTransitions = 0) : s = t := by
  cases h with
  | @holding u h =>
      obtain rfl : s.spectrum = u := h.eq_of_no_transitions hnone
      rfl

end Alike

/-- Two runs with one result, the sessions alike as before. -/
inductive SameCourse : Outcome α ρ × Session α → Outcome α ρ × Session α → Prop
  | alike {r s t} (h : Alike s t) : SameCourse (r, s) (r, t)

/-- Two runs with one result that leave no difference, unless they fail. -/
inductive Forgotten : Outcome α ρ × Session α → Outcome α ρ × Session α → Prop
  | same {run} : Forgotten run run
  | failed {e s t} (h : Alike s t) : Forgotten (.error e, s) (.error e, t)

theorem Forgotten.sameCourse {run run' : Outcome α ρ × Session α} (h : Forgotten run run') :
    SameCourse run run' := by
  cases h with
  | same => exact .alike (.refl run.2)
  | failed h => exact .alike h

theorem SameCourse.bind {op : SessionM α ρ} {k : ρ → SessionM α τ} (h : SameCourse (op s) (op t))
    (hk : ∀ r s' t', Alike s' t' → Forgotten (k r s') (k r t')) :
    Forgotten ((op >>= k) s) ((op >>= k) t) := by
  rw [bind_eq, bind_eq]
  generalize op s = run at *
  generalize op t = run' at *
  cases h with
  | @alike r s' t' h =>
      cases r with
      | error e => exact .failed h
      | ok r => exact hk r s' t' h

/-- Once nothing differs, nothing that follows can. -/
theorem Forgotten.bind {op : SessionM α ρ} (h : Forgotten (op s) (op t)) (k : ρ → SessionM α τ) :
    Forgotten ((op >>= k) s) ((op >>= k) t) := by
  rw [bind_eq, bind_eq]
  generalize op s = run at *
  generalize op t = run' at *
  cases h with
  | same => exact .same
  | failed h => exact .failed h

/-- A program may look at the session first, but not at the transition samples. -/
theorem Forgotten.get_bind {k : Session α → SessionM α ρ} (hsame : k t = k s)
    (h : Forgotten (k s s) (k s t)) : Forgotten ((get >>= k) s) ((get >>= k) t) := by
  rw [get_bind_eq, get_bind_eq, hsame]
  exact h

section Writes

variable [Scalar α]

/-- An attempt forgets if it writes alike into both half spectra. -/
theorem forgotten_attempt {change : HalfSpectrum α → Outcome α (HalfSpectrum α)} (h : Alike s t)
    (hchange : change s.spectrum = change t.spectrum) (x : α) :
    Forgotten (attempt change x s) (attempt change x t) := by
  have hcases := attempted change x s
  generalize attempt change x s = run at hcases ⊢
  cases h with
  | @holding u h =>
      change _ = change u at hchange
      cases hcases with
      | cancelled hc =>
          rw [(Attempted.cancelled (s := s.holding u) hc).eq]
          exact .failed (.holding h)
      | expired hc he =>
          rw [(Attempted.expired (s := s.holding u) hc he).eq]
          exact .failed (.holding h)
      | refused hc he hr =>
          rw [hchange] at hr
          rw [(Attempted.refused (s := s.holding u) hc he hr).eq]
          exact .failed (.holding h)
      | unmeasured hc he hr hm =>
          rw [hchange] at hr
          rw [(Attempted.unmeasured (s := s.holding u) hc he hr hm).eq]
          exact .same
      | notFinite hc he hr hm hf =>
          rw [hchange] at hr
          rw [(Attempted.notFinite (s := s.holding u) hc he hr hm hf).eq]
          exact .same
      | made hc he hr hm hf =>
          rw [hchange] at hr
          rw [(Attempted.made (s := s.holding u) hc he hr hm hf).eq]
          exact .same

theorem forgotten_tryScalar (h : Alike s t) (hone : s.spectrum.numTransitions = 1) (v : α) :
    Forgotten (tryScalar v s) (tryScalar v t) := by
  rw [tryScalar_eq]
  refine forgotten_attempt h ?_ v
  cases h with
  | holding h => exact h.setScalar_eq hone v

theorem forgotten_tryLine (h : Alike s t) (p : LinePoint α) :
    Forgotten (tryLine p s) (tryLine p t) := by
  rw [tryLine_eq]
  refine forgotten_attempt h ?_ p.rho
  cases h with
  | holding h => exact h.setOnLine_eq p.line p.rho

theorem forgotten_leaveAt (h : Alike s t) (values : List α) :
    Forgotten (leaveAt values s) (leaveAt values t) := by
  cases h with
  | @holding u h =>
      have hspectrum : (s.holding u).spectrum = u := rfl
      rw [leaveAt, amend_eq, amend_eq, hspectrum]
      rw [h.setTransitions_eq values]
      cases u.setTransitions values with
      | error e => exact .failed (.holding h)
      | ok v => exact .same

end Writes

/-- Until its first question a search takes the same course, whatever it posts, and from the answer
on there is one session only. -/
theorem sameCourse_conduct {answer : π → SessionM α α} {slots : Nat}
    (hanswer : ∀ p s t, Alike s t → s.spectrum.numTransitions = slots →
      Forgotten (answer p s) (answer p t))
    (m : Search α π ρ) (h : Alike s t) (hslots : s.spectrum.numTransitions = slots) :
    SameCourse (conduct answer m s) (conduct answer m t) := by
  induction m generalizing s t with
  | done r => exact .alike h
  | tell n next ih => exact ih (h.hear n) hslots
  | ask p next ih =>
      have hfirst := hanswer p s t h hslots
      rw [conduct_ask, conduct_ask]
      generalize answer p s = run at *
      generalize answer p t = run' at *
      cases hfirst with
      | failed h => exact .alike h
      | same => exact Forgotten.same.sameCourse

/-- The runs have one result and one journal, and leave one half spectrum if they end well. -/
structure Indistinct (run run' : Outcome α ρ × Session α) : Prop where
  result_eq : run.1 = run'.1
  journal_eq : run.2.journal = run'.2.journal
  spectrum_eq : ∀ r, run.1 = .ok r → run.2.spectrum = run'.2.spectrum

theorem Forgotten.indistinct {run run' : Outcome α ρ × Session α} (h : Forgotten run run') :
    Indistinct run run' := by
  cases h with
  | same => exact ⟨rfl, rfl, fun _ _ => rfl⟩
  | failed h => exact ⟨rfl, h.journal_eq, fun _ hr => nomatch hr⟩

section Programs

variable [Scalar α]

theorem forgotten_searchScalar (params : LineSearchParams α) (h : Alike s t) :
    Forgotten (searchScalar params s) (searchScalar params t) := by
  unfold searchScalar
  refine .get_bind (by rw [h.numTransitions_eq]) ?_
  by_cases hone : s.spectrum.numTransitions ≠ 1
  · rw [if_pos hone]
    exact .failed h
  · rw [if_neg hone]
    have hsearch := sameCourse_conduct (fun v _ _ => forgotten_tryScalar (v := v))
      (GoldenSection.minimize params 0 1) h (not_not.mp hone)
    exact hsearch.bind fun minimum s' t' h' => (forgotten_leaveAt h' [minimum.x]).bind _

theorem forgotten_searchPlane (params : LineSearchParams α) (direction : PlaneSearchParams α)
    (h : Alike s t) :
    Forgotten (searchPlane params direction s) (searchPlane params direction t) := by
  unfold searchPlane
  refine .get_bind (by rw [h.numTransitions_eq, h.evaluations_eq]) ?_
  have hsearch := sameCourse_conduct (fun p _ _ h _ => forgotten_tryLine h p)
    (PlaneSearch.search params direction s.spectrum.numTransitions) h rfl
  refine hsearch.bind fun descent s' t' h' => .get_bind (by rw [h'.evaluations_eq]) ?_
  exact (forgotten_leaveAt h' [descent.best.x, descent.best.y]).bind _

theorem forgotten_optimize (params : DesignParams α) (h : Alike s t) :
    Forgotten (FilterDesign.optimize params s) (FilterDesign.optimize params t) := by
  unfold FilterDesign.optimize
  refine .get_bind (by rw [h.numTransitions_eq]) ?_
  generalize hcount : s.spectrum.numTransitions = count
  obtain _ | _ | _ | count := count
  · rw [h.eq_of_no_transitions hcount]
    exact .same
  · exact (forgotten_searchScalar params.line h).bind _
  · exact (forgotten_searchPlane params.line params.direction h).bind _
  · exact .failed h

theorem forgotten_choose (params : DesignParams α) (choice : TransitionChoice α) (h : Alike s t) :
    Forgotten (FilterDesign.choose params choice s) (FilterDesign.choose params choice t) := by
  cases choice with
  | optimal => exact forgotten_optimize params h
  | manual values =>
      unfold FilterDesign.choose
      dsimp only
      cases values.find? fun v => !Scalar.isFinite v with
      | some bad => exact .failed h
      | none => exact (forgotten_leaveAt h values).bind _

theorem forgotten_inSession (params : DesignParams α) (choice : TransitionChoice α)
    (h : Alike s t) :
    Forgotten (FilterDesign.inSession params choice s)
      (FilterDesign.inSession params choice t) := by
  unfold FilterDesign.inSession
  cases params.check with
  | error e => exact .failed h
  | ok => exact (forgotten_choose params choice h).bind _

/-- Searches and designs forget the transition samples that they begin with. From half spectra that
differ only there, they take one course to one end. -/
theorem searches_forget_transitions {s t : HalfSpectrum α} (hs : s.WellFormed)
    (h : s.AgreesOff s.geometry.BetweenBands t) :
    (∀ (params : LineSearchParams α) (session : Session α),
      Indistinct (searchScalar params (session.holding s))
        (searchScalar params (session.holding t))) ∧
    (∀ (params : LineSearchParams α) (direction : PlaneSearchParams α) (session : Session α),
      Indistinct (searchPlane params direction (session.holding s))
        (searchPlane params direction (session.holding t))) ∧
    ∀ (params : DesignParams α) (choice : TransitionChoice α) (context : RunContext α),
      Indistinct (FilterDesign.run s params choice context)
        (FilterDesign.run t params choice context) := by
  have htransitions : s.AgreesOff s.geometry.IsTransition t :=
    h.mono fun k hk => (Geometry.isTransition_iff_betweenBands hs.check).mpr hk
  have halike : ∀ session : Session α, Alike (session.holding s) (session.holding t) :=
    fun session => .holding (s := session.holding s) htransitions
  refine ⟨fun params session => ?_, fun params direction session => ?_,
    fun params choice context => ?_⟩
  · exact (forgotten_searchScalar params (halike session)).indistinct
  · exact (forgotten_searchPlane params direction (halike session)).indistinct
  · have hstart := halike (start s params.objectiveGrid context)
    exact (forgotten_inSession params choice hstart).indistinct

end Programs

open RationalArithmetic in
/-- The direction search from other transition samples than the zeros it begins with. -/
theorem searches_forget_transitions_rational :
    (session .unbounded).spectrum.WellFormed ∧
      (session .unbounded).spectrum.AgreesOff (session .unbounded).spectrum.geometry.BetweenBands
        ((session .unbounded).spectrum.writeSlots 0 [mkRat 1 2, mkRat 1 3]) ∧
      (searchPlane line direction (session .unbounded)).1.isOk = true ∧
      Indistinct (searchPlane line direction (session .unbounded))
        (searchPlane line direction ((session .unbounded).holding
          ((session .unbounded).spectrum.writeSlots 0 [mkRat 1 2, mkRat 1 3]))) := by
  have hs : (session .unbounded).spectrum.WellFormed := ⟨rfl, rfl⟩
  have hcount : [mkRat 1 2, mkRat 1 3].length ≤ (session .unbounded).spectrum.numTransitions := by
    decide
  have hagrees : (session .unbounded).spectrum.AgreesOff
      (session .unbounded).spectrum.geometry.BetweenBands
      ((session .unbounded).spectrum.writeSlots 0 [mkRat 1 2, mkRat 1 3]) :=
    (HalfSpectrum.agreesOff_of_writeSlots hcount).mono fun k hk =>
      (Geometry.isTransition_iff_betweenBands hs.check).mp hk
  exact ⟨hs, hagrees, by decide +kernel,
    (searches_forget_transitions hs hagrees).2.1 line direction (session .unbounded)⟩

end Session
end FrequencySampling
