import FrequencySampling.FilterDesign
import FrequencySampling.Proofs.Session.Account

/-!
The stages of a design run that ends well: its parameters pass their check, transition samples are
chosen, and the filter is finished from the half spectrum that the choice leaves. A choice by search
ends with every transition sample written at once, so the half spectrum it leaves is the first one
with some values in its slots.
-/

namespace FrequencySampling

variable {α : Type} [Scalar α] {s s' : Session α}

namespace Session

theorem leaveAt_eq_ok_iff {values : List α} {u : Unit} : leaveAt values s = (.ok u, s') ↔
    values.length = s.spectrum.numTransitions ∧
      s' = s.holding (s.spectrum.writeSlots 0 values) := by
  rw [leaveAt, amend_eq]
  cases hset : s.spectrum.setTransitions values with
  | ok t =>
      obtain ⟨hlength, rfl⟩ := HalfSpectrum.setTransitions_eq_ok_iff.mp hset
      refine ⟨fun h => ?_, fun h => by rw [h.2]⟩
      cases h
      exact ⟨hlength, rfl⟩
  | error e =>
      refine iff_of_false (fun h => ?_) fun h => ?_
      · cases h
      · cases hset.symm.trans (HalfSpectrum.setTransitions_eq_ok_iff.mpr ⟨h.1, rfl⟩)

theorem searchScalar_eq_ok {params : LineSearchParams α} {m : LineMinimum α}
    (h : searchScalar params s = (.ok m, s')) :
    s.spectrum.numTransitions = 1 ∧
      ∃ s'', conduct tryScalar (GoldenSection.minimize params 0 1) s = (.ok m, s'') ∧
        s' = hear (.lineSearchFinished m) (s''.holding (s''.spectrum.writeSlots 0 [m.x])) := by
  rw [searchScalar, get_bind_eq] at h
  by_cases hone : s.spectrum.numTransitions = 1
  · rw [if_neg (not_not.mpr hone)] at h
    obtain ⟨minimum, s'', hconduct, h⟩ := bind_eq_ok_iff.mp h
    obtain ⟨_, _, hleave, h⟩ := bind_eq_ok_iff.mp h
    obtain ⟨-, rfl⟩ := leaveAt_eq_ok_iff.mp hleave
    cases h
    exact ⟨hone, s'', hconduct, rfl⟩
  · rw [if_pos hone] at h
    cases h

end Session

namespace FilterDesign

open Session

variable {params : DesignParams α} {choice : TransitionChoice α} {d : FilterDesign α}

theorem inSession_eq_ok_iff : inSession params choice s = (.ok d, s') ↔
    params.check = .ok () ∧ ∃ settled taken s'',
      choose params choice s = (.ok (settled, taken), s'') ∧
      finish params s''.spectrum settled taken = .ok d ∧ s' = hear .designFinished s'' := by
  constructor
  · intro h
    obtain ⟨_, s1, hcheck, hrest⟩ := bind_eq_ok_iff.mp h
    obtain ⟨hcheck, hs1⟩ := ofOutcome_eq_ok_iff.mp hcheck
    obtain ⟨⟨settled, taken⟩, s'', hchoose, hrest⟩ := bind_eq_ok_iff.mp hrest
    dsimp only at hrest
    rw [get_bind_eq] at hrest
    obtain ⟨_, s2, hfinish, hposted⟩ := bind_eq_ok_iff.mp hrest
    obtain ⟨hfinish, rfl⟩ := ofOutcome_eq_ok_iff.mp hfinish
    cases hposted
    exact ⟨hcheck, settled, taken, s2, hs1 ▸ hchoose, hfinish, rfl⟩
  · rintro ⟨hcheck, settled, taken, s'', hchoose, hfinish, rfl⟩
    refine bind_eq_ok_iff.mpr ⟨(), s, ofOutcome_eq_ok_iff.mpr ⟨hcheck, rfl⟩, ?_⟩
    refine bind_eq_ok_iff.mpr ⟨_, s'', hchoose, ?_⟩
    dsimp only
    rw [get_bind_eq]
    exact bind_eq_ok_iff.mpr ⟨d, s'', ofOutcome_eq_ok_iff.mpr ⟨hfinish, rfl⟩, rfl⟩

/-- The search that an optimal choice has made, by the number of transition samples. -/
inductive Optimized (params : DesignParams α) (s : Session α) : Bool × Nat → Session α → Prop
  | none (hcount : s.spectrum.numTransitions = 0) : Optimized params s (true, 0) s
  | scalar {m s'} (hcount : s.spectrum.numTransitions = 1)
      (hsearch : searchScalar params.line s = (.ok m, s')) :
      Optimized params s (m.converged, s'.evaluations) s'
  | plane {m s'} (hcount : s.spectrum.numTransitions = 2)
      (hsearch : searchPlane params.line params.direction s = (.ok m, s')) :
      Optimized params s (m.converged, m.evaluations) s'

theorem optimized {r : Bool × Nat} (h : optimize params s = (.ok r, s')) :
    Optimized params s r s' := by
  rw [optimize, get_bind_eq] at h
  generalize hcount : s.spectrum.numTransitions = count at h
  obtain _ | _ | _ | count := count
  · cases h
    exact .none hcount
  · obtain ⟨m, s'', hsearch, h⟩ := bind_eq_ok_iff.mp h
    cases h
    exact .scalar hcount hsearch
  · obtain ⟨m, s'', hsearch, h⟩ := bind_eq_ok_iff.mp h
    cases h
    exact .plane hcount hsearch
  · cases h

/-- A search leaves the half spectrum that it began with, with some values in all its slots. -/
theorem Optimized.writeSlots_eq {r : Bool × Nat} (h : Optimized params s r s') :
    ∃ values, values.length = s.spectrum.numTransitions ∧
      s'.spectrum = s.spectrum.writeSlots 0 values := by
  cases h with
  | none hcount => exact ⟨[], hcount.symm, rfl⟩
  | @scalar m _ hcount hsearch =>
      obtain ⟨-, s'', hconduct, rfl⟩ := searchScalar_eq_ok hsearch
      have hagrees := (accounts_conduct attemptsTransitions_tryScalar
        (GoldenSection.minimize_silent params.line 0 1) s).agrees
      rw [hconduct] at hagrees
      have hlength : [m.x].length = s.spectrum.numTransitions := hcount.symm
      exact ⟨[m.x], hlength, (hagrees.writeSlots_eq hlength).symm⟩
  | plane hcount hsearch =>
      obtain ⟨descent, s'', hconduct, -, -, rfl⟩ := searchPlane_eq_ok hsearch
      have hagrees := (accounts_conduct attemptsTransitions_tryLine
        (PlaneSearch.search_silent params.line params.direction s.spectrum.numTransitions) s).agrees
      rw [hconduct] at hagrees
      have hlength : [descent.best.x, descent.best.y].length = s.spectrum.numTransitions :=
        hcount.symm
      exact ⟨_, hlength, (hagrees.writeSlots_eq hlength).symm⟩

/-- The response that a design reports. -/
def presented (params : DesignParams α) (measured : MagnitudeResponse α) :
    Outcome α (MagnitudeResponse α) :=
  if params.normalize then measured.normalize else .ok measured

theorem finish_eq (params : DesignParams α) (spectrum : HalfSpectrum α) (settled : Bool)
    (taken : Nat) : finish params spectrum settled taken = do
      let impulse ← ImpulseResponse.ofSpectrum spectrum
      let measured ← params.responseGrid.measure impulse
      let response ← presented params measured
      let peak ← params.objectiveGrid.stopbandLevel spectrum
      return ⟨spectrum, impulse, response, peak, spectrum.transitionValues, settled, taken⟩ := by
  unfold finish presented
  cases params.normalize <;> rfl

/-- What a finished design consists of. -/
structure Finished (params : DesignParams α) (spectrum : HalfSpectrum α) (d : FilterDesign α) :
    Prop where
  spectrum_eq : d.spectrum = spectrum
  impulse_eq : ImpulseResponse.ofSpectrum spectrum = .ok d.impulse
  response_eq : ∃ measured, params.responseGrid.measure d.impulse = .ok measured ∧
    presented params measured = .ok d.response
  stopbandPeak_eq : params.objectiveGrid.stopbandLevel spectrum = .ok d.stopbandPeak
  transitions_eq : d.transitions = spectrum.transitionValues

theorem finish_eq_ok_iff {spectrum : HalfSpectrum α} {settled : Bool} {taken : Nat} :
    finish params spectrum settled taken = .ok d ↔
      Finished params spectrum d ∧ d.converged = settled ∧ d.evaluations = taken := by
  rw [finish_eq]
  constructor
  · intro h
    obtain ⟨impulse, himpulse, h⟩ := Outcome.bind_eq_ok_iff.mp h
    obtain ⟨measured, hmeasured, h⟩ := Outcome.bind_eq_ok_iff.mp h
    obtain ⟨response, hresponse, h⟩ := Outcome.bind_eq_ok_iff.mp h
    obtain ⟨peak, hpeak, h⟩ := Outcome.bind_eq_ok_iff.mp h
    cases h
    exact ⟨⟨rfl, himpulse, ⟨measured, hmeasured, hresponse⟩, hpeak, rfl⟩, rfl, rfl⟩
  · rintro ⟨⟨rfl, himpulse, ⟨measured, hmeasured, hresponse⟩, hpeak, htransitions⟩, rfl, rfl⟩
    refine Outcome.bind_eq_ok_iff.mpr ⟨d.impulse, himpulse, ?_⟩
    refine Outcome.bind_eq_ok_iff.mpr ⟨measured, hmeasured, ?_⟩
    refine Outcome.bind_eq_ok_iff.mpr ⟨d.response, hresponse, ?_⟩
    refine Outcome.bind_eq_ok_iff.mpr ⟨d.stopbandPeak, hpeak, ?_⟩
    rw [← htransitions]
    rfl

/-- Whether a search settled and what it took are labels only. -/
theorem Finished.relabel {spectrum : HalfSpectrum α} (h : Finished params spectrum d)
    (settled : Bool) (taken : Nat) :
    finish params spectrum settled taken =
      .ok { d with converged := settled, evaluations := taken } :=
  finish_eq_ok_iff.mpr ⟨⟨h.spectrum_eq, h.impulse_eq, h.response_eq, h.stopbandPeak_eq,
    h.transitions_eq⟩, rfl, rfl⟩

end FilterDesign
end FrequencySampling
