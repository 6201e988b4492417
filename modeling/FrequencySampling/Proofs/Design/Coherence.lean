import FrequencySampling.Proofs.Design.Optimum
import FrequencySampling.Proofs.RationalArithmetic
import FrequencySampling.Proofs.Session.Account

/-!
The parts of a finished design describe one filter. The driver keeps the half spectrum that the
choice of transition samples left, synthesizes it again, and measures it once for the reported
response and once more for the stopband peak; what is proved here is that nothing comes apart on the
way, and that the peak and the count of evaluations are those that the search reported. The
arithmetic may be any that compares numbers as double precision does and ignores the sign of a zero
as it does.
-/

namespace FrequencySampling

variable {α : Type} [Scalar α]

theorem ResponseGrid.size_measure {grid : ResponseGrid} {h : ImpulseResponse α}
    {r : MagnitudeResponse α} (hr : grid.measure h = .ok r) : r.size = grid.points := by
  unfold measure at hr
  split at hr
  · cases hr
  · cases hr
    cases grid.method <;>
      simp [MagnitudeResponse.size, ImpulseResponse.amplitudes, ImpulseResponse.dftMagnitudes]

theorem MagnitudeResponse.size_normalize {r n : MagnitudeResponse α} (h : r.normalize = .ok n) :
    n.size = r.size := by
  unfold normalize at h
  split at h
  · cases h
    simp [size]
  · dsimp only at h
    split at h
    · cases h
    · cases h
      simp [size]

namespace FilterDesign

open Session

variable {params : DesignParams α} {choice : TransitionChoice α} {d : FilterDesign α}
  {spectrum : HalfSpectrum α} {context : RunContext α} {s s' after : Session α} {r : Bool × Nat}

/-- The peak is read from the normalized decibel response, which is the reported one if that is
normalized and in decibels too. -/
theorem Finished.stopbandPeak_of_presented (h : Finished params spectrum d)
    (hscale : params.scale = .decibel) (hnormalize : params.normalize = true) :
    d.stopbandPeak = d.response.stopbandPeak d.spectrum.geometry := by
  obtain ⟨measured, hmeasured, hpresented⟩ := h.response_eq
  rw [presented, if_pos hnormalize] at hpresented
  have hgrid : params.responseGrid = params.objectiveGrid := by
    rw [DesignParams.responseGrid, DesignParams.objectiveGrid, hscale]
  rw [hgrid] at hmeasured
  have hjudged : params.objectiveGrid.judged spectrum = .ok d.response := by
    rw [ResponseGrid.judged, h.impulse_eq]
    change params.objectiveGrid.measure d.impulse >>= _ = _
    rw [hmeasured]
    exact hpresented
  have hsees : ¬ params.objectiveGrid.SeesNothing spectrum := by
    intro hnothing
    cases (ResponseGrid.stopbandLevel_of_seesNothing hnothing).symm.trans h.stopbandPeak_eq
  have hpeak := (ResponseGrid.stopbandLevel_of_sees hsees).symm.trans h.stopbandPeak_eq
  rw [hjudged] at hpeak
  have hsize : d.response.size = params.objectiveGrid.points :=
    (MagnitudeResponse.size_normalize hpresented).trans (ResponseGrid.size_measure hmeasured)
  rw [MagnitudeResponse.stopbandPeak, hsize, h.spectrum_eq]
  exact (Except.ok.inj hpeak).symm

/-- How the transition samples came to be as they are. -/
inductive Chosen (params : DesignParams α) (s : Session α) :
    TransitionChoice α → Bool × Nat → Session α → Prop
  | manual {values : List α} (hlength : values.length = s.spectrum.numTransitions) :
      Chosen params s (.manual values) (true, 0) (s.holding (s.spectrum.writeSlots 0 values))
  | optimal {r : Bool × Nat} {s' : Session α} (h : Optimized params s r s') :
      Chosen params s .optimal r s'

theorem chosen (h : choose params choice s = (.ok r, s')) : Chosen params s choice r s' := by
  cases choice with
  | optimal => exact .optimal (optimized h)
  | manual values =>
      unfold choose at h
      cases hfind : values.find? (fun v => !Scalar.isFinite v) with
      | some bad =>
          simp only [hfind] at h
          cases h
      | none =>
          simp only [hfind] at h
          obtain ⟨_, _, hleave, h⟩ := bind_eq_ok_iff.mp h
          obtain ⟨hlength, rfl⟩ := leaveAt_eq_ok_iff.mp hleave
          cases h
          exact .manual hlength

/-- The account of a choice: what it took is the number of trials that it reported. -/
theorem Chosen.accounts (h : Chosen params s choice r s') (hfresh : s.evaluations = 0) :
    ∃ evaluated, Accounts s evaluated s' ∧ r.2 = evaluated.length := by
  cases h with
  | manual hlength =>
      exact ⟨[], .holding (HalfSpectrum.agreesOff_of_writeSlots (Nat.le_of_eq hlength)), rfl⟩
  | optimal h =>
      cases h with
      | none => exact ⟨[], .refl s, rfl⟩
      | scalar hcount hsearch =>
          have haccounts := Call.accounts_searchScalar params.line s
          rw [hsearch] at haccounts
          refine ⟨_, haccounts, ?_⟩
          rw [haccounts.evaluations_eq, hfresh, Nat.zero_add]
      | plane hcount hsearch =>
          have haccounts := Call.accounts_searchPlane params.line params.direction s
          rw [hsearch] at haccounts
          refine ⟨_, haccounts, ?_⟩
          obtain ⟨_, t, -, rfl, -, rfl⟩ := searchPlane_eq_ok hsearch
          change t.evaluations - s.evaluations = _
          rw [hfresh, Nat.sub_zero]
          exact haccounts.evaluations_eq.trans (by rw [hfresh, Nat.zero_add])

/-- The search reported the peak: as the value of the only line search, or as the least value on the
fitted lines, which are every third of the line searches. -/
inductive PeakReported (peak : α) : Nat → List (LineMinimum α) → Prop
  | one {m} (h : peak = m.f) : PeakReported peak 1 [m]
  | two {minima} (hthree : minima.length = 3 * (everyThird minima).length)
      (hleast : IsLeast (LineMinimum.f '' {m | m ∈ everyThird minima}) peak) :
      PeakReported peak 2 minima

/-- The parts of a design belong together, to the half spectrum that it was made from and to what
the run reported. -/
structure Coherent (params : DesignParams α) (spectrum : HalfSpectrum α)
    (choice : TransitionChoice α) (d : FilterDesign α) (after : Session α) : Prop where
  agrees : spectrum.AgreesOff spectrum.geometry.BetweenBands d.spectrum
  impulse_eq : ImpulseResponse.ofSpectrum d.spectrum = .ok d.impulse
  transitions_eq : d.transitions = d.spectrum.transitionValues
  presented : params.scale = .decibel → params.normalize = true →
    d.stopbandPeak = d.response.stopbandPeak d.spectrum.geometry
  reported : choice = .optimal → spectrum.numTransitions = 1 ∨ spectrum.numTransitions = 2 →
    PeakReported d.stopbandPeak spectrum.numTransitions after.minima
  evaluations_eq : d.evaluations = after.trials.length

theorem Optimized.peakReported [Scalar.ComparesNumbers α] [Scalar.IgnoresZeroSign α]
    (h : Optimized params s r s') (hs : s.spectrum.WellFormed) (hfresh : s.minima = [])
    (hcount : s.spectrum.numTransitions ≠ 0) {peak : α}
    (hpeak : s.grid.stopbandLevel s'.spectrum = .ok peak) :
    PeakReported peak s.spectrum.numTransitions s'.minima := by
  cases h with
  | none hnone => exact absurd hnone hcount
  | scalar hone hsearch =>
      obtain ⟨hminima, hlevel⟩ := searchScalar_optimum hsearch
      rw [hone, hminima, hfresh]
      exact .one (Except.ok.inj (hpeak.symm.trans hlevel))
  | plane htwo hsearch =>
      obtain ⟨finished, least, hminima, hthree, hlevel, hleast⟩ := searchPlane_optimum hs hsearch
      obtain rfl := Except.ok.inj (hpeak.symm.trans hlevel)
      rw [htwo, hminima, hfresh]
      exact .two hthree hleast

/-- Whatever a run ends well with is coherent. The samples that are left are those of the best trial
up to the sign of a zero, which the arithmetic has to ignore. -/
theorem run_coherent [Scalar.ComparesNumbers α] [Scalar.IgnoresZeroSign α]
    (hs : spectrum.WellFormed) (hrun : run spectrum params choice context = (.ok d, after)) :
    Coherent params spectrum choice d after := by
  obtain ⟨-, settled, taken, s', hchoose, hfinish, rfl⟩ := inSession_eq_ok_iff.mp hrun
  obtain ⟨hfinished, -, rfl⟩ := finish_eq_ok_iff.mp hfinish
  have hchosen := chosen hchoose
  obtain ⟨evaluated, haccounts, htaken⟩ := hchosen.accounts rfl
  obtain ⟨news, hjournal, htold⟩ := haccounts.journal_eq
  have htransition := haccounts.agrees
  refine ⟨?_, ?_, ?_, hfinished.stopbandPeak_of_presented, fun hoptimal hcount => ?_, ?_⟩
  · rw [hfinished.spectrum_eq]
    exact htransition.mono fun k hk => (Geometry.isTransition_iff_betweenBands hs.check).mp hk
  · rw [hfinished.spectrum_eq]
    exact hfinished.impulse_eq
  · rw [hfinished.spectrum_eq]
    exact hfinished.transitions_eq
  · -- The journal was empty at the start, so the line searches in it are those of this run.
    subst hoptimal
    have hsome : spectrum.numTransitions ≠ 0 := by omega
    have hminima : (hear .designFinished s').minima = s'.minima :=
      (minima_hear _ s').trans (List.append_nil _)
    rw [hminima]
    cases hchosen with
    | optimal h => exact h.peakReported hs rfl hsome hfinished.stopbandPeak_eq
  · have htrials : (hear .designFinished s').trials = news.filterMap Notice.trial? := by
      rw [trials, hear, Array.toList_push, hjournal, List.filterMap_append]
      exact List.append_nil _
    rw [htrials, ← htold.length_eq]
    exact htaken

open RationalArithmetic in
/-- An optimal design of a filter with two transition samples. -/
theorem run_coherent_rational :
    ∃ d after, run (session .unbounded).spectrum designParams .optimal .unbounded = (.ok d, after) ∧
      Coherent designParams (session .unbounded).spectrum .optimal d after := by
  obtain ⟨d, after, hrun⟩ := exists_of_isOk (show (run (session .unbounded).spectrum designParams
    .optimal .unbounded).1.isOk = true by decide +kernel)
  exact ⟨d, after, hrun, run_coherent ⟨rfl, rfl⟩ hrun⟩

end FilterDesign
end FrequencySampling
