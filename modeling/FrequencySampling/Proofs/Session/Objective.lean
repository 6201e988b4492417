import FrequencySampling.Proofs.DoubleOrder
import FrequencySampling.Proofs.RationalArithmetic
import FrequencySampling.Proofs.Session.Attempt
import FrequencySampling.Proofs.StopbandLevel

/-!
What the searches hear. An evaluation that ends well gives the largest normalized magnitude at the
stopband's indices, provided that one of these magnitudes is above the floor, and the floor itself
otherwise. That a response is degenerate is reported of an empty stopband and of a silent linear
response. A decibel response that is no number, or minus infinity throughout, is not reported, and
counts as a peak far below any other.
-/

namespace FrequencySampling

variable {α : Type} [Scalar α]

namespace ResponseGrid

open MagnitudeResponse (peakFloor)

/-- The stopband peak of a half spectrum, against the response that it was read from. It is one of
the response's values exactly if one of them reaches the floor. -/
def ReadFrom (grid : ResponseGrid) (s : HalfSpectrum α) (v : α) : Prop :=
  ∃ r, grid.judged s = .ok r ∧
    Highest peakFloor (r.TakenIn (s.geometry.stopband grid.points)) v ∧
    (r.TakenIn (s.geometry.stopband grid.points) v ↔
      r.TakenIn (s.geometry.stopband grid.points) peakFloor ∨
        ∃ w, r.TakenIn (s.geometry.stopband grid.points) w ∧ peakFloor < w)

theorem stopbandLevel_readFrom [Scalar.OrdersNumbers α] {grid : ResponseGrid} {s : HalfSpectrum α}
    {v : α} (h : grid.stopbandLevel s = .ok v) : grid.ReadFrom s v := by
  by_cases hsees : grid.SeesNothing s
  · rw [stopbandLevel_of_seesNothing hsees] at h
    cases h
  · rw [stopbandLevel_of_sees hsees] at h
    cases hr : grid.judged s with
    | error e =>
        rw [hr] at h
        cases h
    | ok r =>
        rw [hr] at h
        cases h
        have hhighest := r.highest_peakOver (s.geometry.stopband grid.points)
        exact ⟨r, hr, hhighest, hhighest.taken_iff⟩

theorem stopbandLevel_degenerate_iff (grid : ResponseGrid) (s : HalfSpectrum α) :
    (∃ fault, grid.stopbandLevel s = .error (.degenerateResponse fault)) ↔
      grid.SeesNothing s ∨ grid.Silent s := by
  by_cases hsees : grid.SeesNothing s
  · exact ⟨fun _ => .inl hsees, fun _ => ⟨_, stopbandLevel_of_seesNothing hsees⟩⟩
  · rw [stopbandLevel_of_sees hsees, or_iff_right hsees]
    have hcases := judgement grid s
    generalize grid.judged s = o at hcases
    cases hcases with
    | silent h => exact ⟨fun _ => h, fun _ => ⟨_, rfl⟩⟩
    | parity _ hsounds | noPoint _ hsounds | given hsounds =>
        refine ⟨fun hfault => ?_, fun h => absurd h hsounds⟩
        obtain ⟨fault, hfault⟩ := hfault
        cases hfault

/-- Whatever the samples are, a grid in decibels gives a peak if it sees the stopband at all. -/
theorem exists_stopbandLevel_decibel {grid : ResponseGrid} {s : HalfSpectrum α} (hs : s.WellFormed)
    (hpoints : grid.points ≠ 0) (hscale : grid.scale = .decibel) (hsees : ¬ grid.SeesNothing s) :
    ∃ v, grid.stopbandLevel s = .ok v := by
  rw [stopbandLevel_of_sees hsees]
  have hcases := judgement grid s
  generalize grid.judged s = o at hcases
  cases hcases with
  | parity h =>
      rw [Geometry.admits_of_check hs.check] at h
      cases h
  | noPoint h => exact absurd h hpoints
  | silent h => exact nomatch hscale.symm.trans h.scale_eq
  | given => exact ⟨_, rfl⟩

end ResponseGrid

namespace Session

theorem attempt_measured {change : HalfSpectrum α → Outcome α (HalfSpectrum α)} {x v : α}
    {s s' : Session α} (h : attempt change x s = (.ok v, s')) :
    Scalar.isFinite v = true ∧ s'.grid.stopbandLevel s'.spectrum = .ok v := by
  have hcases := attempted change x s
  rw [h] at hcases
  cases hcases with
  | made _ _ _ hlevel hfinite => exact ⟨hfinite, hlevel⟩

/-- Every objective is read from the response at a half spectrum, and this is what is reported of a
half spectrum whose response has no peak. -/
theorem objective_readFrom_response [Scalar.OrdersNumbers α] :
    (∀ (grid : ResponseGrid) (s : HalfSpectrum α) (v : α),
      grid.stopbandLevel s = .ok v → grid.ReadFrom s v) ∧
    (∀ (x v : α) (s s' : Session α), tryScalar x s = (.ok v, s') →
      Scalar.isFinite v = true ∧ s'.grid.ReadFrom s'.spectrum v) ∧
    (∀ (p : LinePoint α) (v : α) (s s' : Session α), tryLine p s = (.ok v, s') →
      Scalar.isFinite v = true ∧ s'.grid.ReadFrom s'.spectrum v) ∧
    (∀ (grid : ResponseGrid) (s : HalfSpectrum α),
      (∃ fault, grid.stopbandLevel s = .error (.degenerateResponse fault)) ↔
        grid.SeesNothing s ∨ grid.Silent s) ∧
    ∀ (grid : ResponseGrid) (s : HalfSpectrum α), s.WellFormed → grid.points ≠ 0 →
      grid.scale = .decibel → ¬ grid.SeesNothing s → ∃ v, grid.stopbandLevel s = .ok v := by
  refine ⟨fun grid s v h => ?_, fun x v s s' h => ?_, fun p v s s' h => ?_, ?_,
    fun grid s => ResponseGrid.exists_stopbandLevel_decibel⟩
  · exact ResponseGrid.stopbandLevel_readFrom h
  · obtain ⟨hfinite, hlevel⟩ := attempt_measured h
    exact ⟨hfinite, ResponseGrid.stopbandLevel_readFrom hlevel⟩
  · obtain ⟨hfinite, hlevel⟩ := attempt_measured h
    exact ⟨hfinite, ResponseGrid.stopbandLevel_readFrom hlevel⟩
  · exact ResponseGrid.stopbandLevel_degenerate_iff

open RationalArithmetic in
/-- An evaluation that gives a number. -/
theorem objective_readFrom_response_rational :
    ∃ v s', tryLine ⟨PlaneSearch.overX ⟨1, 0⟩, mkRat 1 2⟩ (session .unbounded) = (.ok v, s') ∧
      s'.grid.ReadFrom s'.spectrum v := by
  have hok : (tryLine ⟨PlaneSearch.overX ⟨1, 0⟩, mkRat 1 2⟩
      (session .unbounded)).1.isOk = true := by
    decide +kernel
  cases hrun : tryLine ⟨PlaneSearch.overX ⟨1, 0⟩, mkRat 1 2⟩ (session .unbounded) with
  | mk r s' =>
      cases r with
      | error e =>
          rw [hrun] at hok
          cases hok
      | ok v =>
          obtain ⟨-, hread⟩ := objective_readFrom_response.2.2.1 _ v _ s' hrun
          exact ⟨v, s', rfl, hread⟩

end Session

/-- Double precision whose circular functions and logarithm are crude stand-ins that the kernel can
evaluate. The logarithm is still minus infinity at zero, and no number where its argument is
none. -/
def CrudeDouble : Type :=
  Float

namespace CrudeDouble

def cosine (x : Float) : Float :=
  1 - x * x / 2

def logarithm (x : Float) : Float :=
  1 - 1 / x

instance : Scalar CrudeDouble :=
  show Scalar Float from { (inferInstance : Scalar Float) with
    sin := id
    cos := cosine
    log10 := logarithm }

instance : DecidableEq CrudeDouble :=
  inferInstanceAs (DecidableEq Float)

def geometry : Geometry :=
  ⟨8, .lowpass, .typeII, .twoBand 0 2⟩

/-- A low-pass filter of eight taps with one transition sample, all samples at one level. -/
def constant (level : CrudeDouble) : HalfSpectrum CrudeDouble :=
  ⟨geometry, #[level, level, level, level, level]⟩

theorem wellFormed_constant (level : CrudeDouble) : (constant level).WellFormed where
  check := show geometry.check = .ok () from rfl
  size_eq := show 5 = geometry.numSamples from rfl

def grid : ResponseGrid :=
  ⟨4, .decibel, .amplitude⟩

/-- The response at a level is finite nowhere, and yet the stopband peak, in an evaluation too, is
the floor, which is none of its values. -/
structure JudgedByFloor (level : CrudeDouble) : Prop where
  wellFormed : (constant level).WellFormed
  unread : ∃ r, (grid.judged (constant level)).toOption = some r ∧
    (∀ v ∈ r.values, Scalar.isFinite v = false) ∧
    ¬ r.TakenIn ((constant level).geometry.stopband grid.points) MagnitudeResponse.peakFloor
  peak_eq : (grid.stopbandLevel (constant level)).toOption = some MagnitudeResponse.peakFloor
  tried_eq : (Session.tryScalar level (.start (constant level) grid .unbounded)).1.toOption =
    some MagnitudeResponse.peakFloor

theorem unread_of_not_finite {level : CrudeDouble}
    (h : (grid.judged (constant level)).toOption.map
      (fun r => r.values.all fun v => !Scalar.isFinite v) = some true) :
    ∃ r, (grid.judged (constant level)).toOption = some r ∧
      (∀ v ∈ r.values, Scalar.isFinite v = false) ∧
      ¬ r.TakenIn ((constant level).geometry.stopband grid.points) MagnitudeResponse.peakFloor := by
  obtain ⟨r, hr, hall⟩ := Option.map_eq_some_iff.mp h
  have hvalues : ∀ v ∈ r.values, Scalar.isFinite v = false := by
    intro v hv
    simpa using Array.all_eq_true_iff_forall_mem.mp hall v hv
  refine ⟨r, hr, hvalues, ?_⟩
  rintro ⟨range, -, k, -, -, hk⟩
  have hfinite : Scalar.isFinite (MagnitudeResponse.peakFloor : CrudeDouble) = true := by
    decide +kernel
  rw [hvalues _ (Array.mem_of_getElem? hk)] at hfinite
  cases hfinite

/-- The response to samples that are no numbers has no number in it, and the response to zeros is
minus infinity throughout. -/
theorem no_response_judged_by_floor : JudgedByFloor (0 / 0) ∧ JudgedByFloor 0 := by
  constructor
  · exact ⟨wellFormed_constant _, unread_of_not_finite (by decide +kernel), by decide +kernel,
      by decide +kernel⟩
  · exact ⟨wellFormed_constant _, unread_of_not_finite (by decide +kernel), by decide +kernel,
      by decide +kernel⟩

end CrudeDouble
end FrequencySampling
