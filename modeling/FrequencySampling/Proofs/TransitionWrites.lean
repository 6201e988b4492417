import FrequencySampling.Proofs.RationalArithmetic
import FrequencySampling.Proofs.Session.Conduct

/-!
Writing transition samples and reading them back. Three operations write them, and each of them
writes values from the first slot on, after one check; so what holds of the values that a write
carries holds of all three.
-/

namespace FrequencySampling

namespace HalfSpectrum

variable {α : Type} {s : HalfSpectrum α}

theorem setTransitions_of_length {values : List α} (h : values.length = s.numTransitions) :
    s.setTransitions values = .ok (s.writeSlots 0 values) := by
  rw [setTransitions, checked_slots_eq, if_pos h]

theorem setScalar_eq_setTransitions (hone : s.numTransitions = 1) (v : α) :
    s.setScalar v = s.setTransitions [v] := by
  have hsome : s.numTransitions ≠ 0 := by omega
  have hcount : [v].length = s.numTransitions := hone.symm
  rw [setTransitions_of_length hcount, setScalar, if_neg hsome]
  rfl

end HalfSpectrum

/-- A write to the transition samples. -/
inductive TransitionWrite (α : Type) where
  | all (values : List α)
  | onLine (line : SlotLine α) (rho : α)
  | first (value : α)

namespace TransitionWrite

variable {α : Type} [Scalar α] {s t : HalfSpectrum α} {w : TransitionWrite α}

def apply (s : HalfSpectrum α) : TransitionWrite α → Outcome α (HalfSpectrum α)
  | all values => s.setTransitions values
  | onLine line rho => s.setOnLine line rho
  | first value => s.setScalar value

/-- The values that are written, from the first slot on. -/
def values : TransitionWrite α → List α
  | all values => values
  | onLine line rho => line.values rho
  | first value => [value]

/-- Whether the half spectrum has the slots that the write asks for. -/
def Fits (s : HalfSpectrum α) : TransitionWrite α → Prop
  | all values => values.length = s.numTransitions
  | onLine line _ => line.numSlots = s.numTransitions
  | first _ => s.numTransitions ≠ 0

/-- The error of a write that does not fit. -/
def fault (s : HalfSpectrum α) : TransitionWrite α → DesignError α
  | all values => .invalidParameter (.slotCount s.geometry.band s.numTransitions values.length)
  | onLine line _ => .invalidParameter (.slotCount s.geometry.band s.numTransitions line.numSlots)
  | first _ => .invalidParameter (.noTransitionSample s.geometry.band)

/-- How a write can end. -/
inductive Applied (s : HalfSpectrum α) (w : TransitionWrite α) : Outcome α (HalfSpectrum α) → Prop
  | written (h : w.Fits s) : Applied s w (.ok (s.writeSlots 0 w.values))
  | refused (h : ¬ w.Fits s) : Applied s w (.error (w.fault s))

/-- Two of the writes count the slots that they are given. -/
theorem Applied.of_counted {given : Nat} (hfits : w.Fits s ↔ given = s.numTransitions)
    (hfault : w.fault s =
      .invalidParameter (.slotCount s.geometry.band s.numTransitions given)) :
    Applied s w (do s.checkSlotCount given; return s.writeSlots 0 w.values) := by
  rw [HalfSpectrum.checked_slots_eq, ← hfault]
  split
  · rename_i h
    exact .written (hfits.mpr h)
  · rename_i h
    exact .refused fun hw => h (hfits.mp hw)

theorem applied (s : HalfSpectrum α) (w : TransitionWrite α) : Applied s w (w.apply s) := by
  cases w with
  | all values => exact .of_counted Iff.rfl rfl
  | onLine line rho => exact .of_counted Iff.rfl rfl
  | first value =>
      rw [apply, HalfSpectrum.setScalar]
      split
      · rename_i h
        exact .refused fun hfits => hfits h
      · rename_i h
        exact .written h

theorem isOk_apply_iff : (w.apply s).isOk ↔ w.Fits s := by
  have hcases := applied s w
  generalize w.apply s = o at hcases
  cases hcases with
  | written h => exact iff_of_true rfl h
  | refused h => exact iff_of_false Bool.false_ne_true h

theorem Fits.length_values_le (h : w.Fits s) : w.values.length ≤ s.numTransitions := by
  cases w with
  | all values => exact Nat.le_of_eq h
  | onLine line rho =>
      rw [values, SlotLine.length_values]
      exact Nat.le_of_eq h
  | first value => exact Nat.one_le_iff_ne_zero.mpr h

theorem error_of_apply {e : DesignError α} (h : w.apply s = .error e) :
    ¬ w.Fits s ∧ e = w.fault s := by
  have hcases := applied s w
  rw [h] at hcases
  cases hcases with
  | refused hfits => exact ⟨hfits, rfl⟩

/-- A write that succeeds leaves a half spectrum that holds its values. -/
theorem holds_of_apply (hs : s.WellFormed) (h : w.apply s = .ok t) :
    w.Fits s ∧ s.Holds w.values t := by
  have hcases := applied s w
  rw [h] at hcases
  cases hcases with
  | written hfits => exact ⟨hfits, HalfSpectrum.holds_writeSlots hs hfits.length_values_le⟩

end TransitionWrite

/-- A write that is refused leaves the session as it is. -/
theorem Session.amend_of_error {α : Type}
    {change : HalfSpectrum α → Outcome α (HalfSpectrum α)} {session session' : Session α}
    {e : DesignError α} (h : amend change session = (.error e, session')) :
    session' = session := by
  rw [amend_eq] at h
  split at h <;> cases h
  rfl

namespace HalfSpectrum

variable {α : Type} [Scalar α] {s : HalfSpectrum α}

/-- What is written to the transition samples is what is read, nothing else changes, and the three
ways of writing agree. -/
structure WritesAgree (s : HalfSpectrum α) : Prop where
  all_isOk_iff : ∀ values, (s.setTransitions values).isOk ↔ values.length = s.numTransitions
  all_written : ∀ values t, s.setTransitions values = .ok t →
    t.transitionValues = values ∧ s.AgreesOff s.geometry.BetweenBands t ∧
      ∀ slot v, values[slot]? = some v → ∀ k, s.geometry.Touches slot k → t.sample? k = some v
  onLine_eq : ∀ line rho values, (∀ slot, values[slot]? = line.value? slot rho) →
    s.setOnLine line rho = s.setTransitions values
  first_isOk_iff : ∀ v, (s.setScalar v).isOk ↔ s.numTransitions ≠ 0
  first_eq : s.numTransitions = 1 → ∀ v, s.setScalar v = s.setTransitions [v]
  first_written : ∀ v t, s.setScalar v = .ok t →
    t.transitionValues = v :: s.transitionValues.tail ∧ s.AgreesOff (s.geometry.Touches 0) t ∧
      ∀ k, s.geometry.Touches 0 k → t.sample? k = some v
  refused : ∀ (w : TransitionWrite α) (session session' : Session α) e, session.spectrum = s →
    Session.amend (w.apply ·) session = (.error e, session') → session' = session

/-- A write to all slots changes what lies between the bands. -/
theorem all_written_of_eq_ok (hs : s.WellFormed) {values : List α} {t : HalfSpectrum α}
    (h : s.setTransitions values = .ok t) :
    t.transitionValues = values ∧ s.AgreesOff s.geometry.BetweenBands t ∧
      ∀ slot v, values[slot]? = some v → ∀ k, s.geometry.Touches slot k → t.sample? k = some v := by
  obtain ⟨hcount, hholds⟩ := TransitionWrite.holds_of_apply (w := .all values) hs h
  change values.length = s.numTransitions at hcount
  refine ⟨?_, hholds.agrees.mono fun k hk => ?_, hholds.written⟩
  · rw [hholds.transitionValues_eq hs (Nat.le_of_eq hcount)]
    rw [List.drop_eq_nil_of_le, List.append_nil]
    rw [length_transitionValues, hcount]
  · obtain ⟨slot, hslot, htouch⟩ := hk
    exact (Geometry.isTransition_iff_betweenBands hs.check).mp
      ⟨slot, Nat.lt_of_lt_of_eq hslot hcount, htouch⟩

/-- A write to the first slot changes that one and its image. -/
theorem first_written_of_eq_ok (hs : s.WellFormed) {v : α} {t : HalfSpectrum α}
    (h : s.setScalar v = .ok t) :
    t.transitionValues = v :: s.transitionValues.tail ∧ s.AgreesOff (s.geometry.Touches 0) t ∧
      ∀ k, s.geometry.Touches 0 k → t.sample? k = some v := by
  obtain ⟨hsome, hholds⟩ := TransitionWrite.holds_of_apply (w := .first v) hs h
  refine ⟨?_, hholds.agrees.mono fun k hk => ?_, fun k => hholds.written 0 v rfl k⟩
  · rw [hholds.transitionValues_eq hs (TransitionWrite.Fits.length_values_le hsome),
      ← List.drop_one]
    rfl
  · obtain ⟨slot, hslot, htouch⟩ := hk
    obtain rfl : slot = 0 := Nat.lt_one_iff.mp hslot
    exact htouch

theorem setOnLine_eq_setTransitions (line : SlotLine α) (rho : α) {values : List α}
    (h : ∀ slot, values[slot]? = line.value? slot rho) :
    s.setOnLine line rho = s.setTransitions values := by
  obtain rfl : values = line.values rho := by
    refine List.ext_getElem? fun slot => ?_
    rw [h, SlotLine.values, List.getElem?_map, SlotLine.value?]
  rw [setOnLine, setTransitions, SlotLine.length_values]

/-- In every half spectrum that a filter can be designed for, whatever its samples, writes and reads
of the transition samples agree. -/
theorem transition_writes_agree (hs : s.WellFormed) : s.WritesAgree where
  all_isOk_iff values := TransitionWrite.isOk_apply_iff (w := .all values)
  all_written _ _ h := all_written_of_eq_ok hs h
  onLine_eq line rho _ h := setOnLine_eq_setTransitions line rho h
  first_isOk_iff v := TransitionWrite.isOk_apply_iff (w := .first v)
  first_eq hone v := setScalar_eq_setTransitions hone v
  first_written _ _ h := first_written_of_eq_ok hs h
  refused _ _ _ _ _ h := Session.amend_of_error h

/-- A band-stop filter with two transition samples on either side of its stopband. -/
theorem transition_writes_agree_rational :
    let g : Geometry := ⟨21, .bandstop, .typeI, .fourBand 1 4 5 8⟩
    let s : HalfSpectrum ℚ := ⟨g, bandLevels g⟩
    s.WellFormed ∧ ∃ t, s.setTransitions [mkRat 1 2, mkRat 1 4] = .ok t ∧
      t.transitionValues = [mkRat 1 2, mkRat 1 4] ∧ s.AgreesOff s.geometry.BetweenBands t ∧
      t.sample? 3 = some (mkRat 1 2) ∧ t.sample? 6 = some (mkRat 1 2) := by
  have hcheck : (⟨21, .bandstop, .typeI, .fourBand 1 4 5 8⟩ : Geometry).check =
      (.ok () : Outcome ℚ Unit) := by rfl
  intro g s
  have hs : s.WellFormed := ⟨hcheck, by decide⟩
  have hagree : s.WritesAgree := transition_writes_agree hs
  have hcount : [mkRat 1 2, mkRat 1 4].length = s.numTransitions := by decide
  obtain ⟨t, ht⟩ : ∃ t, s.setTransitions [mkRat 1 2, mkRat 1 4] = .ok t :=
    ⟨_, setTransitions_of_length hcount⟩
  obtain ⟨hread, hkept, hwritten⟩ := hagree.all_written _ t ht
  exact ⟨hs, t, ht, hread, hkept, hwritten 0 _ rfl 3 (by decide), hwritten 0 _ rfl 6 (by decide)⟩

end HalfSpectrum
end FrequencySampling
