import FrequencySampling.Proofs.FiniteOrder
import FrequencySampling.Proofs.Transition
import FrequencySampling.MagnitudeResponse.Stopband
import Mathlib.Data.List.Basic

/-!
Where the stopband peak comes from. It is the largest of the normalized magnitudes at the stopband's
indices, provided that one of them lies above the floor at which the comparison starts. Where none
does, as in a response that is no number or silent in decibels, the peak is the floor itself, and
nothing tells it from a magnitude.
-/

namespace FrequencySampling

variable {α : Type}

namespace MagnitudeResponse

/-- The value stands at an index of the ranges. -/
def TakenIn (r : MagnitudeResponse α) (ranges : List IndexRange) (v : α) : Prop :=
  ∃ range ∈ ranges, ∃ k, range.start ≤ k ∧ k < range.stop ∧ r.values[k]? = some v

theorem takenIn_cons (r : MagnitudeResponse α) (range : IndexRange) (ranges : List IndexRange)
    (v : α) : r.TakenIn (range :: ranges) v ↔ r.TakenIn [range] v ∨ r.TakenIn ranges v := by
  simp only [TakenIn, List.exists_mem_cons_iff, List.not_mem_nil, false_and, exists_false, or_false]

/-- The values in a range that is cut to the response. -/
theorem takenIn_singleton (r : MagnitudeResponse α) (range : IndexRange) (v : α) :
    r.TakenIn [range] v ↔ v ∈ (r.values.extract (min range.start (min range.stop r.size))
      (min range.stop r.size)).toList := by
  rw [Array.mem_toList_iff, Array.mem_iff_getElem?]
  simp only [TakenIn, List.mem_singleton, exists_eq_left, Array.getElem?_extract, size]
  constructor
  · rintro ⟨k, hstart, hstop, hv⟩
    obtain ⟨hsize, -⟩ := Array.getElem?_eq_some_iff.mp hv
    refine ⟨k - range.start, ?_⟩
    rw [if_pos (by omega), show min range.start (min range.stop r.values.size) +
      (k - range.start) = k by omega]
    exact hv
  · rintro ⟨i, hi⟩
    split at hi
    · exact ⟨range.start + i, by omega, by omega, by
        rw [show range.start + i = min range.start (min range.stop r.values.size) + i by omega]
        exact hi⟩
    · cases hi

end MagnitudeResponse

variable [Scalar α]

/-- The highest of some values over a floor, which it is itself where none of them is above. -/
inductive Highest (floor : α) (taken : α → Prop) : α → Prop
  | taken {v} (htaken : taken v) (habove : floor < v) (hgreatest : ∀ w, taken w → ¬ v < w) :
      Highest floor taken v
  | floor (hnone : ∀ w, taken w → ¬ floor < w) : Highest floor taken floor

namespace Highest

variable {floor v w x : α} {taken taken' : α → Prop}

theorem congr (h : Highest floor taken v) (htaken : ∀ w, taken w ↔ taken' w) :
    Highest floor taken' v := by
  cases h with
  | taken hv habove hgreatest =>
      exact .taken ((htaken v).mp hv) habove fun w hw => hgreatest w ((htaken w).mpr hw)
  | floor hnone => exact .floor fun w hw => hnone w ((htaken w).mpr hw)

theorem greatest (h : Highest floor taken v) : ∀ w, taken w → ¬ v < w := by
  cases h with
  | taken _ _ hgreatest => exact hgreatest
  | floor hnone => exact hnone

theorem taken_iff (h : Highest floor taken v) :
    taken v ↔ taken floor ∨ ∃ w, taken w ∧ floor < w := by
  cases h with
  | taken hv habove _ => exact ⟨fun _ => .inr ⟨v, hv, habove⟩, fun _ => hv⟩
  | floor hnone =>
      refine ⟨.inl, fun h => ?_⟩
      obtain hfloor | ⟨w, hw, habove⟩ := h
      · exact hfloor
      · exact absurd habove (hnone w hw)

variable [Scalar.OrdersNumbers α]

/-- One more value. -/
theorem insert (h : Highest floor taken v) (x : α) :
    Highest floor (fun w => taken w ∨ w = x) (if v < x then x else v) := by
  by_cases hlt : v < x
  · rw [if_pos hlt]
    have habove : floor < x := by
      cases h with
      | taken _ habove _ => exact Scalar.OrdersNumbers.lt_trans habove hlt
      | floor => exact hlt
    refine .taken (.inr rfl) habove fun w hw => ?_
    rcases hw with hw | rfl
    · exact fun hxw => h.greatest w hw (Scalar.OrdersNumbers.lt_trans hlt hxw)
    · exact Scalar.OrdersNumbers.lt_irrefl w
  · rw [if_neg hlt]
    cases h with
    | taken hv habove hgreatest =>
        refine .taken (.inl hv) habove fun w hw => ?_
        rcases hw with hw | rfl
        · exact hgreatest w hw
        · exact hlt
    | floor hnone =>
        refine .floor fun w hw => ?_
        rcases hw with hw | rfl
        · exact hnone w hw
        · exact hlt

/-- The values of both, of which the larger is the highest. -/
theorem union (h : Highest floor taken v) (h' : Highest floor taken' w) :
    Highest floor (fun x => taken x ∨ taken' x) (Scalar.larger v w) := by
  cases h with
  | taken hv hvabove hvgreatest =>
      obtain ⟨-, hvnumber⟩ := Scalar.OrdersNumbers.isNaN_of_lt hvabove
      cases h' with
      | taken hw hwabove hwgreatest =>
          obtain ⟨-, hwnumber⟩ := Scalar.OrdersNumbers.isNaN_of_lt hwabove
          by_cases hlt : w < v
          · rw [Scalar.larger, if_pos hlt]
            refine .taken (.inl hv) hvabove fun x hx => hx.elim (hvgreatest x) fun hx hvx => ?_
            exact hwgreatest x hx (Scalar.OrdersNumbers.lt_trans hlt hvx)
          · rw [Scalar.larger, if_neg hlt, hwnumber]
            refine .taken (.inr hw) hwabove fun x hx => hx.elim (fun hx hwx => ?_) (hwgreatest x)
            rcases Scalar.OrdersNumbers.lt_or_lt hvnumber hwx with hwv | hvx
            · exact hlt hwv
            · exact hvgreatest x hx hvx
      | floor hnone =>
          rw [Scalar.larger, if_pos hvabove]
          refine .taken (.inl hv) hvabove fun x hx => hx.elim (hvgreatest x) fun hx hvx => ?_
          exact hnone x hx (Scalar.OrdersNumbers.lt_trans hvabove hvx)
  | floor hnone =>
      cases h' with
      | taken hw hwabove hwgreatest =>
          obtain ⟨-, hwnumber⟩ := Scalar.OrdersNumbers.isNaN_of_lt hwabove
          rw [Scalar.larger, if_neg (Scalar.OrdersNumbers.lt_asymm hwabove), hwnumber]
          refine .taken (.inr hw) hwabove fun x hx => hx.elim (fun hx hwx => ?_) (hwgreatest x)
          exact hnone x hx (Scalar.OrdersNumbers.lt_trans hwabove hwx)
      | floor hnone' =>
          rw [Scalar.larger, ite_self, ite_self]
          exact .floor fun x hx => hx.elim (hnone x) (hnone' x)

theorem foldl_insert (h : Highest floor taken v) (xs : List α) :
    Highest floor (fun w => taken w ∨ w ∈ xs) (xs.foldl (fun v x => if v < x then x else v) v) := by
  induction xs generalizing v taken with
  | nil => exact h.congr fun w => by simp
  | cons x xs ih =>
      rw [List.foldl_cons]
      refine (ih (h.insert x)).congr fun w => ?_
      rw [List.mem_cons, or_assoc]

end Highest

namespace MagnitudeResponse

/-- No magnitude of a linear response is above zero. -/
structure Silent (r : MagnitudeResponse α) : Prop where
  scale_eq : r.scale = .linear
  reference_le : Scalar.largestFrom 0 r.values ≤ 0

theorem normalize_cases (r : MagnitudeResponse α) :
    (¬ r.Silent ∧ ∃ normalized, r.normalize = .ok normalized) ∨
      r.Silent ∧ r.normalize = .error (.degenerateResponse .silentResponse) := by
  rw [normalize]
  cases hscale : r.scale with
  | decibel =>
      refine .inl ⟨fun h => ?_, _, rfl⟩
      cases hscale.symm.trans h.scale_eq
  | linear =>
      by_cases hsilent : Scalar.largestFrom 0 r.values ≤ 0
      · exact .inr ⟨⟨hscale, hsilent⟩, if_pos hsilent⟩
      · exact .inl ⟨fun h => hsilent h.reference_le, _, if_neg hsilent⟩

variable [Scalar.OrdersNumbers α] (r : MagnitudeResponse α)

theorem highest_peakWithin (range : IndexRange) :
    Highest peakFloor (r.TakenIn [range]) (r.peakWithin range) := by
  have hnone : Highest (peakFloor : α) (fun _ => False) peakFloor := .floor fun _ h => h.elim
  rw [peakWithin, ← Array.foldl_toList]
  refine (hnone.foldl_insert _).congr fun v => ?_
  rw [false_or, takenIn_singleton]

theorem highest_peakOver (ranges : List IndexRange) :
    Highest peakFloor (r.TakenIn ranges) (r.peakOver ranges) := by
  have hfold : ∀ {taken v}, Highest (peakFloor : α) taken v →
      Highest peakFloor (fun w => taken w ∨ r.TakenIn ranges w)
        ((ranges.map r.peakWithin).foldl Scalar.larger v) := by
    induction ranges with
    | nil => exact fun h => h.congr fun w => by simp [TakenIn]
    | cons range ranges ih =>
        intro taken v h
        refine (ih (h.union (r.highest_peakWithin range))).congr fun w => ?_
        rw [takenIn_cons r range ranges, or_assoc]
  have hnone : Highest (peakFloor : α) (fun _ => False) peakFloor := .floor fun _ h => h.elim
  exact (hfold hnone).congr fun w => by rw [false_or]

end MagnitudeResponse

namespace ResponseGrid

/-- The normalized response in which the stopband peak is looked for. -/
def judged (grid : ResponseGrid) (s : HalfSpectrum α) : Outcome α (MagnitudeResponse α) := do
  let h ← ImpulseResponse.ofSpectrum s
  let response ← grid.measure h
  response.normalize

/-- No response point lies in the stopband. -/
def SeesNothing (grid : ResponseGrid) (s : HalfSpectrum α) : Prop :=
  ∀ range ∈ s.geometry.stopband grid.points, range.isEmpty = true

theorem stopbandLevel_of_seesNothing {grid : ResponseGrid} {s : HalfSpectrum α}
    (h : grid.SeesNothing s) : grid.stopbandLevel s = .error (.degenerateResponse
      (.emptyStopband s.geometry.band s.geometry.edges grid.points)) := by
  have hall : (s.geometry.stopband grid.points).all (·.isEmpty) = true := List.all_eq_true.mpr h
  rw [stopbandLevel]
  dsimp only
  rw [if_pos hall]
  rfl

theorem stopbandLevel_of_sees {grid : ResponseGrid} {s : HalfSpectrum α}
    (h : ¬ grid.SeesNothing s) : grid.stopbandLevel s =
      (grid.judged s).map (·.peakOver (s.geometry.stopband grid.points)) := by
  have hall : ¬ (s.geometry.stopband grid.points).all (·.isEmpty) = true :=
    fun hall => h (List.all_eq_true.mp hall)
  rw [stopbandLevel]
  dsimp only
  rw [if_neg hall, judged]
  cases ImpulseResponse.ofSpectrum s with
  | error e => rfl
  | ok h =>
      dsimp only [bind, Except.bind]
      cases grid.measure h with
      | error e => rfl
      | ok response =>
          dsimp only
          cases response.normalize <;> rfl

/-- The response measured of a half spectrum is silent. -/
def Silent (grid : ResponseGrid) (s : HalfSpectrum α) : Prop :=
  ∃ h response, ImpulseResponse.ofSpectrum s = .ok h ∧ grid.measure h = .ok response ∧
    response.Silent

theorem ofSpectrum_cases (s : HalfSpectrum α) :
    (∃ h, ImpulseResponse.ofSpectrum s = .ok h) ∨
      s.geometry.phase.admits s.geometry.numTaps = false ∧ ImpulseResponse.ofSpectrum s =
        .error (.parityMismatch s.geometry.phase s.geometry.numTaps) := by
  rw [ImpulseResponse.ofSpectrum, LinearPhase.check]
  cases s.geometry.phase.admits s.geometry.numTaps with
  | true => exact .inl ⟨_, rfl⟩
  | false => exact .inr ⟨rfl, rfl⟩

theorem measure_cases (grid : ResponseGrid) (h : ImpulseResponse α) :
    (∃ response, grid.measure h = .ok response ∧ response.scale = grid.scale) ∨
      grid.points = 0 ∧ grid.measure h = .error (.invalidParameter .noResponsePoint) := by
  rw [measure]
  by_cases hp : grid.points = 0
  · rw [if_pos hp]
    exact .inr ⟨hp, rfl⟩
  · rw [if_neg hp]
    exact .inl ⟨_, rfl, rfl⟩

theorem Silent.scale_eq {grid : ResponseGrid} {s : HalfSpectrum α} (h : grid.Silent s) :
    grid.scale = .linear := by
  obtain ⟨h, response, -, hm, hscale, -⟩ := h
  obtain ⟨response', hm', hscale'⟩ | ⟨-, hm'⟩ := measure_cases grid h
  · cases hm.symm.trans hm'
    exact hscale'.symm.trans hscale
  · cases hm.symm.trans hm'

/-- How judging a half spectrum can end. -/
inductive Judgement (grid : ResponseGrid) (s : HalfSpectrum α) :
    Outcome α (MagnitudeResponse α) → Prop
  | parity (h : s.geometry.phase.admits s.geometry.numTaps = false) (hsounds : ¬ grid.Silent s) :
      Judgement grid s (.error (.parityMismatch s.geometry.phase s.geometry.numTaps))
  | noPoint (h : grid.points = 0) (hsounds : ¬ grid.Silent s) :
      Judgement grid s (.error (.invalidParameter .noResponsePoint))
  | silent (h : grid.Silent s) :
      Judgement grid s (.error (.degenerateResponse .silentResponse))
  | given {r} (hsounds : ¬ grid.Silent s) : Judgement grid s (.ok r)

theorem judgement (grid : ResponseGrid) (s : HalfSpectrum α) :
    Judgement grid s (grid.judged s) := by
  rw [judged]
  obtain ⟨h, hh⟩ | ⟨hparity, hh⟩ := ofSpectrum_cases s
  · rw [hh]
    dsimp only [bind, Except.bind]
    obtain ⟨response, hm, -⟩ | ⟨hp, hm⟩ := measure_cases grid h
    · rw [hm]
      dsimp only
      obtain ⟨hsounds, r, hn⟩ | ⟨hsilent, hn⟩ := response.normalize_cases
      · rw [hn]
        refine .given ?_
        rintro ⟨h', response', hh', hm', hsilent⟩
        cases hh.symm.trans hh'
        cases hm.symm.trans hm'
        exact hsounds hsilent
      · rw [hn]
        exact .silent ⟨h, response, hh, hm, hsilent⟩
    · rw [hm]
      refine .noPoint hp ?_
      rintro ⟨h', response, hh', hm', -⟩
      cases hh.symm.trans hh'
      cases hm.symm.trans hm'
  · rw [hh]
    refine .parity hparity ?_
    rintro ⟨h', -, hh', -⟩
    cases hh.symm.trans hh'

/-- The errors of a half spectrum whose stopband level cannot be told. -/
inductive Untold : DesignError α → Prop
  | emptyStopband (band edges points) :
      Untold (.degenerateResponse (.emptyStopband band edges points))
  | parity (phase taps) : Untold (.parityMismatch phase taps)
  | noPoint : Untold (.invalidParameter .noResponsePoint)
  | silent : Untold (.degenerateResponse .silentResponse)

theorem untold_of_stopbandLevel {grid : ResponseGrid} {s : HalfSpectrum α} {e : DesignError α}
    (h : grid.stopbandLevel s = .error e) : Untold e := by
  by_cases hsees : grid.SeesNothing s
  · rw [stopbandLevel_of_seesNothing hsees] at h
    cases h
    exact .emptyStopband _ _ _
  · rw [stopbandLevel_of_sees hsees] at h
    have hcases := judgement grid s
    generalize grid.judged s = o at hcases h
    cases hcases with
    | parity =>
        cases h
        exact .parity _ _
    | noPoint =>
        cases h
        exact .noPoint
    | silent =>
        cases h
        exact .silent
    | given => cases h

end ResponseGrid
end FrequencySampling
