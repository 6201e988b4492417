import FrequencySampling.MagnitudeResponse.Basic
import FrequencySampling.Proofs.ExactArithmetic
import Mathlib.Order.Bounds.Basic

/-!
Normalization in exact arithmetic. A response is set in relation to its peak, and once it is, there
is nothing left to do. The decibel reference however never falls below a floor: a response that is
lower everywhere ends below its level, and moves again when it is normalized again.
-/

namespace FrequencySampling

/-- The values before an index. -/
def firstValues (values : Array ℝ) (n : ℕ) : Set ℝ :=
  {v | ∃ k < n, values[k]? = some v}

theorem firstValues_zero (values : Array ℝ) : firstValues values 0 = ∅ := by
  simp [firstValues]

theorem firstValues_succ {values : Array ℝ} (i : Fin values.size) :
    firstValues values (i + 1) = insert values[i] (firstValues values i) := by
  ext v
  simp only [firstValues, Set.mem_ofPred_eq, Set.mem_insert_iff, Nat.lt_succ_iff_lt_or_eq,
    or_and_right, exists_or, exists_eq_left]
  rw [or_comm, Array.getElem?_eq_getElem i.isLt, Option.some_inj]
  exact or_congr_left eq_comm

theorem firstValues_size (values : Array ℝ) :
    firstValues values values.size = {v | v ∈ values} := by
  ext v
  rw [Set.mem_ofPred_eq, Array.mem_iff_getElem?]
  refine exists_congr fun k => and_iff_right_of_imp fun hk => ?_
  exact (Array.getElem?_eq_some_iff.mp hk).1

theorem Scalar.isGreatest_largestFrom (floor : ℝ) (values : Array ℝ) :
    IsGreatest (insert floor {v | v ∈ values}) (largestFrom floor values) := by
  rw [← firstValues_size]
  refine Array.foldl_induction
    (motive := fun i best => IsGreatest (insert floor (firstValues values i)) best) ?_ ?_
  · simp [firstValues_zero]
  · intro i best h
    rw [firstValues_succ, Set.insert_comm, larger_real, max_comm]
    exact h.insert _

/-- The floor does not show if a value reaches it. -/
theorem isGreatest_of_reaches {floor top : ℝ} {values : Set ℝ}
    (h : IsGreatest (insert floor values) top) (hreach : ∃ v ∈ values, floor ≤ v) :
    IsGreatest values top := by
  obtain ⟨hmem, hupper⟩ := h
  obtain ⟨v, hv, hle⟩ := hreach
  refine ⟨?_, fun w hw => hupper (.inr hw)⟩
  rcases hmem with rfl | hmem
  · rwa [le_antisymm hle (hupper (.inr hv))]
  · exact hmem

namespace MagnitudeScale

variable {α : Type} [Scalar α]

/-- The level that the peak of a response is normalized to. -/
def peakLevel : MagnitudeScale → α
  | .linear => 1
  | .decibel => 0

/-- How one sample stands to another: as a ratio, or as a difference. -/
def relation : MagnitudeScale → α → α → α
  | .linear => (· / ·)
  | .decibel => (· - ·)

/-- A sample may serve as the reference of a response. -/
def Refers (scale : MagnitudeScale) (reference : α) : Prop :=
  scale = .linear → 0 < reference

section Exact

variable {scale : MagnitudeScale} {reference : ℝ}

theorem relation_self (h : scale.Refers reference) :
    scale.relation reference reference = scale.peakLevel := by
  cases scale with
  | linear => exact div_self (h rfl).ne'
  | decibel => exact sub_self reference

theorem relation_peakLevel (v : ℝ) : scale.relation v scale.peakLevel = v := by
  cases scale with
  | linear => exact div_one v
  | decibel => exact sub_zero v

theorem relation_relation (h : scale.Refers reference) (v w : ℝ) :
    scale.relation (scale.relation v reference) (scale.relation w reference) =
      scale.relation v w := by
  cases scale with
  | linear => exact div_div_div_cancel_right₀ (h rfl).ne' v w
  | decibel => exact sub_sub_sub_cancel_right v w reference

theorem relation_monotone (h : scale.Refers reference) :
    Monotone fun v => scale.relation v reference := by
  intro v w hvw
  cases scale with
  | linear => exact div_le_div_of_nonneg_right hvw (h rfl).le
  | decibel => exact sub_le_sub_right hvw reference

end Exact

end MagnitudeScale

namespace MagnitudeResponse

/-- The peak is the greatest sample, where there is one. -/
theorem peak?_spec (r : MagnitudeResponse ℝ) :
    r.peak?.elim ({v | v ∈ r.values} = ∅) (IsGreatest {v | v ∈ r.values}) := by
  rw [← firstValues_size]
  refine Array.foldl_induction (motive := fun i (best : Option ℝ) =>
    best.elim (firstValues r.values i = ∅) (IsGreatest (firstValues r.values i))) ?_ ?_
  · exact firstValues_zero r.values
  · intro i best h
    rw [firstValues_succ]
    cases best with
    | none =>
        change firstValues r.values i = ∅ at h
        rw [h, LawfulSingleton.insert_empty_eq]
        exact isGreatest_singleton
    | some b =>
        change IsGreatest _ (Scalar.larger b r.values[i])
        rw [Scalar.larger_real, max_comm]
        exact h.insert _

theorem peak?_eq_some_iff {r : MagnitudeResponse ℝ} {p : ℝ} :
    r.peak? = some p ↔ IsGreatest {v | v ∈ r.values} p := by
  have hspec := r.peak?_spec
  cases hpeak : r.peak? with
  | none =>
      rw [hpeak] at hspec
      refine iff_of_false (Option.some_ne_none p).symm fun h => ?_
      rw [show {v | v ∈ r.values} = ∅ from hspec] at h
      exact h.1
  | some b =>
      rw [hpeak] at hspec
      rw [Option.some_inj]
      exact ⟨fun h => h ▸ hspec, hspec.unique⟩

section Relations

variable {α : Type} [Scalar α]

/-- The response with every sample set in relation to a reference. -/
def relativeTo (r : MagnitudeResponse α) (reference : α) : MagnitudeResponse α :=
  { r with values := r.values.map (r.scale.relation · reference) }

/-- The samples of the two responses stand in the same relations. -/
structure SameRelations (r n : MagnitudeResponse α) : Prop where
  scale_eq : n.scale = r.scale
  size_eq : n.size = r.size
  relation_eq : ∀ (i j : Nat) (v w : α), r.values[i]? = some v → r.values[j]? = some w →
    ∃ v' w', n.values[i]? = some v' ∧ n.values[j]? = some w' ∧
      r.scale.relation v' w' = r.scale.relation v w

/-- Every sample of a decibel response lies below the floor of its reference. -/
structure Faint (r : MagnitudeResponse α) : Prop where
  scale_eq : r.scale = .decibel
  below : ∀ v ∈ r.values, v < decibelFloor

/-- The samples at hand after normalization, which stay as they were if it is refused. -/
def afterNormalize (r : MagnitudeResponse α) : MagnitudeResponse α :=
  r.normalize.toOption.getD r

end Relations

variable {r : MagnitudeResponse ℝ} {reference p : ℝ}

theorem decibelFloor_real : (decibelFloor : ℝ) = -100 := by
  norm_num [decibelFloor]

theorem relativeTo_peakLevel (r : MagnitudeResponse ℝ) : r.relativeTo r.scale.peakLevel = r := by
  simp [relativeTo, MagnitudeScale.relation_peakLevel]

theorem sameRelations_relativeTo (h : r.scale.Refers reference) :
    r.SameRelations (r.relativeTo reference) := by
  refine ⟨rfl, Array.size_map, fun i j v w hv hw => ?_⟩
  refine ⟨r.scale.relation v reference, r.scale.relation w reference, ?_, ?_,
    MagnitudeScale.relation_relation h v w⟩
  · rw [relativeTo, Array.getElem?_map, hv]
    rfl
  · rw [relativeTo, Array.getElem?_map, hw]
    rfl

theorem isGreatest_relativeTo (h : r.scale.Refers reference)
    (hp : IsGreatest {v | v ∈ r.values} p) :
    IsGreatest {v | v ∈ (r.relativeTo reference).values} (r.scale.relation p reference) := by
  obtain ⟨hmem, hupper⟩ := hp
  refine ⟨Array.mem_map.mpr ⟨p, hmem, rfl⟩, fun w hw => ?_⟩
  obtain ⟨v, hv, rfl⟩ := Array.mem_map.mp hw
  exact MagnitudeScale.relation_monotone h (hupper hv)

/-- How normalization can end, and the reference it has then taken. -/
inductive Normalized (r : MagnitudeResponse ℝ) : Outcome ℝ (MagnitudeResponse ℝ) → Prop
  | refused (hscale : r.scale = .linear) (hnone : ¬ ∃ v ∈ r.values, 0 < v) :
      Normalized r (.error (.degenerateResponse .silentResponse))
  | levelled {top} (htop : IsGreatest {v | v ∈ r.values} top) (hrefers : r.scale.Refers top)
      (hreach : r.scale = .decibel → decibelFloor ≤ top) : Normalized r (.ok (r.relativeTo top))
  | faint (h : r.Faint) : Normalized r (.ok (r.relativeTo decibelFloor))

theorem normalized (r : MagnitudeResponse ℝ) : Normalized r r.normalize := by
  obtain ⟨values, scale⟩ := r
  cases scale with
  | linear =>
      have hgreatest := Scalar.isGreatest_largestFrom 0 values
      by_cases hpositive : ∃ v ∈ values, 0 < v
      · obtain ⟨v, hv, hpos⟩ := hpositive
        have hreference : 0 < Scalar.largestFrom 0 values := hpos.trans_le (hgreatest.2 (.inr hv))
        rw [normalize, if_neg (not_le.mpr hreference)]
        exact .levelled (isGreatest_of_reaches hgreatest ⟨v, hv, hpos.le⟩) (fun _ => hreference)
          nofun
      · have hreference : Scalar.largestFrom 0 values ≤ 0 := by
          rcases hgreatest.1 with h | h
          · exact h.le
          · exact not_lt.mp fun hpos => hpositive ⟨_, h, hpos⟩
        rw [normalize, if_pos hreference]
        exact .refused rfl hpositive
  | decibel =>
      have hgreatest := Scalar.isGreatest_largestFrom decibelFloor values
      by_cases hreach : ∃ v ∈ values, decibelFloor ≤ v
      · have hfloor := hgreatest.2 (.inl rfl)
        exact .levelled (isGreatest_of_reaches hgreatest hreach) nofun fun _ => hfloor
      · have hbelow : ∀ v ∈ values, v < decibelFloor :=
          fun v hv => not_le.mp fun hle => hreach ⟨v, hv, hle⟩
        have hreference : Scalar.largestFrom decibelFloor values = decibelFloor := by
          rcases hgreatest.1 with h | h
          · exact h
          · exact absurd (hbelow _ h) (not_lt.mpr (hgreatest.2 (.inl rfl)))
        rw [normalize, hreference]
        exact .faint ⟨rfl, hbelow⟩

theorem exists_peak (hr : r.size ≠ 0) : ∃ p, r.peak? = some p := by
  have hspec := r.peak?_spec
  cases hpeak : r.peak? with
  | some p => exact ⟨p, rfl⟩
  | none =>
      rw [hpeak] at hspec
      have hpos : 0 < r.values.size := Nat.pos_of_ne_zero hr
      have hfirst : r.values[0] ∈ {v | v ∈ r.values} := Array.getElem_mem hpos
      rw [show {v | v ∈ r.values} = ∅ from hspec] at hfirst
      exact hfirst.elim

theorem peak?_relativeTo (h : r.scale.Refers reference) (hp : r.peak? = some p) :
    (r.relativeTo reference).peak? = some (r.scale.relation p reference) :=
  peak?_eq_some_iff.mpr (isGreatest_relativeTo h (peak?_eq_some_iff.mp hp))

/-- A response is left alone exactly if it is at its level. -/
theorem normalize_eq_self_iff (hr : r.size ≠ 0) :
    r.normalize = .ok r ↔ r.peak? = some r.scale.peakLevel := by
  have hcases := r.normalized
  generalize r.normalize = o at hcases
  cases hcases with
  | refused hscale hnone =>
      refine iff_of_false nofun fun hpeak => hnone ?_
      rw [hscale] at hpeak
      exact ⟨1, (peak?_eq_some_iff.mp hpeak).1, one_pos⟩
  | @levelled top htop hrefers =>
      rw [Except.ok.injEq]
      have htop := peak?_eq_some_iff.mpr htop
      constructor
      · intro hself
        have hpeak := peak?_relativeTo hrefers htop
        rwa [hself, MagnitudeScale.relation_self hrefers] at hpeak
      · intro hpeak
        rw [Option.some.inj (htop.symm.trans hpeak)]
        exact r.relativeTo_peakLevel
  | faint h =>
      rw [Except.ok.injEq]
      obtain ⟨p, hp⟩ := exists_peak hr
      have hrefers : r.scale.Refers (decibelFloor : ℝ) :=
        fun hlinear => nomatch h.scale_eq.symm.trans hlinear
      constructor
      · intro hself
        have hpeak := peak?_relativeTo hrefers hp
        rw [hself, hp, h.scale_eq, Option.some_inj] at hpeak
        change p = p - decibelFloor at hpeak
        rw [decibelFloor_real] at hpeak
        linarith
      · intro hpeak
        have hbelow := h.below _ (peak?_eq_some_iff.mp hpeak).1
        rw [h.scale_eq, decibelFloor_real] at hbelow
        change (0 : ℝ) < -100 at hbelow
        linarith

/-- The reference that a normalization took. -/
theorem reference_of_normalize {n : MagnitudeResponse ℝ} (h : r.normalize = .ok n) :
    ∃ reference, r.scale.Refers reference ∧ n = r.relativeTo reference ∧
      (¬ r.Faint → r.peak? = some reference) ∧ (r.Faint → reference = -100) := by
  have hcases := r.normalized
  rw [h] at hcases
  cases hcases with
  | @levelled top htop hrefers hreach =>
      refine ⟨top, hrefers, rfl, fun _ => peak?_eq_some_iff.mpr htop, fun hfaint => ?_⟩
      exact absurd (hreach hfaint.scale_eq) (not_le.mpr (hfaint.below _ htop.1))
  | faint hfaint =>
      refine ⟨decibelFloor, fun hlinear => ?_, rfl, absurd hfaint, fun _ => decibelFloor_real⟩
      exact nomatch hfaint.scale_eq.symm.trans hlinear

/-- Normalization brings the peak to its level, and then rests, except where a decibel response is
lower than the floor throughout. -/
theorem normalize_peak (hr : r.size ≠ 0) :
    ((∃ e, r.normalize = .error e) ↔ r.scale = .linear ∧ ¬ ∃ v ∈ r.values, 0 < v) ∧
    (∀ e, r.normalize = .error e → r.afterNormalize = r) ∧
    ∀ n, r.normalize = .ok n → r.afterNormalize = n ∧ r.SameRelations n ∧
      (n.peak? = some r.scale.peakLevel ↔ ¬ r.Faint) ∧
      (n.normalize = .ok n ↔ ¬ r.Faint) ∧
      (r.Faint → ∀ peak, r.peak? = some peak → n.peak? = some (peak + 100)) := by
  refine ⟨?_, fun e he => ?_, fun n hn => ?_⟩
  · have hcases := r.normalized
    generalize r.normalize = o at hcases
    cases hcases with
    | refused hscale hnone => exact iff_of_true ⟨_, rfl⟩ ⟨hscale, hnone⟩
    | @levelled top htop hrefers _ =>
        refine iff_of_false (fun ⟨_, he⟩ => nomatch he) fun ⟨hlinear, hnone⟩ => ?_
        exact hnone ⟨top, htop.1, hrefers hlinear⟩
    | faint hfaint =>
        refine iff_of_false (fun ⟨_, he⟩ => nomatch he) fun ⟨hlinear, _⟩ => ?_
        exact nomatch hfaint.scale_eq.symm.trans hlinear
  · rw [afterNormalize, he]
    rfl
  · obtain ⟨reference, hrefers, rfl, hlevel, hfloor⟩ := reference_of_normalize hn
    obtain ⟨p, hp⟩ := exists_peak hr
    have hpeak := peak?_relativeTo hrefers hp
    have hfaintPeak : r.Faint → r.scale.relation p reference = p + 100 ∧ p + 100 < 0 := by
      intro hfaint
      have hbelow := hfaint.below p (peak?_eq_some_iff.mp hp).1
      rw [decibelFloor_real] at hbelow
      rw [hfloor hfaint, hfaint.scale_eq]
      exact ⟨sub_neg_eq_add p 100, by linarith⟩
    have hiff : (r.relativeTo reference).peak? = some r.scale.peakLevel ↔ ¬ r.Faint := by
      constructor
      · intro hreached hfaint
        obtain ⟨hmoved, hneg⟩ := hfaintPeak hfaint
        rw [hpeak, hmoved, hfaint.scale_eq] at hreached
        exact hneg.ne (Option.some.inj hreached)
      · intro hloud
        obtain rfl : p = reference := Option.some.inj (hp.symm.trans (hlevel hloud))
        rw [hpeak, MagnitudeScale.relation_self hrefers]
    have hsame := sameRelations_relativeTo hrefers
    refine ⟨by rw [afterNormalize, hn]; rfl, hsame, hiff, ?_, fun hfaint peak htop => ?_⟩
    · rw [normalize_eq_self_iff (hsame.size_eq.trans_ne hr), hsame.scale_eq]
      exact hiff
    · obtain rfl : p = peak := Option.some.inj (hp.symm.trans htop)
      rw [hpeak, (hfaintPeak hfaint).1]

/-- A response on the linear scale, with a sample below zero. -/
theorem normalize_peak_linear :
    ∃ n, (⟨#[2, -1], .linear⟩ : MagnitudeResponse ℝ).normalize = .ok n ∧
      n.peak? = some 1 ∧ n.normalize = .ok n := by
  have hsize : (⟨#[2, -1], .linear⟩ : MagnitudeResponse ℝ).size ≠ 0 := by decide
  have hloud : ¬ (⟨#[2, -1], .linear⟩ : MagnitudeResponse ℝ).Faint := fun h => nomatch h.scale_eq
  obtain ⟨herror, -, hok⟩ := normalize_peak hsize
  cases hn : (⟨#[2, -1], .linear⟩ : MagnitudeResponse ℝ).normalize with
  | error e =>
      obtain ⟨-, hnone⟩ := herror.mp ⟨e, hn⟩
      exact (hnone ⟨2, by simp, two_pos⟩).elim
  | ok n =>
      obtain ⟨-, -, hpeak, hrests, -⟩ := hok n hn
      exact ⟨n, rfl, hpeak.mpr hloud, hrests.mpr hloud⟩

theorem normalize_singleton (v : ℝ) : (⟨#[v], .decibel⟩ : MagnitudeResponse ℝ).normalize =
    .ok ⟨#[v - max (-100) v], .decibel⟩ := by
  simp [normalize, Scalar.largestFrom, Scalar.larger_real, decibelFloor_real]

/-- One sample at minus 150 decibels ends at minus 50, and at zero the second time. -/
theorem normalize_faint :
    ∃ n, (⟨#[-150], .decibel⟩ : MagnitudeResponse ℝ).normalize = .ok n ∧
      n.peak? = some (-50) ∧ n.normalize = .ok ⟨#[0], .decibel⟩ := by
  refine ⟨⟨#[-50], .decibel⟩, ?_, rfl, ?_⟩
  · rw [normalize_singleton]
    norm_num
  · rw [normalize_singleton]
    norm_num

end MagnitudeResponse
end FrequencySampling
