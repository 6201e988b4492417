import FrequencySampling.Proofs.GoldenSection.Frames

/-!
How fast a line search narrows, for any objective at all. The first inner point may be close to
either end, so a single step may give up almost nothing. The two outer parts and the inner one,
weighted by the ratio of the golden parts, shrink together by the larger part at every step; that
they do rests on the square of the larger part being no less than the smaller one.
-/

namespace FrequencySampling.GoldenSection

theorem smallPart_le_largePart_sq : (smallPart : ℝ) ≤ largePart * largePart := by
  rw [smallPart_real, largePart_real]
  norm_num

theorem smallPart_add_largePart : (smallPart : ℝ) + largePart = 1 := by
  rw [smallPart_real, largePart_real]
  norm_num

theorem largePart_pos : (0 : ℝ) < largePart := by
  rw [largePart_real]
  norm_num

theorem smallPart_pos : (0 : ℝ) < smallPart := by
  rw [smallPart_real]
  norm_num

namespace Frame

/-- No part of the frame is longer than the given length, the inner one when weighted. -/
structure PartsLe (length : ℝ) (fr : Frame ℝ) : Prop where
  left : fr.x1 - fr.x0 ≤ length
  inner : fr.x2 - fr.x1 ≤ smallPart / largePart * length
  right : fr.x3 - fr.x2 ≤ length

variable {length lo hi : ℝ} {fr : Frame ℝ}

/-- The inner part becomes an outer one, and one outer part is cut at its golden section. -/
theorem PartsLe.narrowed (h : fr.PartsLe length) (hpos : 0 ≤ length) (f : ℝ) :
    (fr.narrowed f).PartsLe (largePart * length) := by
  obtain ⟨hleft, hinner, hright⟩ := h
  have hsum := smallPart_add_largePart
  have hL := largePart_pos
  have hlarge : ∀ {part : ℝ}, part ≤ length → largePart * part ≤ largePart * length :=
    fun hpart => mul_le_mul_of_nonneg_left hpart hL.le
  have hsmall : ∀ {part : ℝ}, part ≤ length →
      smallPart * part ≤ smallPart / largePart * (largePart * length) := by
    intro part hpart
    rw [← mul_assoc, div_mul_cancel₀ _ hL.ne']
    exact mul_le_mul_of_nonneg_left hpart smallPart_pos.le
  have houter : fr.x2 - fr.x1 ≤ largePart * length := by
    refine hinner.trans (mul_le_mul_of_nonneg_right ?_ hpos)
    exact (div_le_iff₀ hL).mpr smallPart_le_largePart_sq
  obtain ⟨-, hn⟩ | ⟨-, hn⟩ := fr.narrowed_cases f
  · rw [hn]
    refine ⟨?_, ?_, houter⟩
    · calc largePart * fr.x1 + smallPart * fr.x0 - fr.x0
          = largePart * (fr.x1 - fr.x0) := by linear_combination fr.x0 * hsum
        _ ≤ largePart * length := hlarge hleft
    · calc fr.x1 - (largePart * fr.x1 + smallPart * fr.x0)
          = smallPart * (fr.x1 - fr.x0) := by linear_combination -fr.x1 * hsum
        _ ≤ smallPart / largePart * (largePart * length) := hsmall hleft
  · rw [hn]
    refine ⟨houter, ?_, ?_⟩
    · calc largePart * fr.x2 + smallPart * fr.x3 - fr.x2
          = smallPart * (fr.x3 - fr.x2) := by linear_combination fr.x2 * hsum
        _ ≤ smallPart / largePart * (largePart * length) := hsmall hright
    · calc fr.x3 - (largePart * fr.x2 + smallPart * fr.x3)
          = largePart * (fr.x3 - fr.x2) := by linear_combination -fr.x3 * hsum
        _ ≤ largePart * length := hlarge hright

theorem Spans.partsLe (h : fr.Spans lo hi) : fr.PartsLe (hi - lo) := by
  obtain ⟨-, h1, h2, h3, -⟩ := h.within
  have hratio : (smallPart : ℝ) ≤ smallPart / largePart := by
    rw [smallPart_real, largePart_real]
    norm_num
  have hx0 := h.x0_eq
  have hx3 := h.x3_eq
  refine ⟨by linarith, ?_, by linarith⟩
  calc fr.x2 - fr.x1 = smallPart * (hi - fr.x1) := by rw [h.x2_eq, add_sub_cancel_left]
    _ ≤ smallPart / largePart * (hi - lo) :=
        mul_le_mul hratio (by linarith) (by linarith) (smallPart_pos.le.trans hratio)

theorem PartsLe.width_le (h : fr.PartsLe length) :
    fr.x3 - fr.x0 ≤ (2 + smallPart / largePart) * length := by
  obtain ⟨hleft, hinner, hright⟩ := h
  linarith

end Frame

theorem Course.width_le {answers : ℝ → ℝ → Prop} {tol lo hi : ℝ}
    {remaining made : ℕ} {fr : Frame ℝ} {n : Narrowing ℝ} {later : List (Frame ℝ)}
    (h : Course answers tol remaining made fr n later) (hlt : lo < hi) (hspans : fr.Spans lo hi) :
    ∀ (k : ℕ) (visited : Frame ℝ), (fr :: later)[k]? = some visited →
      visited.x3 - visited.x0 ≤ (2 + smallPart / largePart) * largePart ^ k * (hi - lo) := by
  intro k visited hat
  have hparts : visited.PartsLe (largePart ^ (0 + k) * (hi - lo)) := by
    refine h.invariant (I := fun k fr => fr.PartsLe (largePart ^ k * (hi - lo))) ?_ ?_ k visited hat
    · intro k fr f hI _
      have hpos : 0 ≤ largePart ^ k * (hi - lo) :=
        mul_nonneg (pow_nonneg largePart_pos.le k) (sub_pos.mpr hlt).le
      have hnext := hI.narrowed hpos f
      rwa [← mul_assoc, ← pow_succ'] at hnext
    · rw [pow_zero, one_mul]
      exact hspans.partsLe
  rw [Nat.zero_add] at hparts
  rw [mul_assoc]
  exact hparts.width_le

/-- A line search converges on every objective that does not fail, also on one that answers
differently from call to call. The frames are ordered, each lies in the one before it, and their
widths fall below a geometric sequence, which bounds the iterations before the search begins. -/
theorem minimize_converges {params : LineSearchParams ℝ} (hp : params.check = .ok ())
    {lo hi : ℝ} (hlt : lo < hi) {σ : Type} {answer : ℝ → σ → Outcome ℝ ℝ × σ}
    (hear : Notice ℝ → σ → σ) (hanswer : ∀ x s, ∃ v, (answer x s).1 = .ok v) (s : σ) :
    ∃ minimum frames s',
      (minimizeFrames params lo hi).run answer hear s = (.ok (minimum, frames), s') ∧
      (minimize params lo hi).run answer hear s = (.ok minimum, s') ∧
      frames.length = minimum.iterations + 1 ∧
      (∀ fr ∈ frames, lo ≤ fr.x0 ∧ fr.x0 < fr.x1 ∧ fr.x1 < fr.x2 ∧ fr.x2 < fr.x3 ∧
        fr.x3 ≤ hi) ∧
      frames.IsChain (fun fr next => Set.Icc next.x0 next.x3 ⊆ Set.Icc fr.x0 fr.x3) ∧
      (∀ k fr, frames[k]? = some fr →
        fr.x3 - fr.x0 ≤ (2 + smallPart / largePart) * largePart ^ k * (hi - lo)) ∧
      ((2 + smallPart / largePart) * largePart ^ params.maxIterations * (hi - lo) ≤ params.tol →
        minimum.converged = true) ∧
      (∀ k, (2 + smallPart / largePart) * largePart ^ k * (hi - lo) ≤ params.tol →
        minimum.iterations ≤ k) := by
  have hany : ∀ p s, ∃ v s', answer p s = (.ok v, s') ∧ True := by
    intro p s
    obtain ⟨v, hv⟩ := hanswer p s
    exact ⟨v, (answer p s).2, Prod.ext hv rfl, trivial⟩
  obtain ⟨o, n, later, s', ⟨hspans, -⟩, hcourse, hframes, hrun⟩ :=
    run_minimizeFrames (opening_ensures hp hlt) hear hany s
  have hwithin : ∀ fr ∈ o.frame :: later, fr.Within lo hi :=
    hcourse.invariant_mem (fun fr f hw _ => hw.narrowed f) hspans.within
  have hwidth := hcourse.width_le hlt hspans
  have hiterations : ∀ k, (2 + smallPart / largePart) * largePart ^ k * (hi - lo) ≤ params.tol →
      n.iterations ≤ k := by
    intro k hk
    rw [hcourse.iterations_eq, Nat.zero_add]
    refine hcourse.length_le_of_width_le fun fr hfr => ?_
    rw [(hwithin fr (List.mem_of_getElem? hfr)).width_eq]
    exact (hwidth k fr hfr).trans hk
  refine ⟨_, _, s', hframes, hrun, ?_, ?_, ?_, hwidth, ?_, hiterations⟩
  · rw [List.length_cons, Narrowing.minimum, hcourse.iterations_eq, Nat.zero_add]
  · intro fr hfr
    obtain ⟨h0, h1, h2, h3, h4⟩ := hwithin fr hfr
    exact ⟨h0, h1, h2, h3, h4⟩
  · exact hcourse.isChain (I := fun fr => fr.Within lo hi)
      (fun fr f hw _ => ⟨hw.narrowed f, hw.narrowed_extent f⟩) hspans.within
  · intro hcap
    by_contra hn
    have hcapped := hcourse.capped_of_not_converged (eq_false_of_ne_true hn)
    have hlength : later.length = params.maxIterations := by
      have hcount := hcourse.iterations_eq
      omega
    have hlast := hcourse.getElem?_length
    have hsmall := hwidth _ n.frame hlast
    rw [← (hwithin _ (List.mem_of_getElem? hlast)).width_eq, hlength] at hsmall
    exact hn (hcourse.converged_iff.mpr (hsmall.trans hcap))

/-- The sign of the slope changes from one call to the next. -/
theorem minimize_converges_of_alternating_slopes :
    ∃ minimum s', (minimize (⟨1 / 1000, 100, 100⟩ : LineSearchParams ℝ) 0 1).run
        (fun x slope => (.ok (slope * x), -slope)) (fun _ slope => slope) (1 : ℝ) =
          (.ok minimum, s') ∧
      minimum.converged = true ∧ minimum.iterations ≤ 17 := by
  have hp : (⟨1 / 1000, 100, 100⟩ : LineSearchParams ℝ).check = .ok () :=
    LineSearchParams.check_eq_ok_iff.mpr ⟨by norm_num, by norm_num, by norm_num⟩
  have hbound : ((2 + smallPart / largePart) * largePart ^ 17 * (1 - 0) ≤ (1 / 1000 : ℝ)) ∧
      (2 + smallPart / largePart) * largePart ^ 100 * (1 - 0) ≤ (1 / 1000 : ℝ) := by
    rw [smallPart_real, largePart_real]
    norm_num
  have hanswer : ∀ x slope : ℝ, ∃ v,
      ((.ok (slope * x), -slope) : Outcome ℝ ℝ × ℝ).1 = .ok v :=
    fun x slope => ⟨slope * x, rfl⟩
  obtain ⟨minimum, -, s', -, hrun, -, -, -, -, hconverged, hiterations⟩ :=
    minimize_converges hp one_pos (fun _ slope => slope) hanswer (1 : ℝ)
  exact ⟨minimum, s', hrun, hconverged hbound.2, hiterations 17 hbound.1⟩

end FrequencySampling.GoldenSection
