import FrequencySampling.Proofs.GoldenSection.Frames
import Mathlib.Order.Monotone.Defs

/-!
A function that falls and then rises has its minimizer in every frame of its line search. A step
gives up an outer part only on the far side of the worse inner point, and there no such function is
least, on either side and also between equal values. The trials may have failed: the first frame
covers the whole interval all the same.
-/

namespace FrequencySampling.GoldenSection

namespace Frame

variable {f : ℝ → ℝ} {lo hi m : ℝ} {fr : Frame ℝ}

theorem mem_narrowed_extent (hanti : StrictAntiOn f (Set.Icc lo m))
    (hmono : StrictMonoOn f (Set.Icc m hi)) (hw : fr.Within lo hi)
    (hvalues : fr.Answered fun x v => v = f x) (hm : m ∈ fr.extent) (v : ℝ) :
    m ∈ (fr.narrowed v).extent := by
  obtain ⟨h0, h1, h2, h3, h4⟩ := hw
  obtain ⟨hv1, hv2⟩ := hvalues
  obtain ⟨hm0, hm3⟩ := hm
  obtain ⟨hle, hn⟩ | ⟨hlt, hn⟩ := fr.narrowed_cases v
  · rw [hn]
    refine ⟨hm0, ?_⟩
    -- Beyond the second inner point the function would still be falling at both.
    by_contra hout
    have hout : fr.x2 < m := not_le.mp hout
    have hfall : f fr.x2 < f fr.x1 :=
      hanti ⟨by linarith, by linarith⟩ ⟨by linarith, hout.le⟩ h2
    rw [hv1, hv2] at hle
    exact absurd hfall (not_lt.mpr hle)
  · rw [hn]
    refine ⟨?_, hm3⟩
    by_contra hout
    have hout : m < fr.x1 := not_le.mp hout
    have hrise : f fr.x1 < f fr.x2 :=
      hmono ⟨hout.le, by linarith⟩ ⟨by linarith, by linarith⟩ h2
    rw [hv1, hv2] at hlt
    exact absurd hrise (not_lt.mpr hlt.le)

theorem abs_sub_le_of_mem_extent {x : ℝ} (hx : x ∈ fr.extent) (hm : m ∈ fr.extent) :
    |x - m| ≤ fr.x3 - fr.x0 := by
  obtain ⟨hx0, hx3⟩ := hx
  obtain ⟨hm0, hm3⟩ := hm
  exact abs_le.mpr ⟨by linarith, by linarith⟩

end Frame

/-- A line search closes in on the minimizer of a function that falls up to it and rises after it.
Every frame contains it, so the reported point is at most the width of the last frame away, and once
the search has converged, at most the tolerance. -/
theorem minimize_locates_minimizer {params : LineSearchParams ℝ} (hp : params.check = .ok ())
    {f : ℝ → ℝ} {lo hi m : ℝ} (hlt : lo < hi) (hm : m ∈ Set.Icc lo hi)
    (hanti : StrictAntiOn f (Set.Icc lo m)) (hmono : StrictMonoOn f (Set.Icc m hi)) {σ : Type}
    {answer : ℝ → σ → Outcome ℝ ℝ × σ} (hear : Notice ℝ → σ → σ)
    (hanswer : ∀ x s, (answer x s).1 = .ok (f x)) (s : σ) :
    ∃ minimum frames last s',
      (minimizeFrames params lo hi).run answer hear s = (.ok (minimum, frames), s') ∧
      (minimize params lo hi).run answer hear s = (.ok minimum, s') ∧
      frames.length = minimum.iterations + 1 ∧
      (∀ fr ∈ frames, m ∈ Set.Icc fr.x0 fr.x3) ∧
      frames.getLast? = some last ∧ |minimum.x - m| ≤ last.x3 - last.x0 ∧
      (minimum.converged → |minimum.x - m| ≤ params.tol) := by
  have hpure : ∀ p s, ∃ v s', answer p s = (.ok v, s') ∧ v = f p := by
    intro p s
    exact ⟨f p, (answer p s).2, Prod.ext (hanswer p s) rfl, rfl⟩
  obtain ⟨o, n, later, s', ⟨hspans, hvalues⟩, hcourse, hframes, hrun⟩ :=
    run_minimizeFrames (opening_ensures hp hlt) hear hpure s
  have hstart : m ∈ o.frame.extent := by
    rw [Frame.extent, hspans.x0_eq, hspans.x3_eq]
    exact hm
  have hall : ∀ fr ∈ o.frame :: later, fr.Within lo hi ∧
      fr.Answered (fun x v => v = f x) ∧ m ∈ fr.extent := by
    refine hcourse.invariant_mem ?_ ⟨hspans.within, hvalues, hstart⟩
    intro fr v ⟨hw, hv, hmem⟩ hnext
    exact ⟨hw.narrowed v, hv.narrowed hnext, fr.mem_narrowed_extent hanti hmono hw hv hmem v⟩
  obtain ⟨hw, -, hmem⟩ := hall n.frame (List.mem_of_getLast? hcourse.getLast?_eq)
  have hnear := Frame.abs_sub_le_of_mem_extent hw.best_mem hmem
  refine ⟨_, _, n.frame, s', hframes, hrun, ?_, ?_, hcourse.getLast?_eq, hnear, ?_⟩
  · rw [List.length_cons, Narrowing.minimum, hcourse.iterations_eq, Nat.zero_add]
  · intro fr hfr
    exact (hall fr hfr).2.2
  · intro hconverged
    have hwidth := hcourse.converged_iff.mp hconverged
    rw [hw.width_eq] at hwidth
    exact hnear.trans hwidth

/-- The vertex of a parabola, to a thousandth. -/
theorem minimize_locates_vertex :
    ∃ minimum s', (minimize (⟨1 / 1000, 100, 100⟩ : LineSearchParams ℝ) 0 1).run
        (fun x u => (.ok ((x - 1 / 3) ^ 2), u)) (fun _ u => u) () =
          (.ok minimum, s') ∧
      (minimum.converged → |minimum.x - 1 / 3| ≤ 1 / 1000) := by
  have hp : (⟨1 / 1000, 100, 100⟩ : LineSearchParams ℝ).check = .ok () :=
    LineSearchParams.check_eq_ok_iff.mpr ⟨by norm_num, by norm_num, by norm_num⟩
  have hfall : StrictAntiOn (fun x : ℝ => (x - 1 / 3) ^ 2) (Set.Icc 0 (1 / 3)) := by
    intro x ⟨_, _⟩ y ⟨_, _⟩ hxy
    change (y - 1 / 3) ^ 2 < (x - 1 / 3) ^ 2
    nlinarith
  have hrise : StrictMonoOn (fun x : ℝ => (x - 1 / 3) ^ 2) (Set.Icc (1 / 3) 1) := by
    intro x ⟨_, _⟩ y ⟨_, _⟩ hxy
    change (x - 1 / 3) ^ 2 < (y - 1 / 3) ^ 2
    nlinarith
  have hanswer : ∀ (x : ℝ) (u : Unit),
      ((.ok ((x - 1 / 3) ^ 2), u) : Outcome ℝ ℝ × Unit).1 = .ok ((x - 1 / 3) ^ 2) :=
    fun _ _ => rfl
  obtain ⟨minimum, -, -, s', -, hrun, -, -, -, -, hnear⟩ :=
    minimize_locates_minimizer hp one_pos ⟨by norm_num, by norm_num⟩ hfall hrise
      (fun _ u => u) hanswer ()
  exact ⟨minimum, s', hrun, hnear⟩

end FrequencySampling.GoldenSection
