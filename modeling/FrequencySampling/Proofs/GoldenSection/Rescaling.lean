import FrequencySampling.Proofs.GoldenSection.Convergence
import FrequencySampling.Proofs.GoldenSection.Ends
import FrequencySampling.Proofs.Search.Correspondence

/-!
A line search knows no absolute length and no absolute value. Searched over the unit interval, with
its values sent through any increasing function and the tolerance given as a fraction, an objective
is asked at the same fractions of the interval in the same order, since all points are made from
the ends by combinations whose weights add up to one, and values are only compared.
-/

namespace FrequencySampling.GoldenSection

open Search (Corresponds)

/-- The point of an interval at a fraction of its length. -/
def pointAt (lo hi u : ℝ) : ℝ :=
  lo + (hi - lo) * u

section Points

variable (lo hi : ℝ)

theorem pointAt_zero : pointAt lo hi 0 = lo := by
  simp [pointAt]

theorem pointAt_one : pointAt lo hi 1 = hi := by
  simp [pointAt]

theorem pointAt_trial (fromLeft : Bool) (step : ℝ) :
    pointAt lo hi (if fromLeft then 0 + step else 1 - step) =
      if fromLeft then lo + (hi - lo) * step else hi - (hi - lo) * step := by
  unfold pointAt
  split <;> ring

/-- A point set off from another towards the upper end. -/
theorem pointAt_inner (weight u : ℝ) :
    pointAt lo hi (u + weight * (1 - u)) =
      pointAt lo hi u + weight * (hi - pointAt lo hi u) := by
  unfold pointAt
  ring

theorem pointAt_weighted (u v : ℝ) :
    pointAt lo hi (largePart * u + smallPart * v) =
      largePart * pointAt lo hi u + smallPart * pointAt lo hi v := by
  unfold pointAt
  linear_combination -lo * smallPart_add_largePart

theorem pointAt_sub (u v : ℝ) : pointAt lo hi u - pointAt lo hi v = (hi - lo) * (u - v) := by
  unfold pointAt
  ring

end Points

/-- One minimum is at the fraction of the interval at which the other is a point, and their values
are on the two scales. -/
structure Rescales (lo hi : ℝ) (scale : ℝ → ℝ) (m whole : LineMinimum ℝ) : Prop where
  x_eq : whole.x = lo + (hi - lo) * m.x
  f_eq : m.f = scale whole.f
  converged_eq : m.converged = whole.converged
  iterations_eq : m.iterations = whole.iterations
  evaluations_eq : m.evaluations = whole.evaluations

structure Bracket.Rescales (lo hi : ℝ) (scale : ℝ → ℝ) (b whole : Bracket ℝ) : Prop where
  point_eq : pointAt lo hi b.point = whole.point
  value_eq : b.value = scale whole.value
  trials_eq : b.trials = whole.trials
  found_eq : b.found = whole.found

structure Frame.Rescales (lo hi : ℝ) (scale : ℝ → ℝ) (fr whole : Frame ℝ) : Prop where
  x0_eq : pointAt lo hi fr.x0 = whole.x0
  x1_eq : pointAt lo hi fr.x1 = whole.x1
  x2_eq : pointAt lo hi fr.x2 = whole.x2
  x3_eq : pointAt lo hi fr.x3 = whole.x3
  f1_eq : fr.f1 = scale whole.f1
  f2_eq : fr.f2 = scale whole.f2

structure Opening.Rescales (lo hi : ℝ) (scale : ℝ → ℝ) (o whole : Opening ℝ) : Prop where
  frame : o.frame.Rescales lo hi scale whole.frame
  trials_eq : o.trials = whole.trials

structure Narrowing.Rescales (lo hi : ℝ) (scale : ℝ → ℝ) (n whole : Narrowing ℝ) : Prop where
  frame : n.frame.Rescales lo hi scale whole.frame
  iterations_eq : n.iterations = whole.iterations
  converged_eq : n.converged = whole.converged

variable {lo hi : ℝ} {scale : ℝ → ℝ}

namespace Frame.Rescales

variable {fr whole : Frame ℝ}

theorem keepsLeft_eq (h : fr.Rescales lo hi scale whole) (hscale : StrictMono scale) :
    fr.keepsLeft = whole.keepsLeft := by
  unfold Frame.keepsLeft
  rw [h.f1_eq, h.f2_eq]
  exact decide_eq_decide.mpr hscale.le_iff_le

theorem nextPoint_eq (h : fr.Rescales lo hi scale whole) (hscale : StrictMono scale) :
    pointAt lo hi fr.nextPoint = whole.nextPoint := by
  unfold Frame.nextPoint
  rw [h.keepsLeft_eq hscale]
  split
  · rw [pointAt_weighted, h.x1_eq, h.x0_eq]
  · rw [pointAt_weighted, h.x2_eq, h.x3_eq]

theorem narrowed (h : fr.Rescales lo hi scale whole) (hscale : StrictMono scale) (v : ℝ) :
    (fr.narrowed (scale v)).Rescales lo hi scale (whole.narrowed v) := by
  have hnext := h.nextPoint_eq hscale
  unfold Frame.narrowed
  rw [h.keepsLeft_eq hscale]
  split
  · exact ⟨h.x0_eq, hnext, h.x1_eq, h.x2_eq, rfl, h.f1_eq⟩
  · exact ⟨h.x1_eq, h.x2_eq, hnext, h.x3_eq, h.f2_eq, rfl⟩

theorem width_le_iff (h : fr.Rescales lo hi scale whole) (hlt : lo < hi) (tol : ℝ) :
    fr.width ≤ tol / (hi - lo) ↔ whole.width ≤ tol := by
  have hlength : 0 < hi - lo := sub_pos.mpr hlt
  have hwidth : whole.width = fr.width * (hi - lo) := by
    simp only [Frame.width, Scalar.abs_real, ← h.x0_eq, ← h.x3_eq, pointAt_sub, abs_mul,
      abs_of_pos hlength]
    exact mul_comm _ _
  rw [hwidth]
  exact le_div_iff₀ hlength

theorem best (h : fr.Rescales lo hi scale whole) (hscale : StrictMono scale) :
    pointAt lo hi fr.best.1 = whole.best.1 ∧ fr.best.2 = scale whole.best.2 := by
  have hlt : fr.f1 < fr.f2 ↔ whole.f1 < whole.f2 := by
    rw [h.f1_eq, h.f2_eq]
    exact hscale.lt_iff_lt
  unfold Frame.best
  simp only [hlt]
  split
  · exact ⟨h.x1_eq, h.f1_eq⟩
  · exact ⟨h.x2_eq, h.f2_eq⟩

end Frame.Rescales

/-- The distances of the trials are fractions of the interval as well. -/
theorem bracket_corresponds (hscale : StrictMono scale) (fromLeft : Bool) (target : ℝ)
    {remaining : ℕ} {step : ℝ} {last last' : Bracket ℝ} (hlast : last.Rescales lo hi scale last') :
    Corresponds (pointAt lo hi) scale (Bracket.Rescales lo hi scale)
      (bracket (fun step => if fromLeft then 0 + step else 1 - step) (scale target) remaining step
        last)
      (bracket (fun step => if fromLeft then lo + step else hi - step) target remaining
        ((hi - lo) * step) last') := by
  induction remaining generalizing step last last' with
  | zero => exact .pure hlast
  | succ remaining ih =>
      have hpoint := pointAt_trial lo hi fromLeft (step * smallPart)
      rw [← mul_assoc] at hpoint
      refine (Corresponds.value hpoint).bind fun v v' hv => ?_
      have hbeats : v < scale target ↔ v' < target := by
        rw [hv]
        exact hscale.lt_iff_lt
      by_cases hlt : v' < target
      · rw [if_pos hlt, if_pos (hbeats.mpr hlt)]
        exact .pure ⟨hpoint, hv, congrArg (· + 1) hlast.trials_eq, rfl⟩
      · rw [if_neg hlt, if_neg fun h => hlt (hbeats.mp h), mul_assoc]
        rw [mul_assoc] at hpoint
        exact ih ⟨hpoint, hv, congrArg (· + 1) hlast.trials_eq, rfl⟩

theorem surround_corresponds {b b' : Bracket ℝ} (hb : b.Rescales lo hi scale b') :
    Corresponds (pointAt lo hi) scale (Opening.Rescales lo hi scale) (surround 0 1 b)
      (surround lo hi b') := by
  have hinner : pointAt lo hi (b.point + smallPart * (1 - b.point)) =
      b'.point + smallPart * (hi - b'.point) := by
    rw [pointAt_inner, hb.point_eq]
  refine (Corresponds.value hinner).bind fun v v' hv => .pure ⟨?_, hb.trials_eq⟩
  exact ⟨pointAt_zero lo hi, hb.point_eq, hinner, pointAt_one lo hi, hb.value_eq, hv⟩

theorem narrow_corresponds (hlt : lo < hi) (hscale : StrictMono scale) (tol : ℝ)
    {remaining made : ℕ} {fr fr' : Frame ℝ} (hfr : fr.Rescales lo hi scale fr') :
    Corresponds (pointAt lo hi) scale (Narrowing.Rescales lo hi scale)
      (narrow (tol / (hi - lo)) remaining made fr) (narrow tol remaining made fr') := by
  induction remaining generalizing made fr fr' with
  | zero => exact .pure ⟨hfr, rfl, decide_eq_decide.mpr (hfr.width_le_iff hlt tol)⟩
  | succ remaining ih =>
      have hwidth := hfr.width_le_iff hlt tol
      simp only [narrow]
      by_cases hsettled : fr'.width ≤ tol
      · rw [if_pos hsettled, if_pos (hwidth.mpr hsettled)]
        exact .pure ⟨hfr, rfl, rfl⟩
      · rw [if_neg hsettled, if_neg fun h => hsettled (hwidth.mp h)]
        refine (Corresponds.value (hfr.nextPoint_eq hscale)).bind fun v v' hv => ?_
        rw [hv]
        exact ih (hfr.narrowed hscale v')

theorem conclude_corresponds (hscale : StrictMono scale) {n n' : Narrowing ℝ}
    (hn : n.Rescales lo hi scale n') (trials : ℕ) :
    Corresponds (pointAt lo hi) scale (GoldenSection.Rescales lo hi scale) (conclude trials n)
      (conclude trials n') := by
  obtain ⟨hx, hf⟩ := hn.frame.best hscale
  have hcapped : (!n.converged) = true ↔ (!n'.converged) = true := by
    rw [hn.converged_eq]
  unfold conclude
  refine Corresponds.postIf hcapped ?_
  have hevaluations := congrArg (3 + trials + ·) hn.iterations_eq
  exact .pure ⟨hx.symm, hf, hn.converged_eq, hn.iterations_eq, hevaluations⟩

/-- With both tolerances positive the checks look at the caps alone. -/
theorem check_eq_of_tol_pos {tol tol' : ℝ} (htol : 0 < tol) (htol' : 0 < tol')
    (iterations steps : ℕ) :
    (⟨tol, iterations, steps⟩ : LineSearchParams ℝ).check =
      (⟨tol', iterations, steps⟩ : LineSearchParams ℝ).check := by
  simp [LineSearchParams.check, not_le.mpr htol, not_le.mpr htol']

theorem opening_corresponds (hlt : lo < hi) (hscale : StrictMono scale) {tol tol' : ℝ}
    (htol : 0 < tol) (htol' : 0 < tol') (iterations steps : ℕ) :
    Corresponds (pointAt lo hi) scale (Opening.Rescales lo hi scale)
      (opening ⟨tol', iterations, steps⟩ 0 1) (opening ⟨tol, iterations, steps⟩ lo hi) := by
  unfold opening
  rw [check_eq_of_tol_pos htol' htol]
  refine (Corresponds.ofOutcome _).bind fun _ _ _ => ?_
  rw [if_neg (by simp), if_neg (by simpa using hlt)]
  refine (Corresponds.value (pointAt_zero lo hi)).bind fun left left' hleft => ?_
  refine (Corresponds.value (pointAt_one lo hi)).bind fun right right' hright => ?_
  have hfromLeft : decide (left < right) = decide (left' < right') := by
    rw [hleft, hright]
    exact decide_eq_decide.mpr hscale.lt_iff_lt
  have htarget : (if decide (left < right) then left else right) =
      scale (if decide (left' < right') then left' else right') := by
    rw [hfromLeft, hleft, hright]
    split <;> rfl
  dsimp only
  rw [htarget, hfromLeft, sub_zero, ← mul_one (hi - lo)]
  have hfirst : Bracket.Rescales lo hi scale ⟨0, left, 0, false⟩ ⟨lo, left', 0, false⟩ :=
    ⟨pointAt_zero lo hi, hleft, rfl, rfl⟩
  refine (bracket_corresponds hscale _ _ hfirst).bind fun b b' hb => ?_
  have hfound : (!b.found) = true ↔ (!b'.found) = true := by
    rw [hb.found_eq]
  exact .postIf hfound (surround_corresponds hb)

/-- The search over the unit interval and the search over the whole take the same course. -/
theorem minimize_corresponds (hlt : lo < hi) (hscale : StrictMono scale) {tol : ℝ} (htol : 0 < tol)
    (iterations steps : ℕ) :
    Corresponds (pointAt lo hi) scale (GoldenSection.Rescales lo hi scale)
      (minimize ⟨tol / (hi - lo), iterations, steps⟩ 0 1)
      (minimize ⟨tol, iterations, steps⟩ lo hi) := by
  have htol' : 0 < tol / (hi - lo) := div_pos htol (sub_pos.mpr hlt)
  refine (opening_corresponds hlt hscale htol htol' iterations steps).bind fun o o' ho => ?_
  refine (narrow_corresponds hlt hscale tol ho.frame).bind fun n n' hn => ?_
  rw [ho.trials_eq]
  exact conclude_corresponds hscale hn o'.trials

/-- Where every question is answered, only a cap of zero can make a search fail. -/
theorem caps_of_error (hlt : lo < hi) {tol : ℝ} (htol : 0 < tol) {iterations steps : ℕ} {σ : Type}
    {answer : ℝ → σ → Outcome ℝ ℝ × σ} {hear : Notice ℝ → σ → σ} {s s' : σ} {e : DesignError ℝ}
    (hanswer : ∀ x s, ∃ v s', answer x s = (.ok v, s'))
    (h : (minimize ⟨tol, iterations, steps⟩ lo hi).run answer hear s = (.error e, s')) :
    iterations = 0 ∨ steps = 0 := by
  by_contra hcaps
  obtain ⟨hiterations, hsteps⟩ := not_or.mp hcaps
  have hparams : (⟨tol, iterations, steps⟩ : LineSearchParams ℝ).check = .ok () :=
    LineSearchParams.check_eq_ok_iff.mpr ⟨htol, hiterations, hsteps⟩
  have hanswered : ∀ x s, ∃ v s', answer x s = (.ok v, s') ∧ True := by
    intro x s
    obtain ⟨v, s', hv⟩ := hanswer x s
    exact ⟨v, s', hv, trivial⟩
  obtain ⟨m, s'', hok, -⟩ := (minimize_ensures hparams rfl rfl (not_le.mpr hlt)
    fun _ _ => True).run hear hanswered s
  rw [h] at hok
  cases hok

/-- An objective over an interval, and the same objective over the unit interval, asked at the same
fractions, with its values sent through an increasing function and the tolerance taken as a
fraction. The two searches ask as often, at corresponding points in the same order; all their events
correspond, they leave the same state, and their minima are the same one on two scales. Where a cap
is zero, neither starts. -/
theorem minimize_rescales (hlt : lo < hi) {tol : ℝ} (htol : 0 < tol) (hscale : StrictMono scale)
    (iterations steps : ℕ) {σ : Type} (f : ℝ → σ → ℝ × σ) (hear : Notice ℝ → σ → σ) (s : σ) :
    let whole := minimize ⟨tol, iterations, steps⟩ lo hi
    let unit := minimize ⟨tol / (hi - lo), iterations, steps⟩ 0 1
    let answer : ℝ → σ → Outcome ℝ ℝ × σ := fun x s => (.ok (f x s).1, (f x s).2)
    let answerAt : ℝ → σ → Outcome ℝ ℝ × σ := fun u s =>
      (.ok (scale (f (lo + (hi - lo) * u) s).1), (f (lo + (hi - lo) * u) s).2)
    let asked := Search.points (whole.events answer hear s)
    let askedAt := Search.points (unit.events answerAt hear s)
    askedAt.length = asked.length ∧ askedAt.map (fun u => lo + (hi - lo) * u) = asked ∧
    (unit.events answerAt hear s).map (Search.Event.mapPoint fun u => lo + (hi - lo) * u) =
      (whole.events answer hear s).map (Search.Event.onScale scale) ∧
    (unit.run answerAt hear s).2 = (whole.run answer hear s).2 ∧
    ((∃ m m', (unit.run answerAt hear s).1 = .ok m ∧ (whole.run answer hear s).1 = .ok m' ∧
        Rescales lo hi scale m m') ∨
      ((iterations = 0 ∨ steps = 0) ∧ ∃ e, (unit.run answerAt hear s).1 = .error e ∧
        (whole.run answer hear s).1 = .error e)) := by
  intro whole unit answer answerAt asked askedAt
  have hcorresponds := minimize_corresponds hlt hscale htol iterations steps
  have hpoints : askedAt.map (pointAt lo hi) = asked := hcorresponds.map_points answer hear s
  have hlength := congrArg List.length hpoints
  rw [List.length_map] at hlength
  refine ⟨hlength, hpoints, hcorresponds.events_eq answer hear s, ?_⟩
  obtain ⟨s', ⟨m, m', hm, hunit, hwhole⟩ | ⟨e, hunit, hwhole⟩⟩ := hcorresponds.run answer hear s
  · change unit.run answerAt hear s = _ at hunit
    change whole.run answer hear s = _ at hwhole
    rw [hunit, hwhole]
    exact ⟨rfl, .inl ⟨m, m', rfl, rfl, hm⟩⟩
  · change unit.run answerAt hear s = _ at hunit
    change whole.run answer hear s = _ at hwhole
    have hcap := caps_of_error hlt htol (fun x s => ⟨_, _, rfl⟩) hwhole
    rw [hunit, hwhole]
    exact ⟨rfl, .inr ⟨hcap, e, rfl, rfl⟩⟩

/-- A parabola that rises from one call to the next, between two and five, and its cube between zero
and one. -/
theorem minimize_rescales_cubed :
    let f : ℝ → ℕ → ℝ × ℕ := fun x calls => ((x - 3) ^ 2 + calls, calls + 1)
    let whole := minimize (⟨1 / 10, 20, 5⟩ : LineSearchParams ℝ) 2 5
    let unit := minimize (⟨1 / 10 / (5 - 2), 20, 5⟩ : LineSearchParams ℝ) 0 1
    ∃ m m', (unit.run (fun u calls => (.ok ((f (2 + (5 - 2) * u) calls).1 ^ 3), calls + 1))
        (fun _ calls => calls) 0).1 = .ok m ∧
      (whole.run (fun x calls => (.ok (f x calls).1, calls + 1)) (fun _ calls => calls) 0).1 =
        .ok m' ∧
      m'.x = 2 + (5 - 2) * m.x ∧ m.f = m'.f ^ 3 ∧ m.evaluations = m'.evaluations := by
  intro f whole unit
  have hcube : StrictMono fun v : ℝ => v ^ 3 := Odd.strictMono_pow (by decide)
  obtain ⟨-, -, -, -, ⟨m, m', hunit, hwhole, hm⟩ | ⟨hcap, -⟩⟩ :=
    minimize_rescales (show (2 : ℝ) < 5 by norm_num) (show (0 : ℝ) < 1 / 10 by norm_num) hcube 20 5
      f (fun _ calls => calls) 0
  · exact ⟨m, m', hunit, hwhole, hm.x_eq, hm.f_eq, hm.evaluations_eq⟩
  · omega

end FrequencySampling.GoldenSection
