import FrequencySampling.Proofs.Plane.Coincidence
import FrequencySampling.Proofs.Plane.UnitSquare
import FrequencySampling.Proofs.StopbandLevel
import FrequencySampling.Proofs.TransitionWrites
import FrequencySampling.Proofs.UnitDomain

/-!
The line that a direction search fits through two axis minima, in exact arithmetic. It passes
through both minima, which are strictly inside the square, and it goes on a little beyond the second
one; so the part of it inside the square is longer than the minima are apart. A search therefore
degenerates only where its axis minima are too close, and the line is never cut down to nothing.
-/

namespace FrequencySampling

open Search (Event Transcript)

/-- The errors that find fault with a line: its axis minima are too close, or there is no room to
search on it. -/
inductive LineFault {α : Type} : DesignError α → Prop
  | degenerate (x1 x2) : LineFault (.degenerateLine x1 x2)
  | empty (lo hi) : LineFault (.invalidParameter (.emptyDomain lo hi))

namespace PlaneSearch

section Fit

variable {y tweak x1 x2 : ℝ}

/-- Along the fitted line, counting from the second minimum in steps of the distance that leads
there from the first. -/
theorem value_fitted (y tweak : ℝ) (hne : x1 ≠ x2) (step : ℝ) :
    (fittedSlot y (fittedSlope y tweak x1 x2) x1).value (x2 + step * (x2 - x1)) =
      y * (tweak - step * (1 - tweak)) := by
  have hsub : x1 - x2 ≠ 0 := sub_ne_zero.mpr hne
  rw [LineSlot.value, fittedSlot, fittedSlope]
  field_simp
  ring

theorem value_fitted_first (y tweak x1 x2 : ℝ) :
    (fittedSlot y (fittedSlope y tweak x1 x2) x1).value x1 = y := by
  rw [LineSlot.value, fittedSlot]
  ring

theorem value_fitted_second (y tweak : ℝ) (hne : x1 ≠ x2) :
    (fittedSlot y (fittedSlope y tweak x1 x2) x1).value x2 = y * tweak := by
  simpa using value_fitted y tweak hne 0

/-- A step so small that the fitted line is still inside the square after it. -/
noncomputable def overshoot (tweak x2 : ℝ) : ℝ :=
  min tweak (min x2 (1 - x2))

theorem overshoot_pos (htweak : 0 < tweak) (hx2 : x2 ∈ Set.Ioo (0 : ℝ) 1) :
    0 < overshoot tweak x2 :=
  lt_min htweak (lt_min hx2.1 (sub_pos.mpr hx2.2))

theorem inUnitCube_fitted {second : LineSlot ℝ} {rho : ℝ} (hrho : rho ∈ Set.Icc (0 : ℝ) 1)
    (hvalue : second.value rho ∈ Set.Icc (0 : ℝ) 1) :
    SlotLine.InUnitCube (overX second).slots rho := by
  rw [← inSquare_values_iff, values_overX, inSquare_pair]
  exact ⟨hrho, hvalue⟩

/-- The fitted line is still inside the square a step beyond the second minimum. -/
theorem inUnitCube_beyond (hy : y ∈ Set.Icc (0 : ℝ) 1) (htweak : tweak ∈ Set.Ioo (0 : ℝ) 1)
    (hx1 : x1 ∈ Set.Ioo (0 : ℝ) 1) (hx2 : x2 ∈ Set.Ioo (0 : ℝ) 1) (hne : x1 ≠ x2) :
    SlotLine.InUnitCube (overX (fittedSlot y (fittedSlope y tweak x1 x2) x1)).slots
      (x2 + overshoot tweak x2 * (x2 - x1)) := by
  have hpos := overshoot_pos htweak.1 hx2
  have htweaked : overshoot tweak x2 ≤ tweak := min_le_left _ _
  have hbelow : overshoot tweak x2 ≤ x2 := (min_le_right _ _).trans (min_le_left _ _)
  have habove : overshoot tweak x2 ≤ 1 - x2 := (min_le_right _ _).trans (min_le_right _ _)
  generalize overshoot tweak x2 = step at *
  refine inUnitCube_fitted ?_ ?_
  · constructor <;> nlinarith [hx1.1, hx1.2, hx2.1, hx2.2]
  · rw [value_fitted y tweak hne]
    have hshrinks : 0 ≤ step * (1 - tweak) := mul_nonneg hpos.le (sub_nonneg.mpr htweak.2.le)
    have hleft : step * (1 - tweak) ≤ tweak :=
      (mul_le_of_le_one_right hpos.le (by linarith [htweak.1])).trans htweaked
    have hlevel : 0 ≤ tweak - step * (1 - tweak) := sub_nonneg.mpr hleft
    have hlevel1 : tweak - step * (1 - tweak) ≤ 1 := by linarith [htweak.2]
    exact ⟨mul_nonneg hy.1 hlevel, mul_le_one₀ hy.2 hlevel hlevel1⟩

/-- A line through the minima at two levels, with room inside the square beyond both. -/
structure FitsSquare (y tweak x1 x2 : ℝ) (line : SlotLine ℝ) : Prop where
  first : line.values x1 = [x1, y]
  second : line.values x2 = [x2, y * tweak]
  domain : ∃ lo hi, line.unitDomain? = some (lo, hi) ∧ lo ≤ min x1 x2 ∧ max x1 x2 ≤ hi ∧
    |x1 - x2| < hi - lo

theorem fitsSquare_fitted (hy : y ∈ Set.Icc (0 : ℝ) 1) (htweak : tweak ∈ Set.Ioo (0 : ℝ) 1)
    (hx1 : x1 ∈ Set.Ioo (0 : ℝ) 1) (hx2 : x2 ∈ Set.Ioo (0 : ℝ) 1) (hne : x1 ≠ x2) :
    FitsSquare y tweak x1 x2 (overX (fittedSlot y (fittedSlope y tweak x1 x2) x1)) := by
  have hfirst := value_fitted_first y tweak x1 x2
  have hsecond := value_fitted_second y tweak hne
  have hbeyond := inUnitCube_beyond hy htweak hx1 hx2 hne
  generalize fittedSlot y (fittedSlope y tweak x1 x2) x1 = slot at *
  refine ⟨by rw [values_overX, hfirst], by rw [values_overX, hsecond], ?_⟩
  have htweaked : y * tweak ∈ Set.Icc (0 : ℝ) 1 :=
    ⟨mul_nonneg hy.1 htweak.1.le, mul_le_one₀ hy.2 htweak.1.le htweak.2.le⟩
  have hinside1 : SlotLine.InUnitCube (overX slot).slots x1 :=
    inUnitCube_fitted ⟨hx1.1.le, hx1.2.le⟩ (hfirst.symm ▸ hy)
  have hinside2 : SlotLine.InUnitCube (overX slot).slots x2 :=
    inUnitCube_fitted ⟨hx2.1.le, hx2.2.le⟩ (hsecond.symm ▸ htweaked)
  obtain ⟨⟨lo, hi⟩, hdomain⟩ : ∃ d, (overX slot).unitDomain? = some d := by
    rw [← Option.isSome_iff_exists, SlotLine.unitDomain_isSome_iff]
    exact ⟨⟨⟨0, 1⟩, List.mem_cons_self, one_ne_zero⟩, x1, hinside1⟩
  have hexact := SlotLine.unitDomain_exact hdomain
  obtain ⟨hlo1, hhi1⟩ := (hexact x1).mpr hinside1
  obtain ⟨hlo2, hhi2⟩ := (hexact x2).mpr hinside2
  obtain ⟨hlo3, hhi3⟩ := (hexact _).mpr hbeyond
  refine ⟨lo, hi, hdomain, le_min hlo1 hlo2, max_le hhi1 hhi2, ?_⟩
  have hpos := overshoot_pos htweak.1 hx2
  -- The point beyond is farther from the first minimum than the second one is.
  rcases hne.lt_or_gt with hlt | hgt
  · have hstep : 0 < overshoot tweak x2 * (x2 - x1) := mul_pos hpos (sub_pos.mpr hlt)
    rw [abs_of_neg (sub_neg.mpr hlt)]
    linarith
  · have hstep : overshoot tweak x2 * (x2 - x1) < 0 := mul_neg_of_pos_of_neg hpos (sub_neg.mpr hgt)
    rw [abs_of_pos (sub_pos.mpr hgt)]
    linarith

/-- Minima that are far enough apart leave the fitted line longer than the separation. -/
theorem FitsSquare.clipped {line : SlotLine ℝ} (h : FitsSquare y tweak x1 x2 line)
    {separation : ℝ} (hapart : separation ≤ |x1 - x2|) :
    ∃ lo hi, clipped? separation line = some (lo, hi) ∧ lo < hi := by
  obtain ⟨lo, hi, hdomain, -, -, hlong⟩ := h.domain
  refine ⟨lo, hi, ?_, ?_⟩
  · simp only [clipped?, hdomain, if_pos (hapart.trans_lt hlong)]
  · linarith [abs_nonneg (x1 - x2)]

end Fit

section Runs

variable {params : LineSearchParams ℝ} {direction : PlaneSearchParams ℝ}
  {es es' : List (Event ℝ (LinePoint ℝ))} {e : DesignError ℝ}

/-- A line search on an empty interval fails at once. -/
theorem along_of_empty (hp : params.check = .ok ()) (line : SlotLine ℝ) {lo hi : ℝ}
    (hempty : hi ≤ lo) :
    along params line lo hi = Search.fail (.invalidParameter (.emptyDomain lo hi)) := by
  have hguard : !Scalar.isFinite lo ∨ !Scalar.isFinite hi ∨ hi ≤ lo := .inr (.inr hempty)
  unfold along GoldenSection.minimize GoldenSection.opening
  rw [hp, if_pos hguard]
  rfl

/-- Anything may pass, but the search itself finds no fault. -/
def faultless : Search.Terms ℝ (LinePoint ℝ) where
  fails _ := False

theorem along_faultless (hp : params.check = .ok ()) (line : SlotLine ℝ) {lo hi : ℝ}
    (hlt : lo < hi) : (along params line lo hi).Obeys faultless fun m => m.x ∈ Set.Ioo lo hi :=
  along_within hp hlt (fun _ _ => trivial) fun _ => trivial

/-- A line search on an interval fails with its objective only. -/
theorem asked_of_along_error {line : SlotLine ℝ} {lo hi : ℝ} (hp : params.check = .ok ())
    (hlt : lo < hi) (h : Transcript (along params line lo hi) es (.error e)) :
    ∃ p, .asked p (.error e) ∈ es :=
  ((along_faultless hp line hlt).transcript_error h fun _ _ _ => trivial).resolve_right id

theorem mem_of_along {line : SlotLine ℝ} {lo hi : ℝ} {m : LineMinimum ℝ}
    (hp : params.check = .ok ()) (hlt : lo < hi)
    (h : Transcript (along params line lo hi) es (.ok m)) : m.x ∈ Set.Ioo lo hi :=
  ((along_faultless hp line hlt).transcript h fun _ _ _ => trivial).2.2 m rfl

/-- What ends a direction search: an error of the objective, or two axis minima that are too
close. -/
inductive Blames (direction : PlaneSearchParams ℝ) (es : List (Event ℝ (LinePoint ℝ))) :
    DesignError ℝ → Prop
  | objective {p e} (h : .asked p (.error e) ∈ es) : Blames direction es e
  | close {k m1 m2} (haxes : AxisMinima (minima es) k m1 m2)
      (hclose : |m1.x - m2.x| < direction.minLineSeparation) :
      Blames direction es (.degenerateLine m1.x m2.x)

namespace Blames

/-- An iteration in front, which is three line searches. -/
theorem append (h : Blames direction es' e) (hes : (minima es).length = 3) :
    Blames direction (es ++ es') e := by
  cases h with
  | objective h => exact .objective (List.mem_append_right es h)
  | @close k m1 m2 haxes hclose =>
      refine .close (k := k + 1) ⟨?_, ?_⟩ hclose
      · rw [minima_append, List.getElem?_append_right (by omega), hes,
          show 3 * (k + 1) - 3 = 3 * k by omega]
        exact haxes.first
      · rw [minima_append, List.getElem?_append_right (by omega), hes,
          show 3 * (k + 1) + 1 - 3 = 3 * k + 1 by omega]
        exact haxes.second

end Blames

theorem iterate_blames (hp : params.check = .ok ()) (hd : direction.check = .ok ())
    (hseparation : 0 < direction.minLineSeparation) {outer : ℕ} {y : ℝ}
    (hy : y ∈ Set.Icc (0 : ℝ) 1)
    (h : Transcript (iterate params direction outer y) es (.error e)) : Blames direction es e := by
  obtain ⟨htweak, -, -⟩ := PlaneSearchParams.bounds_of_check hd
  unfold iterate at h
  obtain ⟨_, he, h1⟩ | ⟨es1, m1, rest1, h1, hrest1, rfl⟩ := h.bind_cases
  · cases he
    obtain ⟨p, hasked⟩ := asked_of_along_error hp one_pos h1
    exact .objective hasked
  obtain ⟨_, he, h2⟩ | ⟨es2, m2, rest2, h2, hrest2, rfl⟩ := hrest1.bind_cases
  · cases he
    obtain ⟨p, hasked⟩ := asked_of_along_error hp one_pos h2
    exact .objective (List.mem_append_right es1 hasked)
  obtain ⟨hclose, rfl, he⟩ | ⟨hapart, hrest3⟩ := hrest2.guard_cases
  · cases he
    have haxes : AxisMinima (minima (es1 ++ (es2 ++ []))) 0 m1 m2 := by
      rw [minima_append, minima_append, (minima_of_along h1).1, (minima_of_along h2).1]
      exact ⟨rfl, rfl⟩
    exact .close haxes hclose
  -- Minima that are far enough apart leave room for the third line search.
  have hne : m1.x ≠ m2.x := by
    intro heq
    rw [heq, sub_self, Scalar.abs_real, abs_zero] at hapart
    exact hapart hseparation
  have hfits := fitsSquare_fitted hy htweak (mem_of_along hp one_pos h1)
    (mem_of_along hp one_pos h2) hne
  obtain ⟨lo, hi, hclipped, hlt⟩ := hfits.clipped (not_lt.mp hapart)
  simp only [hclipped] at hrest3
  obtain ⟨clip, rest3, -, hthird, rfl⟩ := Transcript.of_postIf hrest3
  obtain ⟨_, he, h3⟩ | ⟨es3, m3, rest4, h3, hdone, rfl⟩ := hthird.bind_cases
  · cases he
    obtain ⟨p, hasked⟩ := asked_of_along_error hp hlt h3
    exact .objective (List.mem_append_right es1
      (List.mem_append_right es2 (List.mem_append_right clip hasked)))
  · cases hdone with
    | posted hdone => cases hdone

/-- The level that an iteration passes on is in the unit interval. -/
theorem level_of_iterate (hp : params.check = .ok ()) (hd : direction.check = .ok ()) {outer : ℕ}
    {y : ℝ} (hy : y ∈ Set.Icc (0 : ℝ) 1) {v : Vertex ℝ}
    (h : Transcript (iterate params direction outer y) es (.ok v)) : v.y ∈ Set.Icc (0 : ℝ) 1 :=
  (inSquare_pair.mp (((iterate_within hp hd outer hy).transcript h fun _ _ _ => trivial).2.2 v
    rfl)).2

theorem descend_blames (hp : params.check = .ok ()) (hd : direction.check = .ok ())
    (hseparation : 0 < direction.minLineSeparation) {rippleTol : ℝ} {remaining outer : ℕ}
    {y previous : ℝ} {best : Option (Vertex ℝ)} (hy : y ∈ Set.Icc (0 : ℝ) 1)
    (h : Transcript (descend params direction rippleTol remaining outer y previous best) es
      (.error e)) : Blames direction es e := by
  induction remaining generalizing outer y previous best es with
  | zero =>
      obtain ⟨_, he, hfailed⟩ | ⟨before, v, after, -, hdone, rfl⟩ := h.bind_cases
      · cases he
        exact iterate_blames hp hd hseparation hy hfailed
      · cases hdone
  | succ remaining ih =>
      obtain ⟨_, he, hfailed⟩ | ⟨before, v, after, hiterate, hgoes, rfl⟩ := h.bind_cases
      · cases he
        exact iterate_blames hp hd hseparation hy hfailed
      · split at hgoes
        · cases hgoes
        · have hrest := ih (level_of_iterate hp hd hy hiterate) hgoes
          exact hrest.append ((iterate_keepsApart hiterate).2 v rfl)

/-- A search of two transition samples that fails has something to blame. -/
theorem search_blames (hp : params.check = .ok ()) (hd : direction.check = .ok ())
    (hseparation : 0 < direction.minLineSeparation) {transitions : ℕ}
    (h : Transcript (search params direction transitions) es (.error e)) :
    transitions ≠ 2 ∧ e = .invalidParameter (.planeSearch transitions) ∨ Blames direction es e := by
  obtain ⟨-, hstart, -⟩ := PlaneSearchParams.bounds_of_check hd
  unfold search at h
  obtain ⟨_, -, hcheck⟩ | ⟨_, _, rest1, hcheck, h1, rfl⟩ := h.bind_cases
  · cases hcheck.of_ofOutcome.2.trans hd
  obtain ⟨rfl, -⟩ := hcheck.of_ofOutcome
  obtain ⟨_, -, hcheck'⟩ | ⟨_, _, rest2, hcheck', h2, rfl⟩ := h1.bind_cases
  · cases hcheck'.of_ofOutcome.2.trans hp
  obtain ⟨rfl, -⟩ := hcheck'.of_ofOutcome
  obtain ⟨hcount, -, he⟩ | ⟨-, h3⟩ := h2.guard_cases
  · cases he
    exact .inl ⟨hcount, rfl⟩
  obtain ⟨_, he, hfailed⟩ | ⟨before, d, after, -, hdone, rfl⟩ := h3.bind_cases
  · cases he
    exact .inr (descend_blames hp hd hseparation ⟨hstart.1.le, hstart.2⟩ hfailed)
  · obtain ⟨_, rest, -, hlast, -⟩ := Transcript.of_postIf hdone
    cases hlast

theorem blames_of_lineFault (hp : params.check = .ok ()) (hd : direction.check = .ok ())
    (hseparation : 0 < direction.minLineSeparation) {transitions : ℕ} (he : LineFault e)
    (h : Transcript (search params direction transitions) es (.error e)) :
    Blames direction es e := by
  obtain ⟨-, rfl⟩ | hblames := search_blames hp hd hseparation h
  · cases he
  · exact hblames

end Runs
end PlaneSearch

namespace Session

open PlaneSearch

section AnyArithmetic

variable {α : Type} [Scalar α]

/-- The objective of a session finds fault with the filter, never with a line. -/
theorem not_lineFault_of_tryLine {p : LinePoint α} {s : Session α} {e : DesignError α}
    (h : (tryLine p s).1 = .error e) : ¬ LineFault e := by
  have hcases := attempted (·.setOnLine p.line p.rho) p.rho s
  rw [← tryLine_eq] at hcases
  generalize tryLine p s = o at h hcases
  cases hcases with
  | cancelled | expired | notFinite =>
      cases h
      rintro ⟨⟩
  | made => cases h
  | unmeasured _ _ _ hm =>
      cases h
      cases ResponseGrid.untold_of_stopbandLevel hm <;> rintro ⟨⟩
  | refused _ _ hc =>
      cases h
      rw [(TransitionWrite.error_of_apply (w := .onLine p.line p.rho) hc).2]
      rintro ⟨⟩

/-- Leaving the best vertex finds no fault with a line either. -/
theorem conduct_of_searchPlane_error {params : LineSearchParams α}
    {direction : PlaneSearchParams α} {s : Session α} {e : DesignError α} (he : LineFault e)
    (h : (searchPlane params direction s).1 = .error e) :
    (conduct tryLine (search params direction s.spectrum.numTransitions) s).1 = .error e := by
  rw [searchPlane_eq] at h
  generalize conduct tryLine (search params direction s.spectrum.numTransitions) s = run at h ⊢
  obtain ⟨_ | d, s'⟩ := run
  · cases h
    rfl
  · dsimp only at h
    split at h
    · rename_i hset
      cases h
      rw [(TransitionWrite.error_of_apply (w := .all [d.best.x, d.best.y]) hset).2] at he
      cases he
    · cases h

end AnyArithmetic

/-- In a session a line is found fault with only where its axis minima are too close. -/
theorem close_of_lineFault {params : LineSearchParams ℝ} {direction : PlaneSearchParams ℝ}
    (hp : params.check = .ok ()) (hd : direction.check = .ok ())
    (hseparation : 0 < direction.minLineSeparation) {s : Session ℝ} (hs : s.spectrum.WellFormed)
    {e : DesignError ℝ} (he : LineFault e) (h : (searchPlane params direction s).1 = .error e) :
    ∃ k m1 m2, AxisMinima ((journalSince s (searchPlane params direction s).2).filterMap
        Notice.lineMinimum?) k m1 m2 ∧
      |m1.x - m2.x| < direction.minLineSeparation ∧ e = .degenerateLine m1.x m2.x := by
  have hrun := conduct_of_searchPlane_error he h
  have htranscript := Search.transcript_events tryLine hear
    (search params direction s.spectrum.numTransitions) s
  rw [show ((search params direction s.spectrum.numTransitions).run tryLine hear s).1 = .error e
    from hrun] at htranscript
  rw [journalSince_searchPlane params direction hs, Event.minima_of_notices]
  cases blames_of_lineFault hp hd hseparation he htranscript with
  | objective hasked =>
      obtain ⟨t, ht⟩ := Search.answer_of_mem_events tryLine hear hasked
      exact absurd he (not_lineFault_of_tryLine ht)
  | close haxes hclose => exact ⟨_, _, _, haxes, hclose, rfl⟩

/-- In exact arithmetic the fitted line is sound, for any two minima that a line search can give; so
a direction search blames its line only where two axis minima are too close, and an empty domain,
which would end it with an error of its own, never comes up. -/
theorem fitted_line_sound :
    (∀ y ∈ Set.Icc (0 : ℝ) 1, ∀ tweak ∈ Set.Ioo (0 : ℝ) 1, ∀ x1 ∈ Set.Ioo (0 : ℝ) 1,
      ∀ x2 ∈ Set.Ioo (0 : ℝ) 1, x1 ≠ x2 →
        FitsSquare y tweak x1 x2 (overX (fittedSlot y (fittedSlope y tweak x1 x2) x1))) ∧
    ∀ (params : LineSearchParams ℝ) (direction : PlaneSearchParams ℝ),
      params.check = .ok () → direction.check = .ok () → 0 < direction.minLineSeparation →
      (∀ (line : SlotLine ℝ) (lo hi : ℝ), hi ≤ lo → along params line lo hi =
        Search.fail (.invalidParameter (.emptyDomain lo hi))) ∧
      (∀ {σ : Type} (answer : LinePoint ℝ → σ → Outcome ℝ ℝ × σ) (hear : Notice ℝ → σ → σ)
        (transitions : ℕ) (s : σ) (e : DesignError ℝ), LineFault e →
        ((search params direction transitions).run answer hear s).1 = .error e →
          Blames direction ((search params direction transitions).events answer hear s) e) ∧
      ∀ s : Session ℝ, s.spectrum.WellFormed →
        (∀ x1 x2, (searchPlane params direction s).1 = .error (.degenerateLine x1 x2) →
          |x1 - x2| < direction.minLineSeparation ∧ ∃ k m1 m2,
            AxisMinima ((journalSince s (searchPlane params direction s).2).filterMap
              Notice.lineMinimum?) k m1 m2 ∧ m1.x = x1 ∧ m2.x = x2) ∧
        ∀ lo hi, (searchPlane params direction s).1 ≠
          .error (.invalidParameter (.emptyDomain lo hi)) := by
  refine ⟨fun y hy tweak htweak x1 hx1 x2 hx2 hne => fitsSquare_fitted hy htweak hx1 hx2 hne,
    fun params direction hp hd hseparation => ⟨fun line lo hi hempty => ?_, ?_,
      fun s hs => ⟨fun x1 x2 h => ?_, fun lo hi h => ?_⟩⟩⟩
  · exact along_of_empty hp line hempty
  · intro σ answer hear transitions s e he h
    have htranscript := Search.transcript_events answer hear
      (search params direction transitions) s
    rw [h] at htranscript
    exact blames_of_lineFault hp hd hseparation he htranscript
  · obtain ⟨k, m1, m2, haxes, hclose, heq⟩ :=
      close_of_lineFault hp hd hseparation hs (.degenerate x1 x2) h
    cases heq
    exact ⟨hclose, k, m1, m2, haxes, rfl, rfl⟩
  · obtain ⟨k, m1, m2, -, -, heq⟩ := close_of_lineFault hp hd hseparation hs (.empty lo hi) h
    cases heq

/-- A falling line through the middle of the square, and a session with a separation of a tenth. -/
theorem fitted_line_sound_at_half :
    let params : LineSearchParams ℝ := ⟨1, 1, 1⟩
    let direction : PlaneSearchParams ℝ := ⟨1 / 2, 1, none, 1, 1 / 10⟩
    let s : Session ℝ := .start ⟨⟨8, .lowpass, .typeII, .twoBand 0 3⟩, #[1, 0, 0, 0, 0]⟩
      ⟨32, .decibel, .amplitude⟩ .unbounded
    params.check = .ok () ∧ direction.check = .ok () ∧ 0 < direction.minLineSeparation ∧
      s.spectrum.WellFormed ∧
      FitsSquare 1 (1 / 2) (1 / 2) (3 / 4)
        (overX (fittedSlot 1 (fittedSlope 1 (1 / 2) (1 / 2) (3 / 4)) (1 / 2))) ∧
      ∀ lo hi, (searchPlane params direction s).1 ≠
        .error (.invalidParameter (.emptyDomain lo hi)) := by
  have hs : (⟨⟨8, .lowpass, .typeII, .twoBand 0 3⟩, #[1, 0, 0, 0, 0]⟩ :
      HalfSpectrum ℝ).WellFormed := ⟨rfl, rfl⟩
  intro params direction s
  have hp : params.check = .ok () := by
    rw [LineSearchParams.accepts_iff]
    simp [params]
  have hd : direction.check = .ok () := by
    rw [PlaneSearchParams.accepts_iff]
    refine ⟨by norm_num [direction], by norm_num [direction], fun tol h => ?_,
      by norm_num [direction], by norm_num [direction]⟩
    cases h
  have hseparation : 0 < direction.minLineSeparation := by norm_num [direction]
  obtain ⟨hfits, hruns⟩ := fitted_line_sound
  obtain ⟨-, -, hsessions⟩ := hruns params direction hp hd hseparation
  refine ⟨hp, hd, hseparation, hs, ?_, (hsessions s hs).2⟩
  exact hfits 1 (by norm_num) (1 / 2) (by norm_num) (1 / 2) (by norm_num) (3 / 4) (by norm_num)
    (by norm_num)

end Session
end FrequencySampling
