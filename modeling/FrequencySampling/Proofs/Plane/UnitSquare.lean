import FrequencySampling.Proofs.GoldenSection.Frames
import FrequencySampling.Proofs.Plane.Notices
import FrequencySampling.Proofs.Session.Conduct
import FrequencySampling.Proofs.SlotLine

/-!
A direction search stays inside the unit square, in exact arithmetic and whatever it hears. The
search itself does not tell the level of an iteration, so a variant that names it with every
question stands beside it, equal to it once the levels are dropped. Two of the three lines of an
iteration keep to their level, the third is cut to the square, and its minimum is the next level.
-/

namespace FrequencySampling

theorem PlaneSearchParams.bounds_of_check {direction : PlaneSearchParams ℝ}
    (h : direction.check = .ok ()) :
    direction.tweakFactor ∈ Set.Ioo (0 : ℝ) 1 ∧ direction.startLevel ∈ Set.Ioc (0 : ℝ) 1 ∧
      0 ≤ direction.minLineSeparation := by
  obtain ⟨htweak, hstart, -, -, hseparation⟩ := PlaneSearchParams.accepts_iff.mp h
  simp only [Scalar.isNaN_real, Bool.false_eq_true, false_or, not_or, not_le, not_lt]
    at htweak hstart hseparation
  exact ⟨htweak, hstart, hseparation⟩

namespace PlaneSearch

section Levels

variable {α : Type} [Scalar α]

/-- `descend`, naming the level of the iteration with every question. -/
def descendLevels (params : LineSearchParams α) (direction : PlaneSearchParams α) (rippleTol : α) :
    (remaining outer : Nat) → (y previous : α) → (best : Option (Vertex α)) →
      Search α (α × LinePoint α) (Descent α)
  | 0, outer, y, previous, best => do
    let v ← (iterate params direction outer y).mapPoints (Prod.mk y)
    return ⟨better best v, decide (Scalar.abs (previous - v.objective) < rippleTol), outer⟩
  | remaining + 1, outer, y, previous, best => do
    let v ← (iterate params direction outer y).mapPoints (Prod.mk y)
    if Scalar.abs (previous - v.objective) < rippleTol then
      return ⟨better best v, true, outer⟩
    else
      descendLevels params direction rippleTol remaining (outer + 1) v.y v.objective
        (some (better best v))

/-- `search`, naming the level of the iteration with every question. -/
def searchLevels (params : LineSearchParams α) (direction : PlaneSearchParams α)
    (transitions : Nat) : Search α (α × LinePoint α) (Descent α) := do
  Search.ofOutcome direction.check
  Search.ofOutcome params.check
  if transitions ≠ 2 then Search.fail (.invalidParameter (.planeSearch transitions))
  let descent ← descendLevels params direction (direction.rippleTolOr params.tol)
    (direction.maxOuterIterations - 1) 1 direction.startLevel noEarlierMinimum none
  if !descent.converged then Search.post .planeCapped
  return descent

theorem mapPoints_descendLevels (params : LineSearchParams α) (direction : PlaneSearchParams α)
    (rippleTol : α) (remaining outer : Nat) (y previous : α) (best : Option (Vertex α)) :
    (descendLevels params direction rippleTol remaining outer y previous best).mapPoints Prod.snd =
      descend params direction rippleTol remaining outer y previous best := by
  induction remaining generalizing outer y previous best with
  | zero =>
      simp only [descendLevels, descend, Search.mapPoints_bind, Search.mapPoints_mapPoints]
      exact congrArg (· >>= _) (Search.mapPoints_id _)
  | succ remaining ih =>
      simp only [descendLevels, descend, Search.mapPoints_bind, Search.mapPoints_mapPoints]
      refine congrArg₂ (· >>= ·) (Search.mapPoints_id _) (funext fun v => ?_)
      split
      · rfl
      · exact ih (outer + 1) v.y v.objective (some (better best v))

theorem mapPoints_searchLevels (params : LineSearchParams α) (direction : PlaneSearchParams α)
    (transitions : Nat) :
    (searchLevels params direction transitions).mapPoints Prod.snd =
      search params direction transitions := by
  unfold searchLevels search
  rw [Search.mapPoints_bind]
  refine congrArg₂ (· >>= ·) rfl (funext fun _ => ?_)
  rw [Search.mapPoints_bind]
  refine congrArg₂ (· >>= ·) rfl (funext fun _ => ?_)
  split
  · rfl
  · rw [Search.mapPoints_bind, mapPoints_descendLevels]
    refine congrArg₂ (· >>= ·) rfl (funext fun descent => ?_)
    split <;> rfl

end Levels

/-- Two values, both in the unit interval. -/
def InSquare (values : List ℝ) : Prop :=
  ∃ x ∈ Set.Icc (0 : ℝ) 1, ∃ y ∈ Set.Icc (0 : ℝ) 1, values = [x, y]

/-- What is asked lies in the unit square, at a level of the unit interval. -/
def squareTerms : Search.Terms ℝ (ℝ × LinePoint ℝ) where
  asks p := p.1 ∈ Set.Icc 0 1 ∧ InSquare (p.2.line.values p.2.rho)

variable {params : LineSearchParams ℝ} {direction : PlaneSearchParams ℝ}

/-- The values at a vertex. -/
def Vertex.values (v : Vertex ℝ) : List ℝ :=
  [v.x, v.y]

theorem inSquare_better {best : Option (Vertex ℝ)} {v : Vertex ℝ} (hv : InSquare v.values)
    (hbest : ∀ b, best = some b → InSquare b.values) : InSquare (better best v).values := by
  unfold PlaneSearch.better
  cases best with
  | none => exact hv
  | some b =>
      dsimp only
      split
      · exact hv
      · exact hbest b rfl

theorem along_within {t : Search.Terms ℝ (LinePoint ℝ)} {line : SlotLine ℝ} {lo hi : ℝ}
    (hp : params.check = .ok ()) (hlt : lo < hi) (hasks : ∀ rho ∈ Set.Icc lo hi, t.asks ⟨line, rho⟩)
    (htells : ∀ n, t.tells n) : (along params line lo hi).Obeys t fun m => m.x ∈ Set.Ioo lo hi := by
  have hminimize : (GoldenSection.minimize params lo hi).Obeys (t.comap (LinePoint.mk line))
      fun m => m.x ∈ Set.Ioo lo hi :=
    GoldenSection.minimize_within hp hlt hasks (htells _) (htells _)
  unfold along
  refine hminimize.mapPoints.bind fun m hm => ?_
  exact (Search.Obeys.post_notice (htells _)).bind fun _ _ => hm

theorem inSquare_pair {x y : ℝ} :
    InSquare [x, y] ↔ x ∈ Set.Icc (0 : ℝ) 1 ∧ y ∈ Set.Icc (0 : ℝ) 1 := by
  simp [InSquare]

/-- On a line over `x` the parameter is the first value. -/
theorem values_overX (second : LineSlot ℝ) (rho : ℝ) :
    (overX second).values rho = [rho, second.value rho] := by
  simp [overX, SlotLine.values, LineSlot.value]

theorem inSquare_values_iff {second : LineSlot ℝ} {rho : ℝ} :
    InSquare ((overX second).values rho) ↔ SlotLine.InUnitCube (overX second).slots rho := by
  rw [values_overX, inSquare_pair]
  simp [SlotLine.InUnitCube, overX, LineSlot.value]

/-- A line over `x` at a fixed level is inside the square from zero to one. -/
theorem inSquare_level {y : ℝ} (hy : y ∈ Set.Icc (0 : ℝ) 1) {rho : ℝ}
    (hrho : rho ∈ Set.Icc (0 : ℝ) 1) : InSquare ((overX ⟨y, 0⟩).values rho) :=
  ⟨rho, hrho, y, hy, by rw [values_overX, LineSlot.value_of_not_moving rfl]⟩

theorem clipped_exact {separation : ℝ} {line : SlotLine ℝ} {lo hi : ℝ} (hpos : 0 ≤ separation)
    (h : clipped? separation line = some (lo, hi)) :
    lo < hi ∧ ∀ rho, lo ≤ rho ∧ rho ≤ hi ↔ SlotLine.InUnitCube line.slots rho := by
  unfold clipped? at h
  split at h
  · rename_i lo' hi' hdomain
    split at h
    · rename_i hlong
      cases h
      exact ⟨by linarith, SlotLine.unitDomain_exact hdomain⟩
    · cases h
  · cases h

theorem iterate_within (hp : params.check = .ok ()) (hd : direction.check = .ok ()) (outer : ℕ)
    {y : ℝ} (hy : y ∈ Set.Icc (0 : ℝ) 1) :
    (iterate params direction outer y).Obeys (squareTerms.comap (Prod.mk y)) fun v =>
      InSquare v.values := by
  obtain ⟨⟨htweak0, htweak1⟩, -, hseparation⟩ := PlaneSearchParams.bounds_of_check hd
  have htweaked : y * direction.tweakFactor ∈ Set.Icc (0 : ℝ) 1 :=
    ⟨mul_nonneg hy.1 htweak0.le, mul_le_one₀ hy.2 htweak0.le htweak1.le⟩
  have hlevel : ∀ level ∈ Set.Icc (0 : ℝ) 1, (along params (overX ⟨level, 0⟩) 0 1).Obeys
      (squareTerms.comap (Prod.mk y)) fun _ => True := by
    intro level hlevel
    have hasks : ∀ rho ∈ Set.Icc (0 : ℝ) 1,
        (squareTerms.comap (Prod.mk y)).asks ⟨overX ⟨level, 0⟩, rho⟩ := fun rho hrho =>
      ⟨hy, inSquare_level hlevel hrho⟩
    exact (along_within hp one_pos hasks fun _ => trivial).mono fun _ _ => trivial
  unfold iterate
  refine (hlevel y hy).bind fun m1 _ => ?_
  refine (hlevel _ htweaked).bind fun m2 _ => ?_
  refine Search.Obeys.guard (fun _ => trivial) fun _ => ?_
  dsimp only
  generalize fittedSlot y _ _ = second
  split
  · exact Search.Obeys.fail trivial
  · rename_i lo hi hclipped
    obtain ⟨hlt, hexact⟩ := clipped_exact hseparation hclipped
    have hasks : ∀ rho ∈ Set.Icc lo hi,
        (squareTerms.comap (Prod.mk y)).asks ⟨overX second, rho⟩ := fun rho hrho =>
      ⟨hy, inSquare_values_iff.mpr ((hexact rho).mp hrho)⟩
    refine Search.Obeys.postIf trivial ?_
    refine (along_within hp hlt hasks fun _ => trivial).bind fun third hthird => ?_
    refine (Search.Obeys.post_notice trivial).bind fun _ _ => ?_
    have hinside := (hexact third.x).mp ⟨hthird.1.le, hthird.2.le⟩
    rwa [← inSquare_values_iff, values_overX] at hinside

theorem descendLevels_within (hp : params.check = .ok ()) (hd : direction.check = .ok ())
    (rippleTol : ℝ) {remaining outer : ℕ} {y previous : ℝ} {best : Option (Vertex ℝ)}
    (hy : y ∈ Set.Icc (0 : ℝ) 1) (hbest : ∀ b, best = some b → InSquare b.values) :
    (descendLevels params direction rippleTol remaining outer y previous best).Obeys squareTerms
      fun d => InSquare d.best.values := by
  induction remaining generalizing outer y previous best with
  | zero =>
      refine (iterate_within hp hd outer hy).mapPoints.bind fun v hv => ?_
      exact inSquare_better hv hbest
  | succ remaining ih =>
      refine (iterate_within hp hd outer hy).mapPoints.bind fun v hv => ?_
      split
      · exact inSquare_better hv hbest
      · obtain ⟨hx, hlevel⟩ := inSquare_pair.mp hv
        refine ih hlevel fun b hb => ?_
        cases hb
        exact inSquare_better hv hbest

theorem searchLevels_within (params : LineSearchParams ℝ) (direction : PlaneSearchParams ℝ)
    (transitions : ℕ) :
    (searchLevels params direction transitions).Obeys squareTerms fun d =>
      InSquare d.best.values := by
  unfold searchLevels
  refine (Search.Obeys.ofOutcome fun _ _ => trivial).bind fun _ hd => ?_
  refine (Search.Obeys.ofOutcome fun _ _ => trivial).bind fun _ hp => ?_
  refine Search.Obeys.guard (fun _ => trivial) fun _ => ?_
  obtain ⟨-, ⟨hstart0, hstart1⟩, -⟩ := PlaneSearchParams.bounds_of_check hd
  refine (descendLevels_within hp hd _ ⟨hstart0.le, hstart1⟩ fun b hb => ?_).bind
    fun d hdescent => ?_
  · cases hb
  · exact Search.Obeys.postIf trivial hdescent

theorem events_searchLevels_within {σ : Type} (answer : LinePoint ℝ → σ → Outcome ℝ ℝ × σ)
    (hear : Notice ℝ → σ → σ) (params : LineSearchParams ℝ) (direction : PlaneSearchParams ℝ)
    (transitions : ℕ) (s : σ) :
    (∀ y p a, .asked (y, p) a ∈ (searchLevels params direction transitions).events
        (fun p => answer p.2) hear s → y ∈ Set.Icc 0 1 ∧ InSquare (p.line.values p.rho)) ∧
    ∀ d s', (search params direction transitions).run answer hear s = (.ok d, s') →
      InSquare d.best.values := by
  have htranscript := Search.transcript_events (fun p => answer p.2) hear
    (searchLevels params direction transitions) s
  obtain ⟨hasks, -, hgives⟩ :=
    (searchLevels_within params direction transitions).transcript htranscript fun _ _ _ => trivial
  refine ⟨fun y p a hin => hasks (y, p) a hin, fun d s' hrun => hgives d ?_⟩
  rw [← mapPoints_searchLevels, Search.run_mapPoints] at hrun
  rw [hrun]

theorem trialsSince_searchPlane_within (params : LineSearchParams ℝ)
    (direction : PlaneSearchParams ℝ) {s : Session ℝ} (hs : s.spectrum.WellFormed) {t : Trial ℝ}
    (ht : t ∈ Session.trialsSince s (Session.searchPlane params direction s).2) :
    InSquare t.transitions := by
  have hconducted := Session.conducted_conduct
    (search params direction s.spectrum.numTransitions) hs
  have hsilent := (search_silent params direction s.spectrum.numTransitions).transcript
    (Search.transcript_events Session.tryLine Session.hear _ s) fun _ _ _ => trivial
  rw [Session.trialsSince, Session.journalSince, Session.journal_searchPlane] at ht
  change t ∈ Session.trialsSince s (Session.conduct Session.tryLine _ s).2 at ht
  rw [hconducted.trialsSince_eq hsilent.2.1, ← mapPoints_searchLevels,
    Search.events_mapPoints] at ht
  obtain ⟨e, he, htrial⟩ := List.mem_filterMap.mp ht
  obtain ⟨levelled, hin, rfl⟩ := List.mem_map.mp he
  cases levelled with
  | told n => cases htrial
  | asked p a =>
      cases a with
      | error e => cases htrial
      | ok v =>
          cases htrial
          exact ((events_searchLevels_within Session.tryLine Session.hear params direction _ s).1
            p.1 p.2 (.ok v) hin).2

/-- Whatever the objective does, no level and no trial leaves the unit square, and neither does a
result. In a session the trials are what the half spectrum held at its evaluations. -/
theorem search_within_unitSquare (params : LineSearchParams ℝ) (direction : PlaneSearchParams ℝ) :
    (∀ (transitions : ℕ) (σ : Type) (answer : LinePoint ℝ → σ → Outcome ℝ ℝ × σ)
        (hear : Notice ℝ → σ → σ) (s : σ),
      (searchLevels params direction transitions).run (fun p => answer p.2) hear s =
        (search params direction transitions).run answer hear s ∧
      (∀ y p a, .asked (y, p) a ∈ (searchLevels params direction transitions).events
          (fun p => answer p.2) hear s → y ∈ Set.Icc 0 1 ∧ InSquare (p.line.values p.rho)) ∧
      ∀ d s', (search params direction transitions).run answer hear s = (.ok d, s') →
        InSquare [d.best.x, d.best.y]) ∧
    ∀ s : Session ℝ, s.spectrum.WellFormed → ∀ r s',
      Session.searchPlane params direction s = (r, s') →
        (∀ t ∈ Session.trialsSince s s', InSquare t.transitions) ∧
        ∀ m, r = .ok m → InSquare [m.x, m.y] := by
  refine ⟨fun transitions σ answer hear s => ⟨?_, ?_⟩, fun s hs r s' hrun => ⟨fun t ht => ?_, ?_⟩⟩
  · rw [← mapPoints_searchLevels, Search.run_mapPoints]
  · exact events_searchLevels_within answer hear params direction transitions s
  · refine trialsSince_searchPlane_within params direction hs ?_
    rwa [hrun]
  · rintro m rfl
    obtain ⟨d, s'', hconduct, rfl, -⟩ := Session.searchPlane_eq_ok hrun
    exact (events_searchLevels_within Session.tryLine Session.hear params direction _ s).2 d s''
      hconduct

/-- A direction search over the transition samples of a lowpass with seven taps. -/
theorem search_within_unitSquare_seven_taps :
    ∀ t ∈ Session.trialsSince (Session.start ⟨⟨7, .lowpass, .typeI, .twoBand 0 3⟩, #[1, 0, 0, 0]⟩
        ⟨32, .decibel, .amplitude⟩ .unbounded)
      (Session.searchPlane (α := ℝ) .default .default
        (Session.start ⟨⟨7, .lowpass, .typeI, .twoBand 0 3⟩, #[1, 0, 0, 0]⟩
          ⟨32, .decibel, .amplitude⟩ .unbounded)).2,
      InSquare t.transitions :=
  ((search_within_unitSquare .default .default).2 _ ⟨rfl, rfl⟩ _ _ rfl).1

end PlaneSearch
end FrequencySampling
