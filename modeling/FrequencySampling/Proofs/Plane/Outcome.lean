import FrequencySampling.Proofs.FiniteOrder
import FrequencySampling.Proofs.Plane.LineSearches

/-!
What a direction search that ends well has done. Its best vertex is the first of the least minima
on the fitted lines, it accounts for every evaluation, and the half spectrum it leaves has the
stopband peak that was heard at that vertex. The arithmetic may be any in which finite numbers are
ordered; nothing is assumed of its operations but that the best parameter is not changed by being
multiplied by one and added to zero.
-/

namespace FrequencySampling

variable {α : Type} [Scalar α]

namespace PlaneSearch

open Search (Event Transcript)

/-- The best of some vertices and of the best before them. -/
def bestOf (best : Option (Vertex α)) (vs : List (Vertex α)) : Option (Vertex α) :=
  vs.foldl (fun b v => some (better b v)) best

section Best

variable [Scalar.OrdersFinite α]

/-- Either nothing beats the first vertex, or the best is the first least of the others. -/
theorem bestOf_some {b best : Vertex α} {vs : List (Vertex α)} (hb : Scalar.isFinite b.objective)
    (hfinite : ∀ v ∈ vs, Scalar.isFinite v.objective) (h : bestOf (some b) vs = some best) :
    (best = b ∧ ∀ v ∈ vs, ¬ v.objective < b.objective) ∨
    ∃ earlier later, vs = earlier ++ best :: later ∧ best.objective < b.objective ∧
      (∀ v ∈ earlier, best.objective < v.objective) ∧
      ∀ v ∈ later, ¬ v.objective < best.objective := by
  induction vs generalizing b with
  | nil =>
      cases h
      exact .inl ⟨rfl, fun v hv => absurd hv List.not_mem_nil⟩
  | cons v vs ih =>
      have hv := hfinite v List.mem_cons_self
      have hvs := fun w hw => hfinite w (List.mem_cons_of_mem v hw)
      by_cases hlt : v.objective < b.objective
      · have hstep : bestOf (some v) vs = some best := by
          rwa [bestOf, List.foldl_cons, better, if_pos hlt] at h
        rcases ih hv hvs hstep with ⟨rfl, hrest⟩ | ⟨earlier, later, rfl, hbest, hearlier, hlater⟩
        · exact .inr ⟨[], vs, rfl, hlt, fun w hw => absurd hw List.not_mem_nil, hrest⟩
        · have hfin := hvs best (List.mem_append_right _ List.mem_cons_self)
          have hbelow : best.objective < b.objective :=
            (Scalar.OrdersFinite.lt_or_lt hv hfin hb hlt).resolve_left
              (Scalar.OrdersFinite.not_lt_of_lt hfin hv hbest)
          exact .inr ⟨v :: earlier, later, rfl, hbelow,
            List.forall_mem_cons.mpr ⟨hbest, hearlier⟩, hlater⟩
      · have hstep : bestOf (some b) vs = some best := by
          rwa [bestOf, List.foldl_cons, better, if_neg hlt] at h
        rcases ih hb hvs hstep with ⟨rfl, hrest⟩ | ⟨earlier, later, rfl, hbest, hearlier, hlater⟩
        · exact .inl ⟨rfl, List.forall_mem_cons.mpr ⟨hlt, hrest⟩⟩
        · have hfin := hvs best (List.mem_append_right _ List.mem_cons_self)
          have hbelow : best.objective < v.objective :=
            (Scalar.OrdersFinite.lt_or_lt hfin hv hb hbest).resolve_right hlt
          exact .inr ⟨v :: earlier, later, rfl, hbest,
            List.forall_mem_cons.mpr ⟨hbelow, hearlier⟩, hlater⟩

theorem bestOf_first {best : Vertex α} {vs : List (Vertex α)}
    (hfinite : ∀ v ∈ vs, Scalar.isFinite v.objective) (h : bestOf none vs = some best) :
    ∃ earlier later, vs = earlier ++ best :: later ∧
      (∀ v ∈ earlier, best.objective < v.objective) ∧
      ∀ v ∈ later, ¬ v.objective < best.objective := by
  cases vs with
  | nil => cases h
  | cons v vs =>
      obtain ⟨hv, hvs⟩ := List.forall_mem_cons.mp hfinite
      rcases bestOf_some hv hvs h with ⟨rfl, hrest⟩ | ⟨earlier, later, rfl, hbest, hearlier, hlater⟩
      · exact ⟨[], vs, rfl, fun w hw => absurd hw List.not_mem_nil, hrest⟩
      · exact ⟨v :: earlier, later, rfl, List.forall_mem_cons.mpr ⟨hbest, hearlier⟩, hlater⟩

end Best

/-- An iteration's vertex, with the third line search of the iteration. -/
abbrev Round (α : Type) := Vertex α × (List (Trial α) × LineMinimum α)

/-- The rounds that some events went through, ending with the best vertex of them and of those
before. -/
structure Rounds (es : List (Event α (LinePoint α))) (previous : Option (Vertex α))
    (rounds : List (Round α)) (best : Vertex α) : Prop where
  tells : ∃ searches, Tells es searches ∧ everyThird searches = rounds.map (·.2) ∧
    searches.length = 3 * rounds.length
  attained : ∀ round ∈ rounds, Attained round.1 round.2
  best_eq : bestOf previous (rounds.map (·.1)) = some best

theorem Rounds.cons {es es' : List (Event α (LinePoint α))} {previous : Option (Vertex α)}
    {rounds : List (Round α)} {v best : Vertex α}
    {first second third : List (Trial α) × LineMinimum α}
    (h : Tells es [first, second, third]) (hv : Attained v third)
    (hrest : Rounds es' (some (better previous v)) rounds best) :
    Rounds (es ++ es') previous ((v, third) :: rounds) best := by
  obtain ⟨⟨searches, htells, hthirds, hlength⟩, hattained, hbest⟩ := hrest
  refine ⟨⟨_, h.append htells, congrArg (third :: ·) hthirds, ?_⟩,
    List.forall_mem_cons.mpr ⟨hv, hattained⟩, hbest⟩
  rw [List.length_append, hlength]
  simp only [List.length_cons, List.length_nil]
  omega

theorem Rounds.last (best : Vertex α) :
    Rounds ([] : List (Event α (LinePoint α))) (some best) [] best :=
  ⟨⟨[], .nil, rfl, rfl⟩, fun _ h => absurd h List.not_mem_nil, rfl⟩

/-- A trial at the vertex of every round is among the trials of the events. -/
theorem Rounds.trial_mem {es : List (Event α (LinePoint α))} {previous : Option (Vertex α)}
    {rounds : List (Round α)} {best : Vertex α} (h : Rounds es previous rounds best)
    (hsilent : ∀ n, .told n ∈ es → n.trial? = none) :
    ∀ round ∈ rounds, ⟨round.1.x, [0 + round.1.x * 1, round.1.y], round.1.objective⟩ ∈
      es.filterMap Event.trial? := by
  intro round hround
  obtain ⟨searches, htells, hthirds, -⟩ := h.tells
  have hsearch : round.2 ∈ lineSearches (es.filterMap Event.notice?) := by
    rw [htells.lineSearches_eq]
    refine mem_of_mem_everyThird ?_
    rw [hthirds]
    exact List.mem_map_of_mem hround
  rw [← Event.trials_of_notices hsilent]
  exact (trial_mem_of_lineSearchesFrom hsearch (h.attained round hround).trial_mem).resolve_left
    List.not_mem_nil

theorem Rounds.best_first [Scalar.OrdersFinite α] {es : List (Event α (LinePoint α))}
    {rounds : List (Round α)} {best : Vertex α} (h : Rounds es none rounds best)
    (hfinite : ∀ round ∈ rounds, Scalar.isFinite round.1.objective) :
    ∃ earlier third later, (best, third) ∈ rounds ∧ rounds.map (·.2) = earlier ++ third :: later ∧
      (∀ other ∈ earlier, best.objective < other.2.f) ∧
      ∀ other ∈ later, ¬ other.2.f < best.objective := by
  have hvertices : ∀ v ∈ rounds.map (·.1), Scalar.isFinite v.objective := by
    intro v hv
    obtain ⟨round, hround, rfl⟩ := List.mem_map.mp hv
    exact hfinite round hround
  obtain ⟨earlier, later, hsplit, hearlier, hlater⟩ := bestOf_first hvertices h.best_eq
  obtain ⟨before, rest, rfl, rfl, hrest⟩ := List.map_eq_append_iff.mp hsplit
  obtain ⟨⟨v, third⟩, after, rfl, rfl, rfl⟩ := List.map_eq_cons_iff.mp hrest
  refine ⟨before.map (·.2), third, after.map (·.2), ?_, ?_, fun other hother => ?_,
    fun other hother => ?_⟩
  · exact List.mem_append_right _ List.mem_cons_self
  · rw [List.map_append, List.map_cons]
  · obtain ⟨round, hround, rfl⟩ := List.mem_map.mp hother
    rw [(h.attained round (List.mem_append_left _ hround)).f_eq]
    exact hearlier round.1 (List.mem_map_of_mem hround)
  · obtain ⟨round, hround, rfl⟩ := List.mem_map.mp hother
    have hin := List.mem_append_right before (List.mem_cons_of_mem (v, third) hround)
    rw [(h.attained round hin).f_eq]
    exact hlater round.1 (List.mem_map_of_mem hround)

theorem descend_rounds {params : LineSearchParams α} {direction : PlaneSearchParams α}
    {rippleTol : α} {remaining outer : Nat} {y previous : α} {best : Option (Vertex α)}
    {es : List (Event α (LinePoint α))} {d : Descent α}
    (h : Transcript (descend params direction rippleTol remaining outer y previous best) es
      (.ok d)) :
    ∃ rounds, Rounds es best rounds d.best ∧ d.outerIterations + 1 = outer + rounds.length := by
  induction remaining generalizing outer y previous best es with
  | zero =>
      obtain ⟨es1, v, _, hiterate, hdone, rfl⟩ := Transcript.of_bind h
      obtain ⟨rfl, hd⟩ := hdone.of_pure
      cases hd
      obtain ⟨first, second, third, htells, hv⟩ := iterate_tells hiterate
      exact ⟨_, .cons htells hv (.last _), rfl⟩
  | succ remaining ih =>
      obtain ⟨es1, v, rest, hiterate, hgoes, rfl⟩ := Transcript.of_bind h
      obtain ⟨first, second, third, htells, hv⟩ := iterate_tells hiterate
      split at hgoes
      · obtain ⟨rfl, hd⟩ := hgoes.of_pure
        cases hd
        exact ⟨_, .cons htells hv (.last _), rfl⟩
      · obtain ⟨rounds, hrounds, hcount⟩ := ih hgoes
        refine ⟨_, .cons htells hv hrounds, ?_⟩
        rw [List.length_cons]
        omega

theorem search_rounds {params : LineSearchParams α} {direction : PlaneSearchParams α}
    {transitions : Nat} {es : List (Event α (LinePoint α))} {d : Descent α}
    (h : Transcript (search params direction transitions) es (.ok d)) :
    ∃ rounds, Rounds es none rounds d.best ∧ d.outerIterations = rounds.length := by
  unfold search at h
  obtain ⟨es1, _, _, hcheck, h, hes⟩ := Transcript.of_bind h
  obtain ⟨es2, _, _, hcheck', h, hes'⟩ := Transcript.of_bind h
  obtain ⟨-, h⟩ := Transcript.of_guard h
  obtain ⟨es3, d', _, hdescend, h, hes''⟩ := Transcript.of_bind h
  obtain ⟨warning, _, hwarning, h, hes3⟩ := Transcript.of_postIf h
  obtain ⟨hes4, hd⟩ := h.of_pure
  cases hd
  obtain ⟨rounds, ⟨⟨searches, htells, hthirds, hlength⟩, hattained, hbest⟩, hcount⟩ :=
    descend_rounds hdescend
  have hwarning : Tells warning [] := by
    rcases hwarning with rfl | rfl
    · exact .nil
    · exact .aside rfl rfl
  have hall : Tells es searches := by
    rw [hes, hes', hes'', hes3, hes4, hcheck.of_ofOutcome.1, hcheck'.of_ofOutcome.1,
      List.append_nil]
    have htogether := htells.append hwarning
    rwa [List.append_nil] at htogether
  exact ⟨rounds, ⟨⟨searches, hall, hthirds, hlength⟩, hattained, hbest⟩, by omega⟩

end PlaneSearch

namespace Session

open PlaneSearch (Attained)

/-- What a direction search over a session has done when it gives back a minimum. -/
structure FoundBest (s s' : Session α) (r : PlaneMinimum α) : Prop where
  searches_eq : ((journalSince s s').filterMap Notice.lineMinimum?).length = 3 * r.outerIterations
  best : ∃ earlier trials minimum later,
    everyThird (lineSearches (journalSince s s')) = earlier ++ (trials, minimum) :: later ∧
    minimum.x = r.x ∧ minimum.f = r.objective ∧ ⟨r.x, [r.x, r.y], r.objective⟩ ∈ trials ∧
    (∀ other ∈ earlier, r.objective < other.2.f) ∧ ∀ other ∈ later, ¬ other.2.f < r.objective
  evaluations_eq : r.evaluations = (trialsSince s s').length
  evaluations_sum : r.evaluations =
    (((journalSince s s').filterMap Notice.lineMinimum?).map (·.evaluations)).sum
  transitions_eq : s'.spectrum.transitionValues = [r.x, r.y]
  objective_eq : s'.grid.stopbandLevel s'.spectrum = .ok r.objective

/-- A direction search brings back the first of the least minima on its fitted lines, and leaves the
half spectrum at it. The first sample was tried at `0 + x * 1`, so `x` has to come out of that as it
is. -/
theorem searchPlane_foundBest [Scalar.OrdersFinite α] {params : LineSearchParams α}
    {direction : PlaneSearchParams α} {s s' : Session α} {r : PlaneMinimum α}
    (hs : s.spectrum.WellFormed) (hrun : searchPlane params direction s = (.ok r, s'))
    (hx : 0 + r.x * 1 = r.x) : FoundBest s s' r := by
  obtain ⟨d, s'', hconduct, rfl, htwo, rfl⟩ := searchPlane_eq_ok hrun
  have hconducted := conducted_conduct
    (PlaneSearch.search params direction s.spectrum.numTransitions) hs
  have htranscript := Search.transcript_events tryLine hear
    (PlaneSearch.search params direction s.spectrum.numTransitions) s
  change Search.Transcript _ _ (conduct tryLine _ s).1 at htranscript
  rw [hconduct] at hconducted htranscript
  have hsilent := ((PlaneSearch.search_silent params direction _).transcript htranscript
    fun _ _ _ => trivial).2.1
  generalize (PlaneSearch.search params direction s.spectrum.numTransitions).events tryLine hear s
    = es at *
  obtain ⟨rounds, hrounds, houter⟩ := PlaneSearch.search_rounds htranscript
  have hmeasured := fun round hin =>
    hconducted.trial_measured (hrounds.trial_mem hsilent round hin)
  obtain ⟨earlier, third, later, hthird, hsplit, hearlier, hlater⟩ :=
    hrounds.best_first fun round hin => (hmeasured round hin).2.2
  obtain ⟨hxeq, hfeq, htrial⟩ := hrounds.attained _ hthird
  obtain ⟨hlength, hlevel, -⟩ := hmeasured _ hthird
  obtain ⟨searches, htells, hthirds, hcount⟩ := hrounds.tells
  dsimp only at hx hxeq hfeq htrial hlength hlevel
  rw [hx] at htrial hlevel hlength
  have hjournal : journalSince s (s''.holding (s''.spectrum.writeSlots 0 [d.best.x, d.best.y])) =
      es.filterMap Search.Event.notice? := journalSince_eq hconducted.journal_eq
  have hevaluations : s''.evaluations - s.evaluations =
      (es.filterMap Search.Event.trial?).length := by
    rw [hconducted.evaluations_eq, Nat.add_sub_cancel_left]
  have hwritten := hconducted.agrees.writeSlots_eq hlength
  refine ⟨?_, ⟨earlier, third.1, third.2, later, ?_, hxeq, hfeq, htrial, hearlier, hlater⟩, ?_, ?_,
    ?_, ?_⟩
  · rw [hjournal, htells.minima_eq, List.length_map, hcount, houter]
  · rw [hjournal, htells.lineSearches_eq, hthirds, hsplit]
  · rw [trialsSince, hjournal, Search.Event.trials_of_notices hsilent]
    exact hevaluations
  · rw [hjournal, htells.minima_eq, List.map_map]
    exact hevaluations.trans htells.count
  · exact HalfSpectrum.transitionValues_writeSlots (hs.of_agreesOff hconducted.agrees) htwo.symm
  · change s''.grid.stopbandLevel (s''.spectrum.writeSlots 0 _) = _
    rw [← hwritten, hconducted.grid_eq]
    exact hlevel

open RationalArithmetic in
/-- A direction search that ends well. Rational coordinates are tried as they are. -/
theorem searchPlane_foundBest_rational :
    ∃ r s', searchPlane line direction (session .unbounded) = (.ok r, s') ∧
      FoundBest (session .unbounded) s' r := by
  have hok : (searchPlane line direction (session .unbounded)).1.isOk = true := by decide +kernel
  cases hrun : searchPlane line direction (session .unbounded) with
  | mk r s' =>
      cases r with
      | error e =>
          rw [hrun] at hok
          cases hok
      | ok r =>
          refine ⟨r, s', rfl, searchPlane_foundBest ⟨rfl, rfl⟩ hrun ?_⟩
          rw [mul_one, zero_add]

end Session
end FrequencySampling
