import FrequencySampling.Proofs.Design.Stages
import FrequencySampling.Proofs.Plane.Outcome
import FrequencySampling.Proofs.ZeroSign
import Mathlib.Order.Bounds.Basic

/-!
What a search for the best transition samples leaves behind. The half spectrum is left at values
that were tried, and its stopband peak is the one that was then heard: the value of the only line
search over one sample, and the least value of the fitted line searches over two. On a fitted line
the trial wrote the first sample multiplied by one and added to zero, so there the half spectrum
that is left may differ from the one that was tried by the sign of a zero, which no magnitude shows.
-/

namespace FrequencySampling

variable {α : Type}

namespace Session

/-- The trials that were reported, in order. -/
def trials (s : Session α) : List (Trial α) :=
  s.journal.toList.filterMap Notice.trial?

/-- The line searches that were reported as finished, in order. -/
def minima (s : Session α) : List (LineMinimum α) :=
  s.journal.toList.filterMap Notice.lineMinimum?

theorem minima_hear (n : Notice α) (s : Session α) :
    (hear n s).minima = s.minima ++ n.lineMinimum?.toList := by
  rw [minima, hear, Array.toList_push, List.filterMap_append, minima]
  cases n <;> rfl

variable {s s' t t' : Session α}

/-- Only transition samples were written, and no line search was finished. -/
structure Underway (s s' : Session α) : Prop where
  grid_eq : s'.grid = s.grid
  agrees : s.spectrum.AgreesOff s.spectrum.geometry.IsTransition s'.spectrum
  minima_eq : s'.minima = s.minima

theorem Underway.hear (h : Underway s t) {n : Notice α} (hn : n.lineMinimum? = none) :
    Underway s (Session.hear n t) := by
  refine ⟨h.grid_eq, h.agrees, ?_⟩
  rw [minima_hear, hn, Option.toList_none, List.append_nil, h.minima_eq]

variable [Scalar α]

/-- The single transition sample is written anew in each trial, so a value depends on it alone. -/
theorem Underway.tryScalar (h : Underway s t) (hone : s.spectrum.numTransitions = 1) {x v : α}
    (htry : tryScalar x t = (.ok v, t')) :
    s.grid.stopbandLevel (s.spectrum.writeSlots 0 [x]) = .ok v ∧ Underway s t' := by
  have hcases := attempted (fun u : HalfSpectrum α => u.setScalar x) x t
  rw [← tryScalar_eq, htry] at hcases
  cases hcases with
  | @made u _ _ _ hc hlevel _ =>
      have hsome : t.spectrum.numTransitions ≠ 0 := by
        rw [h.agrees.numTransitions_eq, hone]
        exact Nat.one_ne_zero
      have hlength : [x].length = s.spectrum.numTransitions := hone.symm
      have hwritten : s.spectrum.writeSlots 0 [x] = u := by
        rw [HalfSpectrum.setScalar, if_neg hsome] at hc
        rw [h.agrees.writeSlots_eq hlength]
        exact Except.ok.inj hc
      have hkept : Underway s (t.checked.holding u) := by
        refine ⟨h.grid_eq, ?_, h.minima_eq⟩
        rw [← hwritten]
        exact HalfSpectrum.agreesOff_of_writeSlots (Nat.le_of_eq hlength)
      rw [h.grid_eq, ← hwritten] at hlevel
      exact ⟨hlevel, ⟨hkept.grid_eq, hkept.agrees, (hkept.hear rfl).minima_eq⟩⟩

theorem searchScalar_optimum {params : LineSearchParams α} {m : LineMinimum α}
    (h : searchScalar params s = (.ok m, s')) :
    s'.minima = s.minima ++ [m] ∧ s.grid.stopbandLevel s'.spectrum = .ok m.f := by
  obtain ⟨hone, t, hconduct, rfl⟩ := searchScalar_eq_ok h
  have hsearch := GoldenSection.minimize_answered
    (fun x v => s.grid.stopbandLevel (s.spectrum.writeSlots 0 [x]) = .ok v) params 0 1
  obtain ⟨hlevel, hunderway⟩ := hsearch.run (Underway s) (fun x v t t' ht => ht.tryScalar hone)
    (fun n t ht hn => ht.hear (by rcases hn with rfl | rfl <;> rfl)) ⟨rfl, .refl _, rfl⟩ hconduct
  have hlength : [m.x].length = s.spectrum.numTransitions := hone.symm
  refine ⟨?_, ?_⟩
  · rw [minima_hear]
    exact congrArg (· ++ [m]) hunderway.minima_eq
  · rw [hunderway.agrees.writeSlots_eq hlength] at hlevel
    exact hlevel

end Session

variable [Scalar α]

theorem LineMinimum.isLeast_of_first [Scalar.ComparesNumbers α] {first : LineMinimum α}
    {earlier later : List (LineMinimum α)}
    (hfinite : ∀ m ∈ earlier ++ first :: later, Scalar.isFinite m.f)
    (hearlier : ∀ m ∈ earlier, first.f < m.f) (hlater : ∀ m ∈ later, ¬ m.f < first.f) :
    IsLeast (LineMinimum.f '' {m | m ∈ earlier ++ first :: later}) first.f := by
  have hnumber := fun m hm => Scalar.OrdersNumbers.isNaN_of_isFinite (hfinite m hm)
  have hfirst := List.mem_append_right earlier (List.mem_cons_self (a := first) (l := later))
  refine ⟨⟨first, hfirst, rfl⟩, ?_⟩
  rintro _ ⟨m, hm, rfl⟩
  rcases List.mem_append.mp hm with hin | hin
  · exact Scalar.ComparesNumbers.le_of_lt (hearlier m hin)
  · rcases List.mem_cons.mp hin with rfl | hin
    · exact Scalar.ComparesNumbers.le_refl (hnumber m hm)
    · exact Scalar.ComparesNumbers.le_of_not_lt (hnumber first hfirst) (hnumber m hm) (hlater m hin)

namespace PlaneSearch

theorem Rounds.everyThird_minima {es : List (Search.Event α (LinePoint α))}
    {previous : Option (Vertex α)} {rounds : List (Round α)} {best : Vertex α}
    (h : Rounds es previous rounds best) :
    everyThird ((es.filterMap Search.Event.notice?).filterMap Notice.lineMinimum?) =
      rounds.map (·.2.2) := by
  obtain ⟨searches, htells, hthirds, -⟩ := h.tells
  rw [htells.minima_eq, everyThird_map, hthirds, List.map_map]
  rfl

/-- The best of some rounds is the least of their minima, and a vertex of one of them. -/
theorem Rounds.isLeast [Scalar.ComparesNumbers α] {es : List (Search.Event α (LinePoint α))}
    {rounds : List (Round α)} {best : Vertex α} (h : Rounds es none rounds best)
    (hfinite : ∀ round ∈ rounds, Scalar.isFinite round.1.objective) :
    (∃ third, (best, third) ∈ rounds) ∧
      IsLeast (LineMinimum.f '' {m | m ∈ rounds.map (·.2.2)}) best.objective := by
  obtain ⟨earlier, third, later, hin, hsplit, hearlier, hlater⟩ := h.best_first hfinite
  have hminima : rounds.map (·.2.2) = earlier.map (·.2) ++ third.2 :: later.map (·.2) := by
    rw [← List.map_cons, ← List.map_append, ← hsplit, List.map_map]
    rfl
  have hbest : third.2.f = best.objective := (h.attained _ hin).f_eq
  refine ⟨⟨third, hin⟩, ?_⟩
  rw [hminima, ← hbest]
  refine LineMinimum.isLeast_of_first ?_ ?_ ?_
  · rw [← hminima]
    refine List.forall_mem_map.mpr fun round hround => ?_
    rw [(h.attained round hround).f_eq]
    exact hfinite round hround
  · exact List.forall_mem_map.mpr fun other hother => hbest ▸ hearlier other hother
  · exact List.forall_mem_map.mpr fun other hother => hbest ▸ hlater other hother

end PlaneSearch

namespace Session

open Scalar (SameNumber IgnoresZeroSign)

variable {s s' : Session α}

/-- A direction search is a run of rounds, after which the best vertex is written. -/
theorem searchPlane_rounds {params : LineSearchParams α} {direction : PlaneSearchParams α}
    {m : PlaneMinimum α} (hs : s.spectrum.WellFormed)
    (h : searchPlane params direction s = (.ok m, s')) :
    ∃ es t rounds best, Conducted s es t ∧ (∀ n, .told n ∈ es → n.trial? = none) ∧
      PlaneSearch.Rounds es none rounds best ∧
      s' = t.holding (t.spectrum.writeSlots 0 [best.x, best.y]) := by
  obtain ⟨d, t, hconduct, -, -, hleft⟩ := searchPlane_eq_ok h
  have hconducted := conducted_conduct
    (PlaneSearch.search params direction s.spectrum.numTransitions) hs
  have htranscript := Search.transcript_events tryLine hear
    (PlaneSearch.search params direction s.spectrum.numTransitions) s
  change Search.Transcript _ _ (conduct tryLine _ s).1 at htranscript
  rw [hconduct] at hconducted htranscript
  have hsilent := ((PlaneSearch.search_silent params direction _).transcript htranscript
    fun _ _ _ => trivial).2.1
  obtain ⟨rounds, hrounds, -⟩ := PlaneSearch.search_rounds htranscript
  exact ⟨_, t, rounds, d.best, hconducted, hsilent, hrounds, hleft⟩

theorem searchPlane_optimum [Scalar.ComparesNumbers α] [IgnoresZeroSign α]
    {params : LineSearchParams α} {direction : PlaneSearchParams α} {m : PlaneMinimum α}
    (hs : s.spectrum.WellFormed) (h : searchPlane params direction s = (.ok m, s')) :
    ∃ finished peak, s'.minima = s.minima ++ finished ∧
      finished.length = 3 * (everyThird finished).length ∧
      s.grid.stopbandLevel s'.spectrum = .ok peak ∧
      IsLeast (LineMinimum.f '' {m | m ∈ everyThird finished}) peak := by
  obtain ⟨es, t, rounds, best, hconducted, hsilent, hrounds, rfl⟩ := searchPlane_rounds hs h
  have hmeasured := fun round hin =>
    hconducted.trial_measured (hrounds.trial_mem hsilent round hin)
  obtain ⟨⟨third, hbest⟩, hleast⟩ := hrounds.isLeast fun round hin => (hmeasured round hin).2.2
  obtain ⟨hlength, hlevel, -⟩ := hmeasured _ hbest
  -- The trial at the best vertex wrote `0 + x * 1`, and what is left in its place is `x`.
  have hsame : (s.spectrum.writeSlots 0 [0 + best.x * 1, best.y]).Same
      (s.spectrum.writeSlots 0 [best.x, best.y]) :=
    (HalfSpectrum.Same.refl _).writeSlots 0
      (.cons (IgnoresZeroSign.zero_add_mul_one _) (.cons (.refl _) .nil))
  have hwritten := hconducted.agrees.writeSlots_eq
    (show [best.x, best.y].length = s.spectrum.numTransitions from hlength)
  have hthirds := hrounds.everyThird_minima
  obtain ⟨searches, htells, -, hcount⟩ := hrounds.tells
  refine ⟨(es.filterMap Search.Event.notice?).filterMap Notice.lineMinimum?, best.objective,
    ?_, ?_, ?_, ?_⟩
  · exact (congrArg _ hconducted.journal_eq).trans List.filterMap_append
  · rw [hthirds, htells.minima_eq, List.length_map, List.length_map, hcount]
  · change s.grid.stopbandLevel (t.spectrum.writeSlots 0 _) = _
    rw [← hwritten, ← hsame.stopbandLevel_eq]
    exact hlevel
  · rwa [hthirds]

end Session
end FrequencySampling
