import FrequencySampling.Proofs.Search.Transcript
import FrequencySampling.Proofs.Session.Attempt
import FrequencySampling.Proofs.Transition
import Mathlib.Data.List.Basic

/-!
What a search along lines leaves behind in its session. The journal grows by the search's events,
one trial for every answer, and the counter by the number of trials. The half spectrum changes at
its transitions only, so every answer is the stopband peak of the half spectrum that the search
began with, moved to the point of the trial.
-/

namespace FrequencySampling

variable {α ρ : Type}

namespace HalfSpectrum

theorem checked_slots_eq (s u : HalfSpectrum α) (given : Nat) :
    (do s.checkSlotCount given; return u : Outcome α (HalfSpectrum α)) =
      if given = s.numTransitions then .ok u
      else .error (.invalidParameter (.slotCount s.geometry.band s.numTransitions given)) := by
  unfold checkSlotCount
  split <;> rfl

theorem checked_slots_eq_ok_iff {s t u : HalfSpectrum α} {given : Nat} :
    (do s.checkSlotCount given; return u : Outcome α (HalfSpectrum α)) = .ok t ↔
      given = s.numTransitions ∧ t = u := by
  rw [checked_slots_eq]
  split
  · rename_i h
    rw [Except.ok.injEq, eq_comm, and_iff_right h]
  · rename_i h
    refine iff_of_false (fun herror => ?_) fun hok => h hok.1
    cases herror

theorem setOnLine_eq_ok_iff [Scalar α] {s t : HalfSpectrum α} {line : SlotLine α} {rho : α} :
    s.setOnLine line rho = .ok t ↔
      line.numSlots = s.numTransitions ∧ t = s.writeSlots 0 (line.values rho) :=
  checked_slots_eq_ok_iff

theorem setTransitions_eq_ok_iff [Scalar α] {s t : HalfSpectrum α} {values : List α} :
    s.setTransitions values = .ok t ↔
      values.length = s.numTransitions ∧ t = s.writeSlots 0 values :=
  checked_slots_eq_ok_iff

end HalfSpectrum

theorem SlotLine.length_values [Scalar α] (line : SlotLine α) (rho : α) :
    (line.values rho).length = line.numSlots := by
  rw [values, List.length_map, numSlots]

namespace Search.Event

variable [Scalar α]

/-- The trial that an event amounts to, if it was answered. -/
def trial? : Event α (LinePoint α) → Option (Trial α)
  | .asked p (.ok v) => some ⟨p.rho, p.line.values p.rho, v⟩
  | .asked _ (.error _) | .told _ => none

/-- What a session enters into its journal. -/
def notice? : Event α (LinePoint α) → Option (Notice α)
  | .told n => some n
  | .asked p a => (trial? (.asked p a)).map .trial

/-- Where no trial is told, the trials entered are those that were answered. -/
theorem trials_of_notices {es : List (Event α (LinePoint α))}
    (hsilent : ∀ n, .told n ∈ es → n.trial? = none) :
    (es.filterMap notice?).filterMap Notice.trial? = es.filterMap trial? := by
  rw [List.filterMap_filterMap]
  refine List.filterMap_congr fun e he => ?_
  cases e with
  | told n => exact hsilent n he
  | asked p a => cases a <;> rfl

end Search.Event

namespace Session

variable [Scalar α] {s s' s'' : Session α}

/-- The session after the events of a search. -/
structure Conducted (s : Session α) (es : List (Search.Event α (LinePoint α))) (s' : Session α) :
    Prop where
  grid_eq : s'.grid = s.grid
  agrees : s.spectrum.AgreesOff s.spectrum.geometry.IsTransition s'.spectrum
  journal_eq : s'.journal.toList = s.journal.toList ++ es.filterMap Search.Event.notice?
  evaluations_eq : s'.evaluations = s.evaluations + (es.filterMap Search.Event.trial?).length
  measured : ∀ p v, .asked p (.ok v) ∈ es → p.line.numSlots = s.spectrum.numTransitions ∧
    s.grid.stopbandLevel (s.spectrum.writeSlots 0 (p.line.values p.rho)) = .ok v ∧
      Scalar.isFinite v = true

namespace Conducted

variable {es es' : List (Search.Event α (LinePoint α))}

theorem refl (s : Session α) : Conducted s [] s where
  grid_eq := rfl
  agrees := .refl _
  journal_eq := (List.append_nil _).symm
  evaluations_eq := rfl
  measured _ _ h := absurd h List.not_mem_nil

theorem append (h : Conducted s es s') (h' : Conducted s' es' s'') :
    Conducted s (es ++ es') s'' := by
  have hagrees := h'.agrees
  rw [← h.agrees.geometry_eq] at hagrees
  have htransitions := h.agrees.numTransitions_eq
  refine ⟨h'.grid_eq.trans h.grid_eq, h.agrees.trans hagrees, ?_, ?_, fun p v hin => ?_⟩
  · rw [h'.journal_eq, h.journal_eq, List.filterMap_append, List.append_assoc]
  · rw [h'.evaluations_eq, h.evaluations_eq, List.filterMap_append, List.length_append,
      Nat.add_assoc]
  · rcases List.mem_append.mp hin with hin | hin
    · exact h.measured p v hin
    · obtain ⟨hslots, hlevel, hfinite⟩ := h'.measured p v hin
      rw [htransitions] at hslots
      -- Only the transitions have moved since the first half spectrum, and all are written anew.
      have hwritten := h.agrees.writeSlots_eq ((p.line.length_values p.rho).trans hslots)
      rw [← hwritten, h.grid_eq] at hlevel
      exact ⟨hslots, hlevel, hfinite⟩

end Conducted

/-- A trial's value is the stopband peak at its transition values, whatever was tried before. -/
theorem Conducted.trial_measured {es : List (Search.Event α (LinePoint α))}
    (h : Conducted s es s') {t : Trial α} (ht : t ∈ es.filterMap Search.Event.trial?) :
    t.transitions.length = s.spectrum.numTransitions ∧
      s.grid.stopbandLevel (s.spectrum.writeSlots 0 t.transitions) = .ok t.objective ∧
      Scalar.isFinite t.objective = true := by
  obtain ⟨e, he, htrial⟩ := List.mem_filterMap.mp ht
  cases e with
  | told n => cases htrial
  | asked p a =>
      cases a with
      | error e => cases htrial
      | ok v =>
          cases htrial
          obtain ⟨hslots, hlevel, hfinite⟩ := h.measured p v he
          exact ⟨(p.line.length_values p.rho).trans hslots, hlevel, hfinite⟩

/-- A search that reports no trials of its own leaves the reports to its objective. -/
theorem Conducted.trialsSince_eq {es : List (Search.Event α (LinePoint α))}
    (h : Conducted s es s') (hsilent : ∀ n, .told n ∈ es → n.trial? = none) :
    trialsSince s s' = es.filterMap Search.Event.trial? := by
  rw [trialsSince, journalSince_eq h.journal_eq, Search.Event.trials_of_notices hsilent]

theorem conducted_hear (n : Notice α) (s : Session α) : Conducted s [.told n] (hear n s) where
  grid_eq := rfl
  agrees := .refl _
  journal_eq := by simp [hear, Search.Event.notice?]
  evaluations_eq := rfl
  measured _ _ h := by simp at h

theorem agreesOff_of_setOnLine {t u : HalfSpectrum α} {line : SlotLine α} {rho : α}
    (h : t.setOnLine line rho = .ok u) : t.AgreesOff t.geometry.IsTransition u := by
  obtain ⟨hslots, rfl⟩ := HalfSpectrum.setOnLine_eq_ok_iff.mp h
  exact HalfSpectrum.agreesOff_of_writeSlots
    (Nat.le_of_eq ((line.length_values rho).trans hslots))

theorem conducted_tryLine (hs : s.spectrum.WellFormed) {p : LinePoint α} {a : Outcome α α}
    (h : tryLine p s = (a, s')) : Conducted s [.asked p a] s' := by
  have hcases := attempted (fun t : HalfSpectrum α => t.setOnLine p.line p.rho) p.rho s
  rw [← tryLine_eq, h] at hcases
  cases hcases with
  | cancelled | expired | refused =>
      exact ⟨rfl, .refl _, by simp [Search.Event.notice?, Search.Event.trial?, checked], rfl,
        fun _ _ hin => by simp at hin⟩
  | unmeasured _ _ hc | notFinite _ _ hc =>
      exact ⟨rfl, agreesOff_of_setOnLine hc,
        by simp [Search.Event.notice?, Search.Event.trial?, checked, holding], rfl,
        fun _ _ hin => by simp at hin⟩
  | made _ _ hc hm hf =>
      have hagrees := agreesOff_of_setOnLine hc
      obtain ⟨hslots, rfl⟩ := HalfSpectrum.setOnLine_eq_ok_iff.mp hc
      have hread := HalfSpectrum.transitionValues_writeSlots hs
        ((p.line.length_values p.rho).trans hslots)
      refine ⟨rfl, hagrees, ?_, rfl, fun q v hin => ?_⟩
      · simp [Search.Event.notice?, Search.Event.trial?, checked, holding, reported, hear, hread]
      · simp only [List.mem_singleton, Search.Event.asked.injEq, Except.ok.injEq] at hin
        obtain ⟨rfl, rfl⟩ := hin
        exact ⟨hslots, hm, hf⟩

theorem conducted_conduct (m : Search α (LinePoint α) ρ) (hs : s.spectrum.WellFormed) :
    Conducted s (m.events tryLine hear s) (conduct tryLine m s).2 := by
  induction m generalizing s with
  | done r => exact .refl s
  | ask p next ih =>
      simp only [conduct, Search.run, Search.events]
      cases h : tryLine p s with
      | mk a s' =>
          have hfirst := conducted_tryLine hs h
          cases a with
          | error e => exact hfirst
          | ok v => exact hfirst.append (ih v (hs.of_agreesOff hfirst.agrees))
  | tell n next ih => exact (conducted_hear n s).append (ih hs)

theorem searchPlane_eq (params : LineSearchParams α) (direction : PlaneSearchParams α)
    (s : Session α) :
    searchPlane params direction s =
      match conduct tryLine (PlaneSearch.search params direction s.spectrum.numTransitions) s with
      | (.error e, s') => (.error e, s')
      | (.ok d, s') =>
        match s'.spectrum.setTransitions [d.best.x, d.best.y] with
        | .error e => (.error e, s')
        | .ok t =>
          (.ok ⟨d.best.x, d.best.y, d.best.objective, d.converged, d.outerIterations,
            s'.evaluations - s.evaluations⟩, s'.holding t) := by
  simp only [searchPlane, bind_eq, get_eq, pure_eq, leaveAt, amend_eq]
  cases conduct tryLine (PlaneSearch.search params direction s.spectrum.numTransitions) s with
  | mk d s' =>
      cases d with
      | error e => rfl
      | ok d =>
          dsimp only
          cases s'.spectrum.setTransitions [d.best.x, d.best.y] <;> rfl

/-- Leaving the best vertex enters nothing into the journal. -/
theorem journal_searchPlane (params : LineSearchParams α) (direction : PlaneSearchParams α)
    (s : Session α) :
    (searchPlane params direction s).2.journal = (conduct tryLine
      (PlaneSearch.search params direction s.spectrum.numTransitions) s).2.journal := by
  rw [searchPlane_eq]
  cases conduct tryLine (PlaneSearch.search params direction s.spectrum.numTransitions) s with
  | mk d s' =>
      cases d with
      | error e => rfl
      | ok d =>
          dsimp only
          cases s'.spectrum.setTransitions [d.best.x, d.best.y] <;> rfl

theorem searchPlane_eq_ok {params : LineSearchParams α} {direction : PlaneSearchParams α}
    {m : PlaneMinimum α} (h : searchPlane params direction s = (.ok m, s')) :
    ∃ d s'', conduct tryLine (PlaneSearch.search params direction s.spectrum.numTransitions) s =
        (.ok d, s'') ∧
      m = ⟨d.best.x, d.best.y, d.best.objective, d.converged, d.outerIterations,
        s''.evaluations - s.evaluations⟩ ∧
      s''.spectrum.numTransitions = 2 ∧
      s' = s''.holding (s''.spectrum.writeSlots 0 [d.best.x, d.best.y]) := by
  rw [searchPlane_eq] at h
  cases hconduct : conduct tryLine
      (PlaneSearch.search params direction s.spectrum.numTransitions) s with
  | mk d s'' =>
      rw [hconduct] at h
      cases d with
      | error e => cases h
      | ok d =>
          dsimp only at h
          cases hset : s''.spectrum.setTransitions [d.best.x, d.best.y] with
          | error e =>
              rw [hset] at h
              cases h
          | ok t =>
              rw [hset] at h
              cases h
              obtain ⟨hcount, rfl⟩ := HalfSpectrum.setTransitions_eq_ok_iff.mp hset
              exact ⟨d, s'', rfl, rfl, hcount.symm, rfl⟩

end Session
end FrequencySampling
