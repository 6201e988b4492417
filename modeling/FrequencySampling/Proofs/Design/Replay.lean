import FrequencySampling.Proofs.Design.Stages
import FrequencySampling.Proofs.RationalArithmetic

/-!
Replaying an optimal design by hand. The transition samples that a search chose, written by hand
into the half spectrum that the search began with, give the same filter: the slots are read and
written in one order, and all of the half spectrum outside them is as it was. A run without a search
asks nothing of its surroundings, so it is not stopped by them.
-/

namespace FrequencySampling.FilterDesign

open Session

variable {α : Type} [Scalar α] {params : DesignParams α} {spectrum : HalfSpectrum α}

theorem choose_manual (params : DesignParams α) (s : Session α) {values : List α}
    (hfinite : ∀ v ∈ values, Scalar.isFinite v = true)
    (hlength : values.length = s.spectrum.numTransitions) :
    choose params (.manual values) s =
      (.ok (true, 0), s.holding (s.spectrum.writeSlots 0 values)) := by
  have hnone : values.find? (fun v => !Scalar.isFinite v) = none :=
    List.find?_eq_none.mpr fun v hv => by simp [hfinite v hv]
  unfold choose
  simp only [hnone]
  exact bind_eq_ok_iff.mpr ⟨(), _, leaveAt_eq_ok_iff.mpr ⟨hlength, rfl⟩, rfl⟩

/-- The transition samples of an optimal design, given by hand to a run in any surroundings, make
the same design, now without a search and so without an evaluation. -/
theorem optimal_replayed (hs : spectrum.WellFormed) {context : RunContext α} {d : FilterDesign α}
    {after : Session α} (hrun : run spectrum params .optimal context = (.ok d, after))
    (hfinite : ∀ v ∈ d.transitions, Scalar.isFinite v = true) (other : RunContext α) :
    (run spectrum params (.manual d.transitions) other).1 =
      .ok { d with converged := true, evaluations := 0 } := by
  obtain ⟨hcheck, settled, taken, s', hchoose, hfinish, -⟩ := inSession_eq_ok_iff.mp hrun
  obtain ⟨hfinished, -, -⟩ := finish_eq_ok_iff.mp hfinish
  obtain ⟨values, hlength, hleft⟩ := (optimized hchoose).writeSlots_eq
  change s'.spectrum = spectrum.writeSlots 0 values at hleft
  obtain rfl : d.transitions = values := by
    rw [hfinished.transitions_eq, hleft]
    exact HalfSpectrum.transitionValues_writeSlots hs hlength
  rw [hleft] at hfinished
  have hmanual := choose_manual params (start spectrum params.objectiveGrid other) hfinite hlength
  have hreplay := inSession_eq_ok_iff.mpr
    ⟨hcheck, true, 0, _, hmanual, hfinished.relabel true 0, rfl⟩
  exact congrArg Prod.fst hreplay

open RationalArithmetic in
/-- An optimal design of a filter with two transition samples, replayed after it was cancelled. -/
theorem optimal_replayed_rational :
    ∃ d after, run (session .unbounded).spectrum designParams .optimal .unbounded = (.ok d, after) ∧
      (run (session .unbounded).spectrum designParams (.manual d.transitions)
        ⟨true, fun _ => true, fun _ _ => true⟩).1 =
          .ok { d with converged := true, evaluations := 0 } := by
  obtain ⟨d, after, hrun⟩ := exists_of_isOk (show (run (session .unbounded).spectrum designParams
    .optimal .unbounded).1.isOk = true by decide +kernel)
  exact ⟨d, after, hrun, optimal_replayed ⟨rfl, rfl⟩ hrun (fun _ _ => rfl) _⟩

end FrequencySampling.FilterDesign
