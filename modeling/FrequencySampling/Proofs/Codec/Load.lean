import FrequencySampling.Proofs.Codec.Restoring
import FrequencySampling.Proofs.Search.Params

/-!
Loading parameters from a text. A text that parses to an object stands for the defaults with the
listed fields replaced, in whatever order they come; it is refused if a field is listed twice, in
the object or in one of the two inside it.
-/

namespace FrequencySampling

open Json

variable {α : Type} [Scalar α] [StoredNumber α]

namespace DesignParams

variable {text : String} {ms : Members}

theorem load_of_none (h : (parse? text).bind (ofJson? (α := α)) = none) :
    load (α := α) text = .error (.invalidConfig .unreadableParams) := by
  rw [load, h]
  rfl

theorem load_of_some {p : DesignParams α} (h : (parse? text).bind ofJson? = some p) :
    load text = p.check.map fun _ => p := by
  rw [load, h]
  rfl

theorem load_eq_ok_iff {p : DesignParams α} :
    load text = .ok p ↔ (parse? text).bind ofJson? = some p ∧ p.check = .ok () := by
  cases hread : (parse? text).bind (ofJson? (α := α)) with
  | none => simp [load_of_none hread]
  | some q =>
      rw [load_of_some hread, Option.some.injEq]
      constructor
      · intro hload
        cases hcheck : q.check with
        | error e => simp [hcheck, Except.map] at hload
        | ok _ =>
            rw [hcheck] at hload
            cases hload
            exact ⟨rfl, hcheck⟩
      · rintro ⟨rfl, hcheck⟩
        rw [hcheck]
        rfl

/-- A field is listed more than once, in the object itself or in one of the two inside it. -/
inductive Repeats (α : Type) [Scalar α] [StoredNumber α] (ms : Members) : Prop
  | own {f : RecordField (DesignParams α)} (hf : f ∈ fields) (htwice : 1 < timesListed f.name ms)
  | line {t : JsonText} {inner : Members} {f : RecordField (LineSearchParams α)}
      (hmem : (t, .object inner) ∈ ms) (hname : t.toString? = some "line")
      (hf : f ∈ LineSearchParams.fields) (htwice : 1 < timesListed f.name inner)
  | direction {t : JsonText} {inner : Members} {f : RecordField (PlaneSearchParams α)}
      (hmem : (t, .object inner) ∈ ms) (hname : t.toString? = some "direction")
      (hf : f ∈ PlaneSearchParams.fields) (htwice : 1 < timesListed f.name inner)

theorem ofJson?_of_repeats (h : Repeats α ms) : ofJson? (α := α) (.object ms) = none := by
  cases h with
  | own hf htwice => exact decodesRecord.object_repeated hf htwice
  | line hmem hname hf htwice =>
      refine decodesRecord.object_of_member List.mem_cons_self hmem hname ?_
      exact LineSearchParams.decodesRecord.object_repeated hf htwice
  | direction hmem hname hf htwice =>
      refine decodesRecord.object_of_member (List.mem_cons_of_mem _ List.mem_cons_self) hmem hname
        ?_
      exact PlaneSearchParams.decodesRecord.object_repeated hf htwice

/-- A text that lists some of the fields stands for the defaults with these replaced. The order does
not matter, and what is read is loaded if and only if it passes the check; a field that is listed
twice is refused. Edges and cutoffs are read if and only if every field is listed once. -/
theorem load_object (htext : parse? text = some (.object ms)) :
    (∀ p : DesignParams α, (parse? text).bind ofJson? = some p ↔
      ListsOnce (fields (α := α)) ms ∧ Replaces fields .default ms p) ∧
    (∀ inner (p : LineSearchParams α), LineSearchParams.ofJson? (.object inner) = some p ↔
      ListsOnce (LineSearchParams.fields (α := α)) inner ∧
        Replaces LineSearchParams.fields .default inner p) ∧
    (∀ inner (p : PlaneSearchParams α), PlaneSearchParams.ofJson? (.object inner) = some p ↔
      ListsOnce (PlaneSearchParams.fields (α := α)) inner ∧
        Replaces PlaneSearchParams.fields .default inner p) ∧
    (ListsOnce (fields (α := α)) ms → WellTyped (fields (α := α)) ms →
      ∃ p : DesignParams α, Replaces fields .default ms p ∧ load text = p.check.map fun _ => p) ∧
    (∀ p : DesignParams α, load text = .ok p ↔
      (ListsOnce (fields (α := α)) ms ∧ Replaces fields .default ms p) ∧ p.check = .ok ()) ∧
    (∀ text' v, parse? text' = some v → Reordered (.object ms) v →
      load (α := α) text' = load text) ∧
    (Repeats α ms → load (α := α) text = .error (.invalidConfig .unreadableParams)) ∧
    (WellTyped BandEdges.fields ms → (((parse? text).bind BandEdges.ofJson?).isSome = true ↔
      ∀ f ∈ BandEdges.fields, timesListed f.name ms = 1)) ∧
    (WellTyped (Cutoff.fields (α := α)) ms →
      (((parse? text).bind (Cutoff.ofJson? (α := α))).isSome = true ↔
        ∀ f ∈ Cutoff.fields (α := α), timesListed f.name ms = 1)) := by
  have hread : ∀ p : DesignParams α, (parse? text).bind ofJson? = some p ↔
      ListsOnce (fields (α := α)) ms ∧ Replaces fields .default ms p := by
    intro p
    rw [htext]
    exact decodesRecord.object_eq_some_iff
  refine ⟨hread, fun _ _ => LineSearchParams.decodesRecord.object_eq_some_iff,
    fun _ _ => PlaneSearchParams.decodesRecord.object_eq_some_iff, ?_, ?_, ?_, ?_, ?_, ?_⟩
  · intro hlists htyped
    obtain ⟨p, hreplaces⟩ := htyped.exists_replaces (p := .default)
    exact ⟨p, hreplaces, load_of_some ((hread p).mpr ⟨hlists, hreplaces⟩)⟩
  · intro p
    rw [load_eq_ok_iff, hread]
  · intro text' v htext' hreordered
    have hsame : (parse? text').bind (ofJson? (α := α)) = (parse? text).bind ofJson? := by
      rw [htext, htext']
      exact (respects _ _ hreordered).symm
    rw [load, load, hsame]
  · intro hrepeats
    refine load_of_none ?_
    rw [htext]
    exact ofJson?_of_repeats hrepeats
  · intro htyped
    rw [htext, Option.bind_some, (BandEdges.decodesRecord ⟨0, 0, 0, 0⟩).isSome_object_iff,
      and_iff_left htyped, listsOnce_iff_of_needed (by simp [BandEdges.fields])]
  · intro htyped
    rw [htext, Option.bind_some, (Cutoff.decodesRecord ⟨0, .halfPower⟩).isSome_object_iff,
      and_iff_left htyped, listsOnce_iff_of_needed (by simp [Cutoff.fields])]

/-- An unknown field is passed over, and of the line parameters one is replaced. -/
theorem load_object_double :
    let ms : Members := [(JsonText.ofString "num_resp_pts", .nat 64),
      (JsonText.ofString "comment", .array [.null, .bool true]),
      (JsonText.ofString "line", .record [("max_iterations", .nat 7)])]
    parse? (Json.object ms).compact = some (.object ms) ∧
      load (Json.object ms).compact = .ok
        (⟨⟨0.001, 7, 100⟩, .default, 64, .decibel, true, .amplitude⟩ : DesignParams Float) := by
  intro ms
  have htext : parse? (Json.object ms).compact = some (.object ms) := by
    refine parse?_compact (.object ?_)
    simp only [ms, List.forall_mem_cons]
    refine ⟨wellFormed_nat 64, .array ?_, wellFormed_record ?_, List.forall_mem_nil _⟩
    · simp only [List.forall_mem_cons]
      exact ⟨.null, .bool true, List.forall_mem_nil _⟩
    · simp only [List.forall_mem_cons]
      exact ⟨wellFormed_nat 7, List.forall_mem_nil _⟩
  have h64 : toNat? (.nat 64) = some 64 := (restores_nat (by decide)).decode_encode
  have h7 : toNat? (.nat 7) = some 7 := (restores_nat (by decide)).decode_encode
  obtain ⟨-, hline, -, -, hload, -⟩ := load_object (α := Float) htext
  refine ⟨htext, (hload _).mpr ⟨⟨?_, ?_⟩, ?_⟩⟩
  · decide +kernel
  · refine .known (List.mem_cons_of_mem _ (List.mem_cons_of_mem _ List.mem_cons_self))
      (JsonText.toString?_ofString _) h64 ?_
    refine .unknown (JsonText.toString?_ofString _) (by simp [fields]) ?_
    refine .known List.mem_cons_self (JsonText.toString?_ofString _) ((hline _ _).mpr ⟨?_, ?_⟩)
      (.nil _)
    · decide +kernel
    · exact .known (List.mem_cons_of_mem _ List.mem_cons_self) (JsonText.toString?_ofString _) h7
        (.nil _)
  · exact DesignParams.accepts_iff.mpr ⟨LineSearchParams.accepts_iff.mpr (by decide +kernel),
      PlaneSearchParams.accepts_iff.mpr (by decide +kernel), by decide⟩

end DesignParams
end FrequencySampling
