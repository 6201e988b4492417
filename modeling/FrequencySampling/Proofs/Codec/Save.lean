import FrequencySampling.Proofs.Codec.Load

/-!
Loading what was saved. The check bounds all numbers but one: an infinite distance between line
minima passes it, is saved as null and refused when the text is loaded. Every other set of
parameters that passes the check is loaded as it was.
-/

namespace FrequencySampling

open Json StoredNumber

variable {α : Type} [Scalar α] [StoredNumber α] [Faithful α]

theorem wellFormed_ofNumber (x : α) : (ofNumber x).WellFormed := by
  unfold ofNumber
  split
  · rename_i n hn
    exact .number (Faithful.wellFormed hn)
  · exact .null

namespace LineSearchParams

variable {p : LineSearchParams α}

theorem wellFormed_toJson (p : LineSearchParams α) : p.toJson.WellFormed := by
  refine wellFormed_record ?_
  simp only [List.forall_mem_cons]
  exact ⟨wellFormed_ofNumber _, wellFormed_nat _, wellFormed_nat _, List.forall_mem_nil _⟩

omit [StoredNumber α] [Faithful α] in
theorem isFinite_of_check (h : p.check = .ok ()) : Scalar.isFinite p.tol = true := by
  have htol := (accepts_iff.mp h).1
  simpa using (not_or.mp htol).1

end LineSearchParams

namespace PlaneSearchParams

variable {p : PlaneSearchParams α}

theorem wellFormed_toJson (p : PlaneSearchParams α) : p.toJson.WellFormed := by
  refine wellFormed_record ?_
  simp only [List.forall_mem_cons]
  refine ⟨wellFormed_ofNumber _, wellFormed_ofNumber _, ?_, wellFormed_nat _,
    wellFormed_ofNumber _, List.forall_mem_nil _⟩
  split
  · exact wellFormed_ofNumber _
  · exact .null

theorem isFinite_of_check [Scalar.ComparesNumbers α] (h : p.check = .ok ()) :
    Scalar.isFinite p.tweakFactor = true ∧ Scalar.isFinite p.startLevel = true ∧
      ∀ tol ∈ p.rippleTol.toList, Scalar.isFinite tol = true := by
  obtain ⟨htweak, hstart, htol, -, -⟩ := accepts_iff.mp h
  simp only [not_or, Bool.not_eq_true] at htweak hstart
  refine ⟨?_, ?_, ?_⟩
  · exact Faithful.isFinite_of_unit htweak.1 htweak.2.1
      fun hlt => htweak.2.2 (Scalar.ComparesNumbers.le_of_lt hlt)
  · exact Faithful.isFinite_of_unit hstart.1 hstart.2.1 hstart.2.2
  · intro tol hmem
    rw [Option.mem_toList] at hmem
    simpa using (not_or.mp (htol tol hmem)).1

/-- An infinite distance is stored as null, which is no number. -/
theorem ofJson?_toJson_of_not_finite (h : Scalar.isFinite p.minLineSeparation = false) :
    ofJson? (α := α) p.toJson = none := by
  have hnull : ofNumber p.minLineSeparation = .null := by rw [ofNumber, toNumeral?_eq_none h]
  refine decodesRecord.object_of_member (f := ⟨"min_line_separation", .ofNumber, toNumber?,
    (·.minLineSeparation), fun x p => { p with minLineSeparation := x }, false, fun _ => rfl⟩)
    (t := JsonText.ofString "min_line_separation") (v := .null) ?_ ?_
    (JsonText.toString?_ofString _) rfl
  · simp [fields]
  · rw [← hnull]
    simp

end PlaneSearchParams

namespace DesignParams

variable {p : DesignParams α}

theorem parse?_save (p : DesignParams α) : parse? p.save = some p.toJson := by
  refine parse?_pretty (wellFormed_record ?_)
  simp only [List.forall_mem_cons]
  exact ⟨p.line.wellFormed_toJson, p.direction.wellFormed_toJson, wellFormed_nat _, .string _,
    .bool _, .string _, List.forall_mem_nil _⟩

theorem load_save_of_not_finite (h : Scalar.isFinite p.direction.minLineSeparation = false) :
    load (α := α) p.save = .error (.invalidConfig .unreadableParams) := by
  refine load_of_none ?_
  rw [parse?_save]
  exact decodesRecord.object_of_member (List.mem_cons_of_mem _ List.mem_cons_self)
    (List.mem_cons_of_mem _ List.mem_cons_self) (JsonText.toString?_ofString _)
    (PlaneSearchParams.ofJson?_toJson_of_not_finite h)

theorem load_save_of_finite [Scalar.ComparesNumbers α] (hcheck : p.check = .ok ())
    (hindex : ∀ n ∈ p.indices, n < UInt64.size) (hread : ∀ x ∈ p.numbers, ReadsBack x)
    (hfinite : Scalar.isFinite p.direction.minLineSeparation = true) : load p.save = .ok p := by
  obtain ⟨hline, hdirection, -⟩ := accepts_iff.mp hcheck
  obtain ⟨htweak, hstart, htol⟩ := PlaneSearchParams.isFinite_of_check hdirection
  have hnumbers : ∀ x ∈ p.numbers, Scalar.isFinite x = true := by
    simp only [numbers, LineSearchParams.numbers, PlaneSearchParams.numbers,
      List.forall_mem_append, List.forall_mem_cons]
    exact ⟨⟨LineSearchParams.isFinite_of_check hline, List.forall_mem_nil _⟩,
      ⟨⟨htweak, hstart, List.forall_mem_nil _⟩, htol⟩, hfinite, List.forall_mem_nil _⟩
  exact load_eq_ok_iff.mpr ⟨(lawful.restores p ⟨hindex, hnumbers⟩ hread).texts.2, hcheck⟩

/-- Parameters that pass the check are loaded as they were saved, unless the distance between line
minima is infinite; then their text is refused. -/
theorem load_save [Scalar.ComparesNumbers α] (hcheck : p.check = .ok ())
    (hindex : ∀ n ∈ p.indices, n < UInt64.size) (hread : ∀ x ∈ p.numbers, ReadsBack x) :
    load p.save = if Scalar.isFinite p.direction.minLineSeparation then .ok p
      else .error (.invalidConfig .unreadableParams) := by
  split
  · rename_i hfinite
    exact load_save_of_finite hcheck hindex hread hfinite
  · rename_i hinfinite
    exact load_save_of_not_finite (Bool.eq_false_iff.mpr hinfinite)

/-- The defaults come back. -/
theorem load_save_double :
    (.default : DesignParams Float).check = .ok () ∧
      load (save (α := Float) .default) = .ok (.default : DesignParams Float) := by
  have hcheck : (.default : DesignParams Float).check = .ok () :=
    accepts_iff.mpr ⟨LineSearchParams.accepts_iff.mpr (by decide +kernel),
      PlaneSearchParams.accepts_iff.mpr (by decide +kernel), by decide⟩
  refine ⟨hcheck, ?_⟩
  have hload := load_save hcheck (by decide +kernel) (by unfold ReadsBack; decide +kernel)
  rw [if_pos (by decide +kernel)] at hload
  exact hload

/-- The check admits an infinite distance, which no text can tell. -/
theorem load_save_infinite :
    let p : DesignParams Float :=
      ⟨.default, ⟨0.9, 1, none, 50, 1 / 0⟩, 512, .decibel, true, .amplitude⟩
    p.check = .ok () ∧ load (α := Float) p.save = .error (.invalidConfig .unreadableParams) := by
  intro p
  refine ⟨?_, load_save_of_not_finite (by decide +kernel)⟩
  exact accepts_iff.mpr ⟨LineSearchParams.accepts_iff.mpr (by decide +kernel),
    PlaneSearchParams.accepts_iff.mpr (by decide +kernel), by decide⟩

end DesignParams
end FrequencySampling
