import FrequencySampling.Codec.Params
import FrequencySampling.Proofs.Json.Reordering

/-!
The stored forms of parameters and positions as records with fields. Parameters may be left out and
have their defaults then; edges and cutoffs have none, so all of their fields are needed.
-/

namespace FrequencySampling

open Json

namespace BandEdges

def fields : List (RecordField BandEdges) :=
  [⟨"n1", .nat, toNat?, (·.n1), fun n e => { e with n1 := n }, true, fun _ => rfl⟩,
    ⟨"n2", .nat, toNat?, (·.n2), fun n e => { e with n2 := n }, true, fun _ => rfl⟩,
    ⟨"n3", .nat, toNat?, (·.n3), fun n e => { e with n3 := n }, true, fun _ => rfl⟩,
    ⟨"n4", .nat, toNat?, (·.n4), fun n e => { e with n4 := n }, true, fun _ => rfl⟩]

theorem decodesRecord (start : BandEdges) : DecodesRecord fields start ofJson? where
  nodup := by simp [fields]
  independent := by simp [fields, RecordField.Independent]
  looks_up := ⟨_, fun _ => rfl, fun _ => rfl⟩

end BandEdges

variable {α : Type} [StoredNumber α]

namespace Cutoff

def fields : List (RecordField (Cutoff α)) :=
  [⟨"fraction", .ofNumber, toNumber?, (·.fraction), fun x c => { c with fraction := x }, true,
      fun _ => rfl⟩,
    ⟨"kind", CutoffLevel.toJson, CutoffLevel.ofJson?, (·.level),
      fun l c => { c with level := l }, true, fun _ => rfl⟩]

theorem decodesRecord (start : Cutoff α) : DecodesRecord fields start ofJson? where
  nodup := by simp [fields]
  independent := by simp [fields, RecordField.Independent]
  looks_up := ⟨_, fun _ => rfl, fun _ => rfl⟩

end Cutoff

variable [Scalar α]

namespace LineSearchParams

def fields : List (RecordField (LineSearchParams α)) :=
  [⟨"tol", .ofNumber, toNumber?, (·.tol), fun x p => { p with tol := x }, false, fun _ => rfl⟩,
    ⟨"max_iterations", .nat, toNat?, (·.maxIterations), fun n p => { p with maxIterations := n },
      false, fun _ => rfl⟩,
    ⟨"max_bracket_steps", .nat, toNat?, (·.maxBracketSteps),
      fun n p => { p with maxBracketSteps := n }, false, fun _ => rfl⟩]

theorem decodesRecord : DecodesRecord fields (.default : LineSearchParams α) ofJson? where
  nodup := by simp [fields]
  independent := by simp [fields, RecordField.Independent]
  looks_up := ⟨_, fun _ => rfl, fun _ => rfl⟩

theorem respects : Respects (ofJson? (α := α)) := by
  refine decodesRecord.respects ?_
  simp only [fields, List.forall_mem_cons]
  exact ⟨respects_toNumber?, respects_toNat?, respects_toNat?, List.forall_mem_nil _⟩

end LineSearchParams

namespace PlaneSearchParams

/-- A tolerance that may be absent, as it is stored. -/
def ofTolerance : Option α → Json
  | some tol => .ofNumber tol
  | none => .null

def fields : List (RecordField (PlaneSearchParams α)) :=
  [⟨"tweak_factor", .ofNumber, toNumber?, (·.tweakFactor), fun x p => { p with tweakFactor := x },
      false, fun _ => rfl⟩,
    ⟨"y_base_init", .ofNumber, toNumber?, (·.startLevel), fun x p => { p with startLevel := x },
      false, fun _ => rfl⟩,
    ⟨"ripple_tol", ofTolerance, nullable toNumber?, (·.rippleTol),
      fun x p => { p with rippleTol := x }, false, fun _ => rfl⟩,
    ⟨"max_outer_iterations", .nat, toNat?, (·.maxOuterIterations),
      fun n p => { p with maxOuterIterations := n }, false, fun _ => rfl⟩,
    ⟨"min_line_separation", .ofNumber, toNumber?, (·.minLineSeparation),
      fun x p => { p with minLineSeparation := x }, false, fun _ => rfl⟩]

theorem decodesRecord : DecodesRecord fields (.default : PlaneSearchParams α) ofJson? where
  nodup := by simp [fields]
  independent := by simp [fields, RecordField.Independent]
  looks_up := ⟨_, fun _ => rfl, fun _ => rfl⟩

theorem respects : Respects (ofJson? (α := α)) := by
  refine decodesRecord.respects ?_
  simp only [fields, List.forall_mem_cons]
  exact ⟨respects_toNumber?, respects_toNumber?, respects_toNumber?.nullable, respects_toNat?,
    respects_toNumber?, List.forall_mem_nil _⟩

end PlaneSearchParams

namespace DesignParams

def fields : List (RecordField (DesignParams α)) :=
  [⟨"line", LineSearchParams.toJson, LineSearchParams.ofJson?, (·.line),
      fun l p => { p with line := l }, false, fun _ => rfl⟩,
    ⟨"direction", PlaneSearchParams.toJson, PlaneSearchParams.ofJson?, (·.direction),
      fun d p => { p with direction := d }, false, fun _ => rfl⟩,
    ⟨"num_resp_pts", .nat, toNat?, (·.points), fun n p => { p with points := n }, false,
      fun _ => rfl⟩,
    ⟨"scale", MagnitudeScale.toJson, MagnitudeScale.ofJson?, (·.scale),
      fun s p => { p with scale := s }, false, fun _ => rfl⟩,
    ⟨"normalize", .bool, toBool?, (·.normalize), fun b p => { p with normalize := b }, false,
      fun _ => rfl⟩,
    ⟨"method", ResponseMethod.toJson, ResponseMethod.ofJson?, (·.method),
      fun m p => { p with method := m }, false, fun _ => rfl⟩]

theorem decodesRecord : DecodesRecord fields (.default : DesignParams α) ofJson? where
  nodup := by simp [fields]
  independent := by simp [fields, RecordField.Independent]
  looks_up := ⟨_, fun _ => rfl, fun _ => rfl⟩

theorem respects : Respects (ofJson? (α := α)) := by
  refine decodesRecord.respects ?_
  simp only [fields, List.forall_mem_cons]
  exact ⟨LineSearchParams.respects, PlaneSearchParams.respects, respects_toNat?, respects_choice?,
    respects_toBool?, respects_choice?, List.forall_mem_nil _⟩

end DesignParams
end FrequencySampling
