import FrequencySampling.Codec.Filter
import FrequencySampling.Json.Parser
import FrequencySampling.Json.Printer
import FrequencySampling.Search.Params

/-!
Stored forms of parameters. A member that is left out has its default; what is read is not checked
except where a whole set of design parameters is loaded.
-/

namespace FrequencySampling

variable {α : Type} [Scalar α] [StoredNumber α]

namespace LineSearchParams

def toJson (p : LineSearchParams α) : Json :=
  .record [("tol", .ofNumber p.tol), ("max_iterations", .nat p.maxIterations),
    ("max_bracket_steps", .nat p.maxBracketSteps)]

def ofJson? (v : Json) : Option (LineSearchParams α) := do
  let defaults : LineSearchParams α := .default
  match ← v.fields? ["tol", "max_iterations", "max_bracket_steps"] with
  | [tol, maxIterations, maxBracketSteps] =>
    return ⟨← Json.orDefault defaults.tol Json.toNumber? tol,
      ← Json.orDefault defaults.maxIterations Json.toNat? maxIterations,
      ← Json.orDefault defaults.maxBracketSteps Json.toNat? maxBracketSteps⟩
  | _ => none

end LineSearchParams

namespace PlaneSearchParams

/-- An absent ripple tolerance is stored as null. -/
def toJson (p : PlaneSearchParams α) : Json :=
  .record [("tweak_factor", .ofNumber p.tweakFactor), ("y_base_init", .ofNumber p.startLevel),
    ("ripple_tol", match p.rippleTol with
      | some tol => .ofNumber tol
      | none => .null),
    ("max_outer_iterations", .nat p.maxOuterIterations),
    ("min_line_separation", .ofNumber p.minLineSeparation)]

def ofJson? (v : Json) : Option (PlaneSearchParams α) := do
  let defaults : PlaneSearchParams α := .default
  match ← v.fields? ["tweak_factor", "y_base_init", "ripple_tol", "max_outer_iterations",
    "min_line_separation"] with
  | [tweakFactor, startLevel, rippleTol, maxOuterIterations, minLineSeparation] =>
    return ⟨← Json.orDefault defaults.tweakFactor Json.toNumber? tweakFactor,
      ← Json.orDefault defaults.startLevel Json.toNumber? startLevel,
      ← Json.orDefault defaults.rippleTol (Json.nullable Json.toNumber?) rippleTol,
      ← Json.orDefault defaults.maxOuterIterations Json.toNat? maxOuterIterations,
      ← Json.orDefault defaults.minLineSeparation Json.toNumber? minLineSeparation⟩
  | _ => none

end PlaneSearchParams

namespace DesignParams

def toJson (p : DesignParams α) : Json :=
  .record [("line", p.line.toJson), ("direction", p.direction.toJson),
    ("num_resp_pts", .nat p.points), ("scale", p.scale.toJson), ("normalize", .bool p.normalize),
    ("method", p.method.toJson)]

def ofJson? (v : Json) : Option (DesignParams α) := do
  let defaults : DesignParams α := .default
  match ← v.fields? ["line", "direction", "num_resp_pts", "scale", "normalize", "method"] with
  | [line, direction, points, scale, normalize, method] =>
    return ⟨← Json.orDefault defaults.line LineSearchParams.ofJson? line,
      ← Json.orDefault defaults.direction PlaneSearchParams.ofJson? direction,
      ← Json.orDefault defaults.points Json.toNat? points,
      ← Json.orDefault defaults.scale MagnitudeScale.ofJson? scale,
      ← Json.orDefault defaults.normalize Json.toBool? normalize,
      ← Json.orDefault defaults.method ResponseMethod.ofJson? method⟩
  | _ => none

/-- The parameters that a text holds, read and checked. -/
def load (text : String) : Outcome α (DesignParams α) := do
  match (Json.parse? text).bind ofJson? with
  | none => throw (.invalidConfig .unreadableParams)
  | some p =>
    p.check
    return p

/-- The text that parameters are saved as. -/
def save (p : DesignParams α) : String :=
  p.toJson.pretty

end DesignParams
end FrequencySampling
