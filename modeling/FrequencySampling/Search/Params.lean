import FrequencySampling.MagnitudeResponse.Grid

/-!
Parameters of the searches and of a whole design. They can be built freely; a search checks its own
before its first step, and reports the first that is out of range.
-/

namespace FrequencySampling

variable {α : Type}

structure LineSearchParams (α : Type) where
  /-- The width of the bracket at which the search stops. -/
  tol : α
  /-- The number of times the bracket may be narrowed. -/
  maxIterations : Nat
  /-- The number of trials at finding a bracket before the last one is accepted. -/
  maxBracketSteps : Nat
deriving BEq

namespace LineSearchParams

variable [Scalar α]

def default : LineSearchParams α :=
  ⟨0.001, 100, 100⟩

def check (p : LineSearchParams α) : Outcome α Unit := do
  if !Scalar.isFinite p.tol ∨ p.tol ≤ 0 then throw (.invalidParameter (.lineTolerance p.tol))
  if p.maxIterations = 0 then throw (.invalidParameter .noLineIteration)
  if p.maxBracketSteps = 0 then throw (.invalidParameter .noBracketTrial)

end LineSearchParams

structure PlaneSearchParams (α : Type) where
  /-- The factor between the levels of the two lines that fix a direction. -/
  tweakFactor : α
  /-- The first level of the sample next to the passband. -/
  startLevel : α
  /-- The change of the objective at which the search stops; the line tolerance if absent. -/
  rippleTol : Option α
  maxOuterIterations : Nat
  /-- The distance that two line minima must keep to fix a direction. -/
  minLineSeparation : α
deriving BEq

namespace PlaneSearchParams

variable [Scalar α]

def default : PlaneSearchParams α :=
  ⟨0.9, 1, none, 50, 1e-9⟩

def rippleTolOr (p : PlaneSearchParams α) (lineTol : α) : α :=
  p.rippleTol.getD lineTol

def check (p : PlaneSearchParams α) : Outcome α Unit := do
  if Scalar.isNaN p.tweakFactor ∨ p.tweakFactor ≤ 0 ∨ 1 ≤ p.tweakFactor then
    throw (.invalidParameter (.tweakFactor p.tweakFactor))
  if Scalar.isNaN p.startLevel ∨ p.startLevel ≤ 0 ∨ 1 < p.startLevel then
    throw (.invalidParameter (.startLevel p.startLevel))
  if let some tol := p.rippleTol then
    if !Scalar.isFinite tol ∨ tol ≤ 0 then throw (.invalidParameter (.rippleTolerance tol))
  if p.maxOuterIterations = 0 then throw (.invalidParameter .noOuterIteration)
  if Scalar.isNaN p.minLineSeparation ∨ p.minLineSeparation < 0 then
    throw (.invalidParameter .lineSeparation)

end PlaneSearchParams

structure DesignParams (α : Type) where
  line : LineSearchParams α
  direction : PlaneSearchParams α
  points : Nat
  scale : MagnitudeScale
  normalize : Bool
  method : ResponseMethod
deriving BEq

namespace DesignParams

variable [Scalar α]

def default : DesignParams α :=
  ⟨.default, .default, 512, .decibel, true, .amplitude⟩

def check (p : DesignParams α) : Outcome α Unit := do
  p.line.check
  p.direction.check
  if p.points = 0 then throw (.invalidParameter .noResponsePoint)

/-- The grid on which the searches judge a design: always in decibels. -/
def objectiveGrid (p : DesignParams α) : ResponseGrid :=
  ⟨p.points, .decibel, p.method⟩

/-- The grid of the reported response. -/
def responseGrid (p : DesignParams α) : ResponseGrid :=
  ⟨p.points, p.scale, p.method⟩

end DesignParams
end FrequencySampling
