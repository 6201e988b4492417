import FrequencySampling.HalfSpectrum.SlotLine
import FrequencySampling.Search.GoldenSection

/-!
Direction search over two transition samples, `x` next to the stopband and `y` next to the passband.
Each outer iteration minimizes over `x` at two levels of `y`, draws the line through the two minima,
and minimizes along it inside the unit square; the minimum found there gives the next level. The
iterates may cycle, so the best of these third minima is kept.
-/

namespace FrequencySampling

/-- A point given as a parameter along a line. -/
structure LinePoint (α : Type) where
  line : SlotLine α
  rho : α

/-- The result of a search over two samples. -/
structure PlaneMinimum (α : Type) where
  x : α
  y : α
  objective : α
  converged : Bool
  outerIterations : Nat
  evaluations : Nat

namespace PlaneSearch

variable {α : Type} [Scalar α]

/-- Before the first iteration there is no earlier minimum; no objective is near this value. -/
def noEarlierMinimum : α := ((9999 : Nat) : α)

/-- A minimum on a fitted line. -/
structure Vertex (α : Type) where
  x : α
  y : α
  objective : α

/-- How the outer iterations ended. -/
structure Descent (α : Type) where
  best : Vertex α
  converged : Bool
  outerIterations : Nat

/-- Minimizes along a line and posts that the line search is finished. -/
def along (params : LineSearchParams α) (line : SlotLine α) (lo hi : α) :
    Search α (LinePoint α) (LineMinimum α) := do
  let minimum ← (GoldenSection.minimize params lo hi).mapPoints (LinePoint.mk line)
  Search.post (.lineSearchFinished minimum)
  return minimum

/-- The slope of the line through the minima at two levels. -/
def fittedSlope (y tweak x1 x2 : α) : α :=
  y * (1 - tweak) / (x1 - x2)

/-- The second coordinate along the line over `x` that has the given slope and passes through
`(x1, y)`. -/
def fittedSlot (y slope x1 : α) : LineSlot α :=
  ⟨y - slope * x1, slope⟩

/-- The line on which `x` is the parameter itself. -/
def overX (second : LineSlot α) : SlotLine α :=
  ⟨[⟨0, 1⟩, second]⟩

/-- The part of a line inside the unit square, if it is longer than the given distance. -/
def clipped? (separation : α) (line : SlotLine α) : Option (α × α) :=
  match line.unitDomain? with
  | some (lo, hi) => if separation < hi - lo then some (lo, hi) else none
  | none => none

/-- One outer iteration from a level. -/
def iterate (params : LineSearchParams α) (direction : PlaneSearchParams α) (outer : Nat)
    (y : α) : Search α (LinePoint α) (Vertex α) := do
  let tweak := direction.tweakFactor
  let x1 := (← along params (overX ⟨y, 0⟩) 0 1).x
  let x2 := (← along params (overX ⟨y * tweak, 0⟩) 0 1).x
  if Scalar.abs (x1 - x2) < direction.minLineSeparation then
    Search.fail (.degenerateLine x1 x2)
  let second := fittedSlot y (fittedSlope y tweak x1 x2) x1
  match clipped? direction.minLineSeparation (overX second) with
  | none => Search.fail (.degenerateLine x1 x2)
  | some (lo, hi) =>
    if 0 < lo ∨ hi < 1 then Search.post .lineClipped
    let third ← along params (overX second) lo hi
    Search.post (.planeIterated outer)
    return ⟨third.x, second.value third.x, third.f⟩

/-- The better of a new vertex and the best before it; the earlier one wins a tie. -/
def better (best : Option (Vertex α)) (v : Vertex α) : Vertex α :=
  match best with
  | none => v
  | some b => if v.objective < b.objective then v else b

/-- Iterates from a level until the objective settles. `remaining` iterations may follow this
one. -/
def descend (params : LineSearchParams α) (direction : PlaneSearchParams α) (rippleTol : α) :
    (remaining outer : Nat) → (y previous : α) → (best : Option (Vertex α)) →
      Search α (LinePoint α) (Descent α)
  | 0, outer, y, previous, best => do
    let v ← iterate params direction outer y
    return ⟨better best v, decide (Scalar.abs (previous - v.objective) < rippleTol), outer⟩
  | remaining + 1, outer, y, previous, best => do
    let v ← iterate params direction outer y
    if Scalar.abs (previous - v.objective) < rippleTol then
      return ⟨better best v, true, outer⟩
    else
      descend params direction rippleTol remaining (outer + 1) v.y v.objective
        (some (better best v))

/-- The search for a half spectrum with the given number of transition samples, which has to be
two. -/
def search (params : LineSearchParams α) (direction : PlaneSearchParams α)
    (transitions : Nat) : Search α (LinePoint α) (Descent α) := do
  Search.ofOutcome direction.check
  Search.ofOutcome params.check
  if transitions ≠ 2 then Search.fail (.invalidParameter (.planeSearch transitions))
  let descent ← descend params direction (direction.rippleTolOr params.tol)
    (direction.maxOuterIterations - 1) 1 direction.startLevel noEarlierMinimum none
  if !descent.converged then Search.post .planeCapped
  return descent

end PlaneSearch
end FrequencySampling
