import FrequencySampling.Search.Basic
import FrequencySampling.Search.Params

/-!
Golden-section search for the minimum of a function on an interval. Trial points first approach the
better end of the interval until one beats it; then a frame of four points is narrowed, reusing one
inner value at each step, until its width is within the tolerance.
-/

namespace FrequencySampling.GoldenSection

variable {α : Type} [Scalar α]

/-- The smaller part of the golden section, to nine places. -/
def smallPart : α := 0.381966011

/-- The larger part of the golden section, to nine places. -/
def largePart : α := 0.618033989

/-- The last trial at finding a bracket. -/
structure Bracket (α : Type) where
  point : α
  value : α
  trials : Nat
  /-- Whether the value beats both ends of the interval. -/
  found : Bool

/-- Trials at the given distances from the better end, each `smallPart` of the one before, until one
beats the target. `remaining` trials may still be made after the last one. -/
def bracket (trialAt : α → α) (target : α) :
    (remaining : Nat) → (step : α) → (last : Bracket α) → Search α α (Bracket α)
  | 0, _, last => return last
  | remaining + 1, step, last => do
    let step := step * smallPart
    let x := trialAt step
    let f ← Search.value x
    if f < target then return ⟨x, f, last.trials + 1, true⟩
    else bracket trialAt target remaining step ⟨x, f, last.trials + 1, false⟩

/-- Four points in order, with the values at the inner two. -/
structure Frame (α : Type) where
  x0 : α
  x1 : α
  x2 : α
  x3 : α
  f1 : α
  f2 : α

namespace Frame

def width (fr : Frame α) : α :=
  Scalar.abs (fr.x3 - fr.x0)

/-- Whether the outer right part is given up, rather than the outer left one. -/
def keepsLeft (fr : Frame α) : Bool :=
  decide (fr.f1 ≤ fr.f2)

/-- The new inner point. -/
def nextPoint (fr : Frame α) : α :=
  if fr.keepsLeft then largePart * fr.x1 + smallPart * fr.x0
  else largePart * fr.x2 + smallPart * fr.x3

/-- The frame without its worse outer part, given the value at the new inner point. -/
def narrowed (fr : Frame α) (f : α) : Frame α :=
  if fr.keepsLeft then ⟨fr.x0, fr.nextPoint, fr.x1, fr.x2, f, fr.f1⟩
  else ⟨fr.x1, fr.x2, fr.nextPoint, fr.x3, fr.f2, f⟩

/-- The better inner point and its value. -/
def best (fr : Frame α) : α × α :=
  if fr.f1 < fr.f2 then (fr.x1, fr.f1) else (fr.x2, fr.f2)

end Frame

/-- A frame after narrowing. -/
structure Narrowing (α : Type) where
  frame : Frame α
  iterations : Nat
  converged : Bool

/-- Narrows a frame until it is within the tolerance or no more steps remain. -/
def narrow (tol : α) :
    (remaining : Nat) → (made : Nat) → (fr : Frame α) → Search α α (Narrowing α)
  | 0, made, fr => return ⟨fr, made, decide (fr.width ≤ tol)⟩
  | remaining + 1, made, fr =>
    if fr.width ≤ tol then return ⟨fr, made, true⟩
    else do
      let f ← Search.value fr.nextPoint
      narrow tol remaining (made + 1) (fr.narrowed f)

/-- The frame that narrowing starts from, and the trials spent on its first inner point. -/
structure Opening (α : Type) where
  frame : Frame α
  trials : Nat

/-- The frame around a trial, which becomes its first inner point. -/
def surround (lo hi : α) (b : Bracket α) : Search α α (Opening α) := do
  let inner := b.point + smallPart * (hi - b.point)
  let innerValue ← Search.value inner
  return ⟨⟨lo, b.point, inner, hi, b.value, innerValue⟩, b.trials⟩

/-- Brackets a minimum. Both ends, the trials and the second inner point ask for one value each. -/
def opening (params : LineSearchParams α) (lo hi : α) : Search α α (Opening α) := do
  Search.ofOutcome params.check
  if !Scalar.isFinite lo ∨ !Scalar.isFinite hi ∨ hi ≤ lo then
    Search.fail (.invalidParameter (.emptyDomain lo hi))
  let left ← Search.value lo
  let right ← Search.value hi
  let fromLeft := decide (left < right)
  let target := if fromLeft then left else right
  let trialAt := fun step => if fromLeft then lo + step else hi - step
  let b ← bracket trialAt target params.maxBracketSteps (hi - lo) ⟨lo, left, 0, false⟩
  if !b.found then Search.post .bracketingExhausted
  surround lo hi b

/-- The better inner point of the last frame. -/
def conclude (trials : Nat) (n : Narrowing α) : Search α α (LineMinimum α) := do
  if !n.converged then Search.post .narrowingCapped
  let (x, f) := n.frame.best
  return ⟨x, f, n.converged, n.iterations, 3 + trials + n.iterations⟩

/-- Minimizes over an interval. Every step of the narrowing asks for one value. -/
def minimize (params : LineSearchParams α) (lo hi : α) : Search α α (LineMinimum α) := do
  let o ← opening params lo hi
  let n ← narrow params.tol params.maxIterations 0 o.frame
  conclude o.trials n

/-- Minimizes with the default caps. -/
def minimizeWithin (tol : α) (lo hi : α) : Search α α (LineMinimum α) :=
  let defaults : LineSearchParams α := .default
  minimize { defaults with tol := tol } lo hi

end FrequencySampling.GoldenSection
