import FrequencySampling.MagnitudeResponse.Stopband
import FrequencySampling.Search.Plane

/-!
Sessions: searches run against the stopband peak of one half spectrum. Every evaluation first asks
whether the run is to stop, then writes the trial into the half spectrum, evaluates it and reports
it. What was written stays when a later step fails.
-/

namespace FrequencySampling

/-- What surrounds a run. -/
structure RunContext (α : Type) where
  /-- Whether the run is cancelled before it starts. -/
  cancelled : Bool
  /-- Whether the deadline has passed at a check, by the number of checks before it. -/
  expired : Nat → Bool
  /-- Whether the run is cancelled on the report of a trial, by the number of trials so far. -/
  cancels : Nat → Trial α → Bool

namespace RunContext

/-- Nothing stops the run. -/
def unbounded {α : Type} : RunContext α :=
  ⟨false, fun _ => false, fun _ _ => false⟩

end RunContext

structure Session (α : Type) where
  spectrum : HalfSpectrum α
  grid : ResponseGrid
  context : RunContext α
  cancelled : Bool
  checks : Nat
  evaluations : Nat
  /-- All notices so far, the latest last. -/
  journal : Array (Notice α)

/-- An operation on a session, which may fail and leaves the session as it then is. -/
abbrev SessionM (α : Type) := ExceptT (DesignError α) (StateM (Session α))

namespace Session

variable {α : Type} [Scalar α]

/-- A session about to begin. -/
def start (spectrum : HalfSpectrum α) (grid : ResponseGrid) (context : RunContext α) : Session α :=
  ⟨spectrum, grid, context, context.cancelled, 0, 0, #[]⟩

/-- Takes a notice into the journal. -/
def hear (n : Notice α) (s : Session α) : Session α :=
  { s with journal := s.journal.push n }

/-- Cancels the run: the next check fails. -/
def cancel (s : Session α) : Session α :=
  { s with cancelled := true }

def post (n : Notice α) : SessionM α Unit :=
  modify (hear n)

/-- An outcome that does not depend on the session. -/
def ofOutcome {β : Type} (r : Outcome α β) : SessionM α β :=
  fun s => (r, s)

/-- Fails if the run was cancelled or, failing that, if its deadline has passed. -/
def checkStop : SessionM α Unit := do
  let s ← get
  set { s with checks := s.checks + 1 }
  if s.cancelled then throw .cancelled
  if s.context.expired s.checks then throw .deadlineExceeded

/-- Replaces the half spectrum, unless the change is refused. -/
def amend (change : HalfSpectrum α → Outcome α (HalfSpectrum α)) : SessionM α Unit := do
  let s ← get
  let spectrum ← ofOutcome (change s.spectrum)
  set { s with spectrum := spectrum }

/-- Evaluates the half spectrum as it stands. A trial is counted and reported only if its peak is a
finite number; `x` is the search's coordinate for it. -/
def evaluate (x : α) : SessionM α α := do
  let s ← get
  let peak ← ofOutcome (s.grid.stopbandLevel s.spectrum)
  if !Scalar.isFinite peak then throw (.degenerateResponse (.peakNotFinite peak x))
  let trial : Trial α := ⟨x, s.spectrum.transitionValues, peak⟩
  let count := s.evaluations + 1
  set { hear (.trial trial) s with
    evaluations := count
    cancelled := s.cancelled || s.context.cancels count trial }
  return peak

/-- Evaluates with the single transition sample at a value. -/
def tryScalar (value : α) : SessionM α α := do
  checkStop
  amend (·.setScalar value)
  evaluate value

/-- Evaluates at a point of a line. -/
def tryLine (p : LinePoint α) : SessionM α α := do
  checkStop
  amend (·.setOnLine p.line p.rho)
  evaluate p.rho

/-- Leaves the half spectrum at given transition values, without an evaluation. -/
def leaveAt (values : List α) : SessionM α Unit :=
  amend (·.setTransitions values)

/-- Runs a search with the session as its objective. -/
def conduct {π ρ : Type} (answer : π → SessionM α α) (search : Search α π ρ) : SessionM α ρ :=
  fun s => search.run answer hear s

/-- Minimizes over the single transition sample, between zero and one, and leaves the best value. -/
def searchScalar (params : LineSearchParams α) : SessionM α (LineMinimum α) := do
  let transitions := (← get).spectrum.numTransitions
  if transitions ≠ 1 then throw (.invalidParameter (.scalarSearch transitions))
  let minimum ← conduct tryScalar (GoldenSection.minimize params 0 1)
  leaveAt [minimum.x]
  post (.lineSearchFinished minimum)
  return minimum

/-- Minimizes along a line. The half spectrum is left at the last trial. -/
def searchLine (params : LineSearchParams α) (line : SlotLine α) (lo hi : α) :
    SessionM α (LineMinimum α) :=
  conduct tryLine (PlaneSearch.along params line lo hi)

/-- Minimizes over two transition samples and leaves the best vertex. -/
def searchPlane (params : LineSearchParams α) (direction : PlaneSearchParams α) :
    SessionM α (PlaneMinimum α) := do
  let before ← get
  let descent ← conduct tryLine
    (PlaneSearch.search params direction before.spectrum.numTransitions)
  let evaluations := (← get).evaluations - before.evaluations
  let best := descent.best
  leaveAt [best.x, best.y]
  return ⟨best.x, best.y, best.objective, descent.converged, descent.outerIterations, evaluations⟩

end Session

namespace HalfSpectrum

/-- Optimizes two transition samples on the default grid with the default caps, the tolerance also
bounding the change between iterations. -/
def optimizePlane {α : Type} [Scalar α] (spectrum : HalfSpectrum α) (startLevel tol tweak : α) :
    Outcome α (PlaneMinimum α) × Session α :=
  let defaults : DesignParams α := .default
  let direction :=
    { defaults.direction with startLevel := startLevel, tweakFactor := tweak }
  (Session.searchPlane { defaults.line with tol := tol } direction).run
    (Session.start spectrum defaults.objectiveGrid .unbounded)

end HalfSpectrum
end FrequencySampling
