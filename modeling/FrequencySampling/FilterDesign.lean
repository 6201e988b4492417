import FrequencySampling.Session

/-!
Designing a filter: choosing its transition samples, synthesizing its taps and measuring the result.
-/

namespace FrequencySampling

/-- How the transition samples are chosen. -/
inductive TransitionChoice (α : Type) where
  /-- As given, one value for each slot. -/
  | manual (values : List α)
  /-- So that the stopband peak is least; for at most two samples. -/
  | optimal

structure FilterDesign (α : Type) where
  spectrum : HalfSpectrum α
  impulse : ImpulseResponse α
  response : MagnitudeResponse α
  stopbandPeak : α
  transitions : List α
  /-- Whether the search settled; without a search it is true. -/
  converged : Bool
  /-- The evaluations spent on the search. -/
  evaluations : Nat

namespace FilterDesign

variable {α : Type} [Scalar α]

/-- Writes the best transition samples. Answers whether the search settled and what it took. -/
def optimize (params : DesignParams α) : SessionM α (Bool × Nat) := do
  match (← get).spectrum.numTransitions with
  | 0 => return (true, 0)
  | 1 =>
    let minimum ← Session.searchScalar params.line
    return (minimum.converged, (← get).evaluations)
  | 2 =>
    let minimum ← Session.searchPlane params.line params.direction
    return (minimum.converged, minimum.evaluations)
  | transitions => throw (.unsupported (.transitionCount transitions))

/-- Writes the transition samples. -/
def choose (params : DesignParams α) : TransitionChoice α → SessionM α (Bool × Nat)
  | .manual values => do
    if let some bad := values.find? fun v => !Scalar.isFinite v then
      throw (.invalidParameter (.transitionNotFinite bad))
    Session.leaveAt values
    return (true, 0)
  | .optimal => optimize params

/-- The filter of a half spectrum, with its response on the reported grid and its stopband peak. -/
def finish (params : DesignParams α) (spectrum : HalfSpectrum α) (converged : Bool)
    (evaluations : Nat) : Outcome α (FilterDesign α) := do
  let impulse ← ImpulseResponse.ofSpectrum spectrum
  let measured ← params.responseGrid.measure impulse
  let response ← if params.normalize then measured.normalize else pure measured
  let peak ← params.objectiveGrid.stopbandLevel spectrum
  return ⟨spectrum, impulse, response, peak, spectrum.transitionValues, converged, evaluations⟩

/-- The whole run, within a session. -/
def inSession (params : DesignParams α) (choice : TransitionChoice α) :
    SessionM α (FilterDesign α) := do
  Session.ofOutcome params.check
  let (converged, evaluations) ← choose params choice
  let design ← Session.ofOutcome (finish params (← get).spectrum converged evaluations)
  Session.post .designFinished
  return design

/-- Designs a filter from a half spectrum. Also gives the session as the run leaves it, with its
journal. -/
def run (spectrum : HalfSpectrum α) (params : DesignParams α) (choice : TransitionChoice α)
    (context : RunContext α) : Outcome α (FilterDesign α) × Session α :=
  (inSession params choice).run (Session.start spectrum params.objectiveGrid context)

end FilterDesign
end FrequencySampling
