import FrequencySampling.Filter.Band
import FrequencySampling.Filter.LinearPhase

/-!
Everything that can keep a design from succeeding, by cause. The causes fall into kinds; callers
that retry a search look at the kind only.
-/

namespace FrequencySampling

/-- A filter description that no choice of search parameters can rescue. -/
inductive ConfigFault where
  | tooFewTaps (taps : Nat)
  | lowerEdgesOutOfOrder (n1 n2 : Nat)
  | edgeBeyondFold (n2 fold : Nat)
  | upperEdgesOutOfOrder (band : Band) (fold n2 n3 n4 : Nat)
  | unequalTransitions (band : Band) (lower upper : Nat)
  | unreadableParams
  /-- In the words of whoever reports it. -/
  | described (details : String)

/-- An argument outside the range of its operation. -/
inductive ParameterFault (α : Type) where
  | zeroDenominator
  | sampleRate (rate : α)
  | cutoffOutOfRange (fraction : α)
  | cutoffBelowFirstSample (fraction : α) (taps : Nat)
  | transitionChoice (count : Nat)
  | sampleIndex (index size : Nat)
  | noTransitionSample (band : Band)
  | slotCount (band : Band) (expected given : Nat)
  | lineShape (origins slopes : Nat)
  | lineTolerance (tol : α)
  | noLineIteration
  | noBracketTrial
  | tweakFactor (factor : α)
  | startLevel (level : α)
  | rippleTolerance (tol : α)
  | noOuterIteration
  | lineSeparation
  | noResponsePoint
  | emptyDomain (lo hi : α)
  | scalarSearch (transitions : Nat)
  | planeSearch (transitions : Nat)
  | transitionNotFinite (value : α)
  | referenceSize (given points : Nat)
  | described (details : String)

/-- A response from which no stopband peak or gain can be read. -/
inductive ResponseFault (α : Type) where
  | emptyStopband (band : Band) (edges : BandEdges) (points : Nat)
  | silentResponse
  | silentTaps
  | peakNotFinite (peak x : α)
  | described (details : String)

/-- A design beyond the reach of the searches. -/
inductive UnsupportedFault where
  | transitionCount (count : Nat)
  | described (details : String)

inductive DesignError (α : Type) where
  | parityMismatch (phase : LinearPhase) (taps : Nat)
  | invalidConfig (fault : ConfigFault)
  | invalidParameter (fault : ParameterFault α)
  /-- The two line minima that should fix a direction are too close together. -/
  | degenerateLine (x1 x2 : α)
  | degenerateResponse (fault : ResponseFault α)
  | unsupported (fault : UnsupportedFault)
  | cancelled
  | deadlineExceeded
  /-- A sink that refused text, in its own words. -/
  | io (details : String)

namespace DesignError

variable {α : Type}

/-- Whether the filter description is at fault, so that other search parameters cannot help. -/
def isConfigError : DesignError α → Bool
  | .parityMismatch .. | .invalidConfig _ | .unsupported _ => true
  | _ => false

/-- Whether a search was ended from outside. -/
def isInterrupted : DesignError α → Bool
  | .cancelled | .deadlineExceeded => true
  | _ => false

end DesignError

/-- The outcome of an operation that may fail for one of these reasons. -/
abbrev Outcome (α β : Type) := Except (DesignError α) β

end FrequencySampling
