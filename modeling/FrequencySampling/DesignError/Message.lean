import FrequencySampling.Decimal.Layout
import FrequencySampling.DesignError

/-!
The wording of errors. Numbers are shown by their shortest digits, never with a power of ten.
-/

namespace FrequencySampling

namespace ConfigFault

def message : ConfigFault → String
  | .tooFewTaps taps => s!"at least 3 taps are required, got {taps}"
  | .lowerEdgesOutOfOrder n1 n2 => s!"n1 ({n1}) must be below n2 ({n2})"
  | .edgeBeyondFold n2 fold => s!"n2 ({n2}) exceeds the fold index ({fold})"
  | .upperEdgesOutOfOrder band fold n2 n3 n4 =>
    band.text ++ s!" edges must satisfy n2 <= n3 < n4 <= {fold}, got n2={n2}, n3={n3}, n4={n4}"
  | .unequalTransitions band lower upper =>
    band.text ++ s!" transition bands differ in width: n2-n1 = {lower}, n4-n3 = {upper}"
  | .unreadableParams => "failed to parse design config"
  | .described details => details

end ConfigFault

namespace ParameterFault

def message : ParameterFault Float → String
  | .zeroDenominator => "cutoff denominator must be non-zero"
  | .sampleRate rate => "sample rate must be positive, got " ++ displayDouble rate
  | .cutoffOutOfRange fraction =>
    "cutoff must lie strictly between 0 and the folding frequency, got " ++ displayDouble fraction
      ++ " * pi"
  | .cutoffBelowFirstSample fraction taps =>
    "cutoff " ++ displayDouble fraction
      ++ s!" * pi is below the first frequency sample of a {taps}-tap filter"
  | .transitionChoice count => s!"0, 1 or 2 transition samples are supported, got {count}"
  | .sampleIndex index size =>
    s!"sample index {index} out of range for {size} desired magnitude samples"
  | .noTransitionSample band => band.text ++ " filter has no transition sample to set"
  | .slotCount band expected given =>
    band.text ++ s!" filter has {expected} transition samples, got {given} values"
  | .lineShape origins slopes =>
    s!"transition line needs matching non-empty origins and slopes, got {origins} and {slopes}"
  | .lineTolerance tol => "line search tolerance must be positive, got " ++ displayDouble tol
  | .noLineIteration => "line search needs at least one iteration"
  | .noBracketTrial => "bracketing needs at least one trial"
  | .tweakFactor factor => "tweak factor must lie in (0, 1), got " ++ displayDouble factor
  | .startLevel level => "y_base_init must lie in (0, 1], got " ++ displayDouble level
  | .rippleTolerance tol => "ripple tolerance must be positive, got " ++ displayDouble tol
  | .noOuterIteration => "direction search needs at least one outer iteration"
  | .lineSeparation => "minimum line separation must be non-negative"
  | .noResponsePoint => "number of response points must be positive"
  | .emptyDomain lo hi =>
    "line search domain [" ++ displayDouble lo ++ ", " ++ displayDouble hi ++ "] is empty"
  | .scalarSearch transitions =>
    s!"scalar search needs exactly one transition sample, spec has {transitions}"
  | .planeSearch transitions =>
    s!"direction search needs exactly two transition samples, spec has {transitions}"
  | .transitionNotFinite value => "transition values must be finite, got " ++ displayDouble value
  | .referenceSize given points =>
    s!"theoretical response has {given} points, response has {points}"
  | .described details => details

end ParameterFault

namespace ResponseFault

def message : ResponseFault Float → String
  | .emptyStopband band edges points =>
    band.text ++ " stopband maps to no response points (edges " ++ edges.text
      ++ s!", {points} points)"
  | .silentResponse => "cannot normalize a linear response without a positive sample"
  | .silentTaps => "cannot scale coefficients with an all-zero response to unity gain"
  | .peakNotFinite peak x =>
    "stopband peak is " ++ displayDouble peak ++ " at x = " ++ displayDouble x
  | .described details => details

end ResponseFault

namespace UnsupportedFault

def message : UnsupportedFault → String
  | .transitionCount count =>
    s!"optimal placement handles at most 2 transition samples, spec has {count}"
  | .described details => details

end UnsupportedFault

namespace DesignError

def message : DesignError Float → String
  | .parityMismatch phase taps =>
    phase.text ++ " FIR cannot have " ++ (if taps % 2 = 0 then "even" else "odd")
      ++ s!" length (num_taps = {taps})"
  | .invalidConfig fault => "Invalid filter configuration: " ++ fault.message
  | .invalidParameter fault => "Invalid parameter error: " ++ fault.message
  | .degenerateLine x1 x2 =>
    "Degenerate search line: line minima x1 = " ++ displayDouble x1 ++ " and x2 = "
      ++ displayDouble x2 ++ " are too close to define a direction"
  | .degenerateResponse fault => "Degenerate response: " ++ fault.message
  | .unsupported fault => "Unsupported design: " ++ fault.message
  | .cancelled => "Search cancelled"
  | .deadlineExceeded => "Search deadline exceeded"
  | .io details => "I/O error: " ++ details

end DesignError
end FrequencySampling
