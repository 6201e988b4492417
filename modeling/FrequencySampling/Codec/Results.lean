import FrequencySampling.Codec.Filter
import FrequencySampling.FilterDesign
import FrequencySampling.HalfSpectrum.Placement

/-!
Stored forms of what the library computes. They are written only; `number` says how a number is
stored.
-/

namespace FrequencySampling

variable {α : Type}

namespace Json

def list (number : α → Json) (xs : List α) : Json :=
  .array (xs.map number)

/-- A one-dimensional array with its format version and its size. -/
def vector (number : α → Json) (xs : Array α) : Json :=
  .record [("v", .nat 1), ("dim", .array [.nat xs.size]), ("data", list number xs.toList)]

end Json

def HalfSpectrum.toJson (number : α → Json) (s : HalfSpectrum α) : Json :=
  .record [("num_taps", .nat s.geometry.numTaps), ("band_config", s.geometry.band.toJson),
    ("symmetry", s.geometry.phase.toJson), ("edges", s.geometry.edges.toJson),
    ("desired_magnitude", .list number s.desired.toList)]

def SlotLine.toJson (number : α → Json) (line : SlotLine α) : Json :=
  .record [("origins", .list number (line.slots.map (·.origin))),
    ("slopes", .list number (line.slots.map (·.slope)))]

def Placement.toJson (number : α → Json) (p : Placement α) : Json :=
  .record [("n1", .nat p.edge), ("predicted_cutoff", number p.predicted)]

def ImpulseResponse.toJson (number : α → Json) (h : ImpulseResponse α) : Json :=
  .record [("taps", .vector number h.taps), ("symmetry", h.phase.toJson)]

def MagnitudeResponse.toJson (number : α → Json) (r : MagnitudeResponse α) : Json :=
  .record [("values", .vector number r.values), ("scale", r.scale.toJson)]

def LineMinimum.toJson (number : α → Json) (m : LineMinimum α) : Json :=
  .record [("x", number m.x), ("f", number m.f), ("converged", .bool m.converged),
    ("iterations", .nat m.iterations), ("evaluations", .nat m.evaluations)]

def FilterDesign.toJson (number : α → Json) (d : FilterDesign α) : Json :=
  .record [("spec", d.spectrum.toJson number), ("coefficients", d.impulse.toJson number),
    ("response", d.response.toJson number), ("stopband_peak", number d.stopbandPeak),
    ("transition_values", .list number d.transitions), ("converged", .bool d.converged),
    ("evaluations", .nat d.evaluations)]

end FrequencySampling
