import FrequencySampling.Filter.Band
import FrequencySampling.Filter.Cutoff
import FrequencySampling.Json.Number
import FrequencySampling.Json.Record
import FrequencySampling.MagnitudeResponse.Grid

/-!
Stored forms of the choices and positions that describe a filter. A choice is stored by its name.
-/

namespace FrequencySampling

namespace Band

def storedName : Band → String
  | .lowpass => "Lowpass"
  | .highpass => "Highpass"
  | .bandpass => "Bandpass"
  | .bandstop => "Bandstop"

def all : List Band :=
  [.lowpass, .highpass, .bandpass, .bandstop]

def toJson (b : Band) : Json :=
  .str b.storedName

def ofJson? : Json → Option Band :=
  Json.choice? (all.map fun b => (b.storedName, b))

end Band

namespace LinearPhase

def storedName : LinearPhase → String
  | .typeI => "EvenSymOddLen"
  | .typeII => "EvenSymEvenLen"
  | .typeIII => "OddSymOddLen"
  | .typeIV => "OddSymEvenLen"

def all : List LinearPhase :=
  [.typeI, .typeII, .typeIII, .typeIV]

def toJson (p : LinearPhase) : Json :=
  .str p.storedName

def ofJson? : Json → Option LinearPhase :=
  Json.choice? (all.map fun p => (p.storedName, p))

end LinearPhase

namespace CutoffLevel

def storedName : CutoffLevel → String
  | .halfAmplitude => "HalfAmplitude"
  | .halfPower => "HalfPower"

def all : List CutoffLevel :=
  [.halfAmplitude, .halfPower]

def toJson (l : CutoffLevel) : Json :=
  .str l.storedName

def ofJson? : Json → Option CutoffLevel :=
  Json.choice? (all.map fun l => (l.storedName, l))

end CutoffLevel

namespace MagnitudeScale

def storedName : MagnitudeScale → String
  | .linear => "Linear"
  | .decibel => "Decibel"

def all : List MagnitudeScale :=
  [.linear, .decibel]

def toJson (s : MagnitudeScale) : Json :=
  .str s.storedName

def ofJson? : Json → Option MagnitudeScale :=
  Json.choice? (all.map fun s => (s.storedName, s))

end MagnitudeScale

namespace ResponseMethod

def storedName : ResponseMethod → String
  | .amplitude => "Trigonometric"
  | .fourier => "Fft"

def all : List ResponseMethod :=
  [.amplitude, .fourier]

def toJson (m : ResponseMethod) : Json :=
  .str m.storedName

def ofJson? : Json → Option ResponseMethod :=
  Json.choice? (all.map fun m => (m.storedName, m))

end ResponseMethod

namespace BandEdges

def toJson (e : BandEdges) : Json :=
  .record [("n1", .nat e.n1), ("n2", .nat e.n2), ("n3", .nat e.n3), ("n4", .nat e.n4)]

/-- All four edges have to be there. -/
def ofJson? (v : Json) : Option BandEdges := do
  match ← v.fields? ["n1", "n2", "n3", "n4"] with
  | [n1, n2, n3, n4] =>
    return ⟨← Json.required Json.toNat? n1, ← Json.required Json.toNat? n2,
      ← Json.required Json.toNat? n3, ← Json.required Json.toNat? n4⟩
  | _ => none

end BandEdges

namespace Cutoff

variable {α : Type} [StoredNumber α]

def toJson (c : Cutoff α) : Json :=
  .record [("fraction", .ofNumber c.fraction), ("kind", c.level.toJson)]

/-- Any number is read as a fraction; whether it is a cutoff is checked where it is used. -/
def ofJson? (v : Json) : Option (Cutoff α) := do
  match ← v.fields? ["fraction", "kind"] with
  | [fraction, level] =>
    return ⟨← Json.required Json.toNumber? fraction, ← Json.required CutoffLevel.ofJson? level⟩
  | _ => none

end Cutoff
end FrequencySampling
