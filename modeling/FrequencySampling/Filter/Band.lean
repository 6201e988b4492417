/-!
Which parts of the spectrum a filter passes, and the sample indices at which its bands end.
-/

namespace FrequencySampling

inductive Band where
  | lowpass
  | highpass
  | bandpass
  | bandstop
deriving DecidableEq, Repr

namespace Band

/-- Band-pass and band-stop filters have three bands, hence four edges. -/
def hasFourEdges : Band → Bool
  | .lowpass | .highpass => false
  | .bandpass | .bandstop => true

/-- Whether the band that starts at frequency zero is passed; the bands above it alternate. -/
def passesLowest : Band → Bool
  | .lowpass | .bandstop => true
  | .highpass | .bandpass => false

def text : Band → String
  | .lowpass => "lowpass"
  | .highpass => "highpass"
  | .bandpass => "bandpass"
  | .bandstop => "bandstop"

end Band

/-- The last sample of one band and the first of the next, for the lower and the upper transition.
Filters with two bands leave the upper pair at zero. -/
structure BandEdges where
  n1 : Nat
  n2 : Nat
  n3 : Nat
  n4 : Nat
deriving DecidableEq, Repr

namespace BandEdges

def twoBand (n1 n2 : Nat) : BandEdges :=
  ⟨n1, n2, 0, 0⟩

def fourBand (n1 n2 n3 n4 : Nat) : BandEdges :=
  ⟨n1, n2, n3, n4⟩

/-- The edges with their names, as messages show them. -/
def text (e : BandEdges) : String :=
  "BandEdges \x7b n1: " ++ toString e.n1 ++ ", n2: " ++ toString e.n2 ++ ", n3: " ++ toString e.n3
    ++ ", n4: " ++ toString e.n4 ++ " \x7d"

end BandEdges
end FrequencySampling
