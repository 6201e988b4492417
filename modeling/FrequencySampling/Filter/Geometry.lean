import FrequencySampling.DesignError

/-!
The geometry of a filter: its length, its symmetry and where its bands lie among the frequency
samples. The samples are numbered from zero to half the length; the fold is the last of them below
the folding frequency.
-/

namespace FrequencySampling

/-- A number of taps has the parity of the symmetry type. -/
def LinearPhase.check {α : Type} (p : LinearPhase) (taps : Nat) : Outcome α Unit :=
  if p.admits taps then .ok () else .error (.parityMismatch p taps)

structure Geometry where
  numTaps : Nat
  band : Band
  phase : LinearPhase
  edges : BandEdges
deriving DecidableEq, Repr

namespace Geometry

/-- The last sample below the folding frequency, which even lengths sample as well. -/
def foldOf (numTaps : Nat) : Nat :=
  if numTaps % 2 = 0 then numTaps / 2 - 1 else (numTaps - 1) / 2

def fold (g : Geometry) : Nat :=
  foldOf g.numTaps

/-- The number of samples strictly between the lowest band and the next. -/
def numTransitions (g : Geometry) : Nat :=
  g.edges.n2 - g.edges.n1 - 1

/-- The number of samples from zero to half the length. -/
def numSamples (g : Geometry) : Nat :=
  g.numTaps / 2 + 1

/-- The edges are in order, below the fold, and leave transitions of one width. -/
def checkEdges {α : Type} (band : Band) (edges : BandEdges) (fold : Nat) : Outcome α Unit :=
  let ⟨n1, n2, n3, n4⟩ := edges
  if n2 ≤ n1 then .error (.invalidConfig (.lowerEdgesOutOfOrder n1 n2))
  else if !band.hasFourEdges then
    if fold < n2 then .error (.invalidConfig (.edgeBeyondFold n2 fold)) else .ok ()
  else if n3 < n2 ∨ n4 ≤ n3 ∨ fold < n4 then
    .error (.invalidConfig (.upperEdgesOutOfOrder band fold n2 n3 n4))
  else if n4 - n3 ≠ n2 - n1 then
    .error (.invalidConfig (.unequalTransitions band (n2 - n1) (n4 - n3)))
  else .ok ()

/-- A filter can be designed for the geometry: its length suits its symmetry and holds a passband
and a stopband, and its edges fit. -/
def check {α : Type} (g : Geometry) : Outcome α Unit := do
  g.phase.check g.numTaps
  if g.numTaps < 3 then throw (.invalidConfig (.tooFewTaps g.numTaps))
  checkEdges g.band g.edges g.fold

/-- The sample that a transition slot writes. Slots are counted from the stopband of low-pass and
band-stop filters, and upwards for the others. -/
def slotIndex (g : Geometry) (slot : Nat) : Nat :=
  match g.band with
  | .lowpass | .bandstop => g.edges.n2 - 1 - slot
  | .highpass | .bandpass => g.edges.n1 + 1 + slot

/-- The sample of the upper transition that a slot writes as well, its mirror image. -/
def mirrorIndex? (g : Geometry) (slot : Nat) : Option Nat :=
  match g.band with
  | .lowpass | .highpass => none
  | .bandpass => some (g.edges.n4 - 1 - slot)
  | .bandstop => some (g.edges.n3 + 1 + slot)

end Geometry
end FrequencySampling
