import FrequencySampling.HalfSpectrum.Basic
import FrequencySampling.HalfSpectrum.SlotLine

/-!
Reading and writing the transition samples. They are addressed by slot; a slot of a filter with two
transitions also writes its mirror image, so that both transitions keep the same shape.
-/

namespace FrequencySampling.HalfSpectrum

variable {α : Type} [Scalar α]

/-- The number of free samples. -/
def numTransitions (s : HalfSpectrum α) : Nat :=
  s.geometry.numTransitions

/-- The values of the transition slots, in slot order. -/
def transitionValues (s : HalfSpectrum α) : List α :=
  (List.range s.numTransitions).map fun slot => s.sample (s.geometry.slotIndex slot)

/-- Writes one slot and its mirror image. -/
def writeSlot (s : HalfSpectrum α) (slot : Nat) (value : α) : HalfSpectrum α :=
  let written := s.desired.setIfInBounds (s.geometry.slotIndex slot) value
  match s.geometry.mirrorIndex? slot with
  | none => { s with desired := written }
  | some k => { s with desired := written.setIfInBounds k value }

/-- Writes slots from the given one onwards. -/
def writeSlots (s : HalfSpectrum α) (slot : Nat) : List α → HalfSpectrum α
  | [] => s
  | v :: vs => writeSlots (s.writeSlot slot v) (slot + 1) vs

def checkSlotCount (s : HalfSpectrum α) (given : Nat) : Outcome α Unit :=
  if given = s.numTransitions then .ok ()
  else .error (.invalidParameter (.slotCount s.geometry.band s.numTransitions given))

/-- Writes every slot; there must be one value for each. -/
def setTransitions (s : HalfSpectrum α) (values : List α) : Outcome α (HalfSpectrum α) := do
  s.checkSlotCount values.length
  return s.writeSlots 0 values

/-- Writes the point of a line at a parameter; the line must have one slot for each sample. -/
def setOnLine (s : HalfSpectrum α) (line : SlotLine α) (rho : α) :
    Outcome α (HalfSpectrum α) := do
  s.checkSlotCount line.numSlots
  return s.writeSlots 0 (line.values rho)

/-- Writes the first slot. Without one the sample there belongs to a band and is left alone. -/
def setScalar (s : HalfSpectrum α) (value : α) : Outcome α (HalfSpectrum α) :=
  if s.numTransitions = 0 then
    .error (.invalidParameter (.noTransitionSample s.geometry.band))
  else .ok (s.writeSlot 0 value)

end FrequencySampling.HalfSpectrum
