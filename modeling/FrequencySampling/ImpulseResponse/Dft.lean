import FrequencySampling.ImpulseResponse.Basic
import FrequencySampling.Turn

/-!
The frequency response by a discrete Fourier transform. A transform of twice as many points as the
grid samples the response on that grid; taps beyond its length are folded back onto its start, which
changes nothing at the frequencies sampled. The terms of a bin that are half a transform apart have
factors that agree or are opposite, so they are combined first; where they cancel, nothing is left.
-/

namespace FrequencySampling.ImpulseResponse

variable {α : Type} [Scalar α]

/-- The taps whose indices leave a given remainder, added up. -/
def foldedTap (h : ImpulseResponse α) (length index : Nat) : α :=
  Scalar.sumUpTo 0 (fun m => h.tap (index + (m - 1) * length)) (h.numTaps / length + 1)

/-- The input of a transform; what it does not list is zero. -/
def foldedTaps (h : ImpulseResponse α) (length : Nat) : Array α :=
  (Array.range (min h.numTaps length)).map (h.foldedTap length)

/-- Combines every entry of the first half of an input with its counterpart in the second. -/
def overlay (combine : α → α → α) (half : Nat) (input : Array α) : Array α :=
  (Array.range (min input.size half)).map fun n =>
    combine (input.getD n 0) (input.getD (n + half) 0)

/-- The real and the imaginary part of a bin, term by term. -/
def binSum (length bin : Nat) (input : Array α) : α × α :=
  (Scalar.sumUpTo 0
      (fun n => input.getD (n - 1) 0 * Turn.cos ⟨bin * (n - 1), length⟩) input.size,
    -Scalar.sumUpTo 0
      (fun n => input.getD (n - 1) 0 * Turn.sin ⟨bin * (n - 1), length⟩) input.size)

/-- The real and the imaginary part of a bin. In an even bin of an even length the halves of the
input have the same factors, and it is a bin of half the length; in an odd bin they have opposite
ones. -/
def binValue (length bin : Nat) (input : Array α) : α × α :=
  if length = 0 ∨ length % 2 = 1 then binSum length bin input
  else if bin % 2 = 0 then
    binValue (length / 2) (bin / 2) (overlay (· + ·) (length / 2) input)
  else binSum length bin (overlay (· - ·) (length / 2) input)
termination_by length

/-- The magnitude of one bin of the transform. -/
def binMagnitude (input : Array α) (length bin : Nat) : α :=
  let (re, im) := binValue length bin input
  Scalar.hypot re im

/-- The magnitude of the frequency response at every point of a grid. -/
def dftMagnitudes (h : ImpulseResponse α) (points : Nat) : Array α :=
  let input := h.foldedTaps (2 * points)
  (Array.range points).map (binMagnitude input (2 * points))

end FrequencySampling.ImpulseResponse
