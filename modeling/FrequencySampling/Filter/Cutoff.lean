import FrequencySampling.DesignError

/-!
Cutoff frequencies as fractions of the folding frequency.
-/

namespace FrequencySampling

/-- The response level that a cutoff refers to. -/
inductive CutoffLevel where
  /-- Half the amplitude, six decibels down. -/
  | halfAmplitude
  /-- Half the power, three decibels down. -/
  | halfPower
deriving DecidableEq, Repr

structure Cutoff (α : Type) where
  fraction : α
  level : CutoffLevel

namespace Cutoff

variable {α : Type} [Scalar α]

/-- The cutoff itself if it lies strictly between zero and the folding frequency. -/
def checked (c : Cutoff α) : Outcome α (Cutoff α) :=
  if 0 < c.fraction ∧ c.fraction < 1 then .ok c
  else .error (.invalidParameter (.cutoffOutOfRange c.fraction))

/-- A cutoff at a given ratio of the folding frequency. -/
def ofRatio (numerator denominator : α) (level : CutoffLevel) : Outcome α (Cutoff α) :=
  if denominator == 0 then .error (.invalidParameter .zeroDenominator)
  else checked ⟨numerator / denominator, level⟩

/-- A cutoff in hertz for a sampling rate in hertz. -/
def ofHertz (cutoff rate : α) (level : CutoffLevel) : Outcome α (Cutoff α) :=
  if Scalar.isNaN rate ∨ rate ≤ 0 then .error (.invalidParameter (.sampleRate rate))
  else checked ⟨(2 : Nat) * cutoff / rate, level⟩

end Cutoff
end FrequencySampling
