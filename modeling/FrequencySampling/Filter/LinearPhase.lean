import FrequencySampling.Scalar

/-!
The four kinds of linear-phase filters: impulse responses of odd or even length that are even or odd
about their middle.
-/

namespace FrequencySampling

inductive LinearPhase where
  /-- Even symmetry, odd length. -/
  | typeI
  /-- Even symmetry, even length. -/
  | typeII
  /-- Odd symmetry, odd length. -/
  | typeIII
  /-- Odd symmetry, even length. -/
  | typeIV
deriving DecidableEq, Repr

namespace LinearPhase

def hasOddLength : LinearPhase → Bool
  | .typeI | .typeIII => true
  | .typeII | .typeIV => false

def isEven : LinearPhase → Bool
  | .typeI | .typeII => true
  | .typeIII | .typeIV => false

/-- The factor between a tap and its reflection in the middle. -/
def mirrorSign {α : Type} [Scalar α] (p : LinearPhase) : α :=
  if p.isEven then 1 else -1

/-- Whether a number of taps has the parity of the type. -/
def admits (p : LinearPhase) (taps : Nat) : Bool :=
  (taps % 2 == 1) == p.hasOddLength

def text : LinearPhase → String
  | .typeI => "type 1 (even symmetry, odd length)"
  | .typeII => "type 2 (even symmetry, even length)"
  | .typeIII => "type 3 (odd symmetry, odd length)"
  | .typeIV => "type 4 (odd symmetry, even length)"

end LinearPhase
end FrequencySampling
