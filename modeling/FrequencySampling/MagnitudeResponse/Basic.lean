import FrequencySampling.DesignError

/-!
Magnitude responses, sampled at equal steps from zero up to but not including the folding frequency.
-/

namespace FrequencySampling

inductive MagnitudeScale where
  | linear
  | decibel
deriving DecidableEq, Repr

namespace MagnitudeScale

def isDecibel : MagnitudeScale → Bool
  | .linear => false
  | .decibel => true

/-- The magnitude of an amplitude on the scale. -/
def level {α : Type} [Scalar α] (scale : MagnitudeScale) (amplitude : α) : α :=
  match scale with
  | .linear => Scalar.abs amplitude
  | .decibel => (20 : Nat) * Scalar.log10 (Scalar.abs amplitude)

end MagnitudeScale

/-- The response indices from `start` up to but not including `stop`. -/
structure IndexRange where
  start : Nat
  stop : Nat
deriving DecidableEq, Repr

namespace IndexRange

def isEmpty (r : IndexRange) : Bool :=
  decide (r.stop ≤ r.start)

end IndexRange

structure MagnitudeResponse (α : Type) where
  values : Array α
  scale : MagnitudeScale

namespace MagnitudeResponse

variable {α : Type} [Scalar α]

/-- Where the search for an interval's peak starts; every real response lies above it. -/
def peakFloor : α :=
  -((9999 : Nat) : α)

/-- The least reference to which a decibel response is normalized. -/
def decibelFloor : α :=
  -((100 : Nat) : α)

/-- The number of points. -/
def size (r : MagnitudeResponse α) : Nat :=
  r.values.size

/-- The frequency of a point as a fraction of the folding frequency. -/
def frequency (r : MagnitudeResponse α) (index : Nat) : α :=
  (index : α) / r.size

/-- The largest sample, if any sample is a number. -/
def peak? (r : MagnitudeResponse α) : Option α :=
  r.values.foldl (fun best v =>
    match best with
    | some b => some (Scalar.larger b v)
    | none => if Scalar.isNaN v then none else some v) none

/-- The largest sample in a range, cut to the response. It starts at the floor, and a sample that is
not a number never wins. -/
def peakWithin (r : MagnitudeResponse α) (range : IndexRange) : α :=
  let stop := min range.stop r.size
  (r.values.extract (min range.start stop) stop).foldl (fun best v => if best < v then v else best)
    peakFloor

/-- The largest of the peaks of some ranges. -/
def peakOver (r : MagnitudeResponse α) (ranges : List IndexRange) : α :=
  (ranges.map r.peakWithin).foldl Scalar.larger peakFloor

/-- The response relative to its peak, which becomes zero decibels or one. -/
def normalize (r : MagnitudeResponse α) : Outcome α (MagnitudeResponse α) :=
  match r.scale with
  | .decibel =>
    let reference := Scalar.largestFrom decibelFloor r.values
    .ok { r with values := r.values.map (· - reference) }
  | .linear =>
    let reference := Scalar.largestFrom 0 r.values
    if reference ≤ 0 then .error (.degenerateResponse .silentResponse)
    else .ok { r with values := r.values.map (· / reference) }

end MagnitudeResponse
end FrequencySampling
