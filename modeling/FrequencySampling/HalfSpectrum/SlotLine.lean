import FrequencySampling.DesignError

/-!
Lines through the space of transition samples. A search over several samples becomes a family of
searches over one parameter, along a line that gives each transition slot an origin and a slope.
-/

namespace FrequencySampling

/-- One coordinate of a line: `origin + rho * slope`. -/
structure LineSlot (α : Type) where
  origin : α
  slope : α

namespace LineSlot

variable {α : Type} [Scalar α]

def value (s : LineSlot α) (rho : α) : α :=
  s.origin + rho * s.slope

/-- The parameters at which a slot that moves takes the values zero and one. -/
def atZero (s : LineSlot α) : α :=
  -s.origin / s.slope

def atOne (s : LineSlot α) : α :=
  (1 - s.origin) / s.slope

end LineSlot

structure SlotLine (α : Type) where
  slots : List (LineSlot α)

namespace SlotLine

variable {α : Type} [Scalar α]

/-- The line with the given origins and slopes, one each for every slot. -/
def ofLists (origins slopes : List α) : Outcome α (SlotLine α) :=
  if origins.isEmpty ∨ origins.length ≠ slopes.length then
    .error (.invalidParameter (.lineShape origins.length slopes.length))
  else .ok ⟨List.zipWith LineSlot.mk origins slopes⟩

def numSlots (line : SlotLine α) : Nat :=
  line.slots.length

def origins (line : SlotLine α) : List α :=
  line.slots.map (·.origin)

def slopes (line : SlotLine α) : List α :=
  line.slots.map (·.slope)

/-- The value of one slot at a parameter. -/
def value? (line : SlotLine α) (slot : Nat) (rho : α) : Option α :=
  line.slots[slot]?.map (·.value rho)

/-- The values of all slots at a parameter. -/
def values (line : SlotLine α) (rho : α) : List α :=
  line.slots.map (·.value rho)

/-- The line with one slot replaced. -/
def setSlot? (line : SlotLine α) (slot : Nat) (origin slope : α) :
    Option (SlotLine α) :=
  if slot < line.slots.length then some ⟨line.slots.set slot ⟨origin, slope⟩⟩ else none

/-- Bounds on the parameter, each absent while nothing bounds it. -/
structure Bounds (α : Type) where
  lo : Option α
  hi : Option α

namespace Bounds

/-- Tightens a bound by a new one, where a value that is not a number tightens nothing. -/
def tighten (choose : α → α → α) (bound : Option α) (x : α) : Option α :=
  match bound with
  | some b => some (choose b x)
  | none => if Scalar.isNaN x then none else some x

/-- The parameters at which a moving slot is within the unit interval lie between two points, in
whichever order the slope puts them. -/
def restrict (b : Bounds α) (s : LineSlot α) : Bounds α :=
  { lo := tighten Scalar.larger b.lo (Scalar.smaller s.atZero s.atOne)
    hi := tighten Scalar.smaller b.hi (Scalar.larger s.atZero s.atOne) }

/-- Bounds that hold for all slots, or nothing if a slot that does not move is out of range. -/
def ofSlots : List (LineSlot α) → Bounds α → Option (Bounds α)
  | [], b => some b
  | s :: rest, b =>
    if s.slope == 0 then
      if 0 ≤ s.origin ∧ s.origin ≤ 1 then ofSlots rest b else none
    else ofSlots rest (b.restrict s)

end Bounds

/-- The parameters for which every slot stays within the unit interval, if they form a bounded
interval. -/
def unitDomain? (line : SlotLine α) : Option (α × α) :=
  match Bounds.ofSlots line.slots ⟨none, none⟩ with
  | some ⟨some lo, some hi⟩ =>
    if Scalar.isFinite lo ∧ Scalar.isFinite hi ∧ lo ≤ hi then some (lo, hi) else none
  | _ => none

end SlotLine
end FrequencySampling
