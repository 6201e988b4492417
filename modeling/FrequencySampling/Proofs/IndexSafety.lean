import FrequencySampling.ImpulseResponse.Amplitude
import FrequencySampling.Proofs.Transform.Reflection
import FrequencySampling.Proofs.TransitionWrites

/-!
No access of the library leaves its array. Arrays are read and written as if every index were in
range, and indices are subtracted as if nothing went below zero; that this is so rests on the order
of the band edges, on the fold and on the parity of the length. Beside each program that does so
stands one that looks before every step and gives nothing where the other would go astray. On all
half spectra that can be made the two agree, so the looking was needless.
-/

namespace FrequencySampling

variable {α : Type}

namespace Guarded

/-- Subtraction that does not go below zero. -/
def sub (a b : Nat) : Option Nat :=
  if b ≤ a then some (a - b) else none

/-- Overwrites an entry that there is. -/
def set (xs : Array α) (k : Nat) (v : α) : Option (Array α) :=
  if k < xs.size then some (xs.setIfInBounds k v) else none

theorem sub_eq_some_iff {a b c : Nat} : sub a b = some c ↔ b ≤ a ∧ a - b = c := by
  simp only [sub, Option.ite_none_right_eq_some, Option.some.injEq]

theorem set_eq_some_iff {xs ys : Array α} {k : Nat} {v : α} :
    set xs k v = some ys ↔ k < xs.size ∧ xs.setIfInBounds k v = ys := by
  simp only [set, Option.ite_none_right_eq_some, Option.some.injEq]

theorem sub_of_le {a b : Nat} (h : b ≤ a) : sub a b = some (a - b) :=
  sub_eq_some_iff.mpr ⟨h, rfl⟩

theorem set_of_lt {xs : Array α} {k : Nat} (h : k < xs.size) (v : α) :
    set xs k v = some (xs.setIfInBounds k v) :=
  set_eq_some_iff.mpr ⟨h, rfl⟩

theorem getElem?_of_lt [Zero α] {xs : Array α} {k : Nat} (h : k < xs.size) :
    xs[k]? = some (xs.getD k 0) := by
  rw [Array.getElem?_eq_getElem h, Array.getD, dif_pos h]
  rfl

section Slots

variable {g : Geometry} {s : HalfSpectrum α} {slot : Nat}

def foldOf (numTaps : Nat) : Option Nat :=
  if numTaps % 2 = 0 then sub (numTaps / 2) 1 else (sub numTaps 1).map (· / 2)

def numTransitions (g : Geometry) : Option Nat := do
  sub (← sub g.edges.n2 g.edges.n1) 1

-- A sum needs no guard of its own: one that stays within the samples has not overflowed.
def slotIndex (g : Geometry) (slot : Nat) : Option Nat :=
  match g.band with
  | .lowpass | .bandstop => do sub (← sub g.edges.n2 1) slot
  | .highpass | .bandpass => some (g.edges.n1 + 1 + slot)

/-- The index of the mirror image, where a slot has one. -/
def mirrorIndex (g : Geometry) (slot : Nat) : Option (Option Nat) :=
  match g.band with
  | .lowpass | .highpass => some none
  | .bandpass => do return some (← sub (← sub g.edges.n4 1) slot)
  | .bandstop => some (some (g.edges.n3 + 1 + slot))

def readSlot (s : HalfSpectrum α) (slot : Nat) : Option α := do
  s.desired[← slotIndex s.geometry slot]?

def writeSlot (s : HalfSpectrum α) (slot : Nat) (v : α) : Option (HalfSpectrum α) := do
  let written ← set s.desired (← slotIndex s.geometry slot) v
  match ← mirrorIndex s.geometry slot with
  | none => return { s with desired := written }
  | some k => return { s with desired := ← set written k v }

def writeSlots (s : HalfSpectrum α) (slot : Nat) : List α → Option (HalfSpectrum α)
  | [] => some s
  | v :: vs => do writeSlots (← writeSlot s slot v) (slot + 1) vs

theorem foldOf_eq {numTaps : Nat} (h : 3 ≤ numTaps) :
    foldOf numTaps = some (Geometry.foldOf numTaps) := by
  unfold foldOf Geometry.foldOf
  split
  · exact sub_of_le (by omega)
  · rw [sub_of_le (by omega), Option.map_some]

theorem numTransitions_eq (hs : s.WellFormed) :
    numTransitions s.geometry = some s.numTransitions := by
  have hlower := (Geometry.edges_fit_of_check hs.check).lower
  rw [numTransitions, sub_of_le hlower.le]
  exact sub_of_le (by omega)

theorem slotIndex_eq (hslot : slot < g.numTransitions) :
    slotIndex g slot = some (g.slotIndex slot) := by
  unfold Geometry.numTransitions at hslot
  unfold slotIndex Geometry.slotIndex
  cases g.band with
  | lowpass | bandstop =>
      dsimp only
      rw [sub_of_le (show 1 ≤ g.edges.n2 by omega)]
      exact sub_of_le (by omega)
  | highpass | bandpass => rfl

theorem mirrorIndex_eq (h : g.check = (.ok () : Outcome α Unit)) (hslot : slot < g.numTransitions) :
    mirrorIndex g slot = some (g.mirrorIndex? slot) := by
  unfold Geometry.numTransitions at hslot
  unfold mirrorIndex Geometry.mirrorIndex?
  cases hb : g.band with
  | lowpass | highpass | bandstop => rfl
  | bandpass =>
      -- Both transitions are equally wide, so a slot fits into the upper one as well.
      have hwidth := ((Geometry.edges_fit_of_check h).four (by rw [hb]; rfl)).2.2.2
      dsimp only
      rw [sub_of_le (show 1 ≤ g.edges.n4 by omega), Option.bind_eq_bind, Option.bind_some,
        sub_of_le (by omega)]
      rfl

theorem readSlot_eq [Scalar α] (hs : s.WellFormed) (hslot : slot < s.numTransitions) :
    readSlot s slot = some (s.sample (s.geometry.slotIndex slot)) := by
  have hsize : s.geometry.slotIndex slot < s.desired.size := by
    rw [hs.size_eq]
    exact Geometry.lt_numSamples_of_touches hs.check hslot (.inl rfl)
  rw [readSlot, slotIndex_eq hslot]
  exact getElem?_of_lt hsize

theorem writeSlot_eq (hs : s.WellFormed) (hslot : slot < s.numTransitions) (v : α) :
    writeSlot s slot v = some (s.writeSlot slot v) := by
  have hsize : ∀ k, s.geometry.Touches slot k → k < s.desired.size := by
    intro k hk
    rw [hs.size_eq]
    exact Geometry.lt_numSamples_of_touches hs.check hslot hk
  rw [writeSlot, slotIndex_eq hslot, Option.bind_eq_bind, Option.bind_some,
    set_of_lt (hsize _ (.inl rfl)), Option.bind_eq_bind, Option.bind_some,
    mirrorIndex_eq hs.check hslot, Option.bind_eq_bind, Option.bind_some, HalfSpectrum.writeSlot]
  cases himage : s.geometry.mirrorIndex? slot with
  | none => rfl
  | some k =>
      dsimp only
      rw [set_of_lt (by rw [Array.size_setIfInBounds]; exact hsize k (.inr himage))]
      rfl

theorem writeSlots_eq (hs : s.WellFormed) {vs : List α}
    (hvs : slot + vs.length ≤ s.numTransitions) :
    writeSlots s slot vs = some (s.writeSlots slot vs) := by
  induction vs generalizing s slot with
  | nil => rfl
  | cons v vs ih =>
      rw [List.length_cons] at hvs
      have hkept := HalfSpectrum.agreesOff_writeSlot s slot v
      rw [writeSlots, writeSlot_eq hs (by omega), HalfSpectrum.writeSlots]
      refine ih (hs.of_agreesOff hkept) ?_
      rw [hkept.numTransitions_eq]
      omega

end Slots

section Writes

variable {s : HalfSpectrum α}

/-- Writes the values if as many are given as there are slots. Otherwise the write is refused, which
is an answer. -/
def writeCounted (s : HalfSpectrum α) (given : Nat) (values : List α) :
    Option (Outcome α (HalfSpectrum α)) := do
  let count ← numTransitions s.geometry
  if given = count then return .ok (← writeSlots s 0 values)
  else return .error (.invalidParameter (.slotCount s.geometry.band count given))

def write [Scalar α] (s : HalfSpectrum α) : TransitionWrite α → Option (Outcome α (HalfSpectrum α))
  | .all values => writeCounted s values.length values
  | .onLine line rho => writeCounted s line.numSlots (line.values rho)
  | .first value => do
    let count ← numTransitions s.geometry
    if count = 0 then return .error (.invalidParameter (.noTransitionSample s.geometry.band))
    else return .ok (← writeSlot s 0 value)

theorem writeCounted_eq (hs : s.WellFormed) {given : Nat} {values : List α}
    (hvalues : values.length = given) :
    writeCounted s given values =
      some (do s.checkSlotCount given; return s.writeSlots 0 values) := by
  rw [writeCounted, numTransitions_eq hs, HalfSpectrum.checked_slots_eq, Option.bind_eq_bind,
    Option.bind_some]
  split
  · rename_i hgiven
    rw [writeSlots_eq hs (by omega)]
    rfl
  · rfl

theorem write_eq [Scalar α] (hs : s.WellFormed) (w : TransitionWrite α) :
    write s w = some (w.apply s) := by
  cases w with
  | all values => exact writeCounted_eq hs rfl
  | onLine line rho => exact writeCounted_eq hs (line.length_values rho)
  | first value =>
      rw [write, numTransitions_eq hs, TransitionWrite.apply, HalfSpectrum.setScalar,
        Option.bind_eq_bind, Option.bind_some]
      split
      · rfl
      · rename_i hsome
        rw [writeSlot_eq hs (Nat.pos_of_ne_zero hsome)]
        rfl

end Writes

section Sums

variable [Scalar α]

def sumUpTo (start : Option α) (term : Nat → Option α) (count : Nat) : Option α :=
  count.fold (fun k _ sum => do return (← sum) + (← term (k + 1))) start

theorem sumUpTo_eq {start : Option α} {a : α} {term : Nat → Option α} {t : Nat → α} {count : Nat}
    (hstart : start = some a) (hterm : ∀ k, 1 ≤ k → k ≤ count → term k = some (t k)) :
    sumUpTo start term count = some (Scalar.sumUpTo a t count) := by
  induction count with
  | zero => exact hstart
  | succ count ih =>
      have hearlier := ih fun k hk hle => hterm k hk (by omega)
      rw [sumUpTo] at hearlier ⊢
      rw [Nat.fold_succ, hearlier, hterm (count + 1) (by omega) le_rfl, Scalar.sumUpTo_succ]
      rfl

end Sums

section Synthesis

variable [Scalar α]

def cosineSum (h : Nat → Option α) (x : α) (upper : Nat) : Option α :=
  sumUpTo (h 0) (fun k => (h k).map fun v => (2 : Nat) * Scalar.cos (x * (k : α)) * v) upper

def sineSum (h : Nat → Option α) (x : α) (upper : Nat) : Option α :=
  sumUpTo (some 0) (fun k => (h k).map fun v => (2 : Nat) * Scalar.sin (x * (k : α)) * v) upper

def tapSum (s : HalfSpectrum α) (offset : α) : Option α :=
  let taps := s.geometry.numTaps
  let sample := fun k => s.desired[k]?
  match s.geometry.phase with
  | .typeI => do
    cosineSum sample ((2 : Nat) * Scalar.pi * offset / taps) ((← sub taps 1) / 2)
  | .typeII => do
    cosineSum sample ((2 : Nat) * Scalar.pi * offset / taps) (← sub (taps / 2) 1)
  | .typeIII => do
    sineSum sample (-(2 : Nat) * Scalar.pi * offset / taps) ((← sub taps 1) / 2)
  | .typeIV => do
    let folding ← sample (taps / 2)
    let rest ← sineSum sample (-(2 : Nat) * Scalar.pi * offset / taps) (← sub (taps / 2) 1)
    return Scalar.sin (-Scalar.pi * offset) * folding + rest

/-- The tap at an index, as synthesis computes it. -/
def tapOf (s : HalfSpectrum α) (n : Nat) : Option α :=
  let middle : α := ((s.geometry.numTaps : α) - 1) / (2 : Nat)
  (tapSum s ((n : α) - middle)).map (· / s.geometry.numTaps)

variable {s : HalfSpectrum α} {h : Nat → Option α} {t : Nat → α} {upper : Nat}

theorem cosineSum_eq (x : α) (hread : ∀ k ≤ upper, h k = some (t k)) :
    cosineSum h x upper = some (ImpulseResponse.cosineSum t x upper) := by
  refine sumUpTo_eq (hread 0 (Nat.zero_le _)) fun k _ hk => ?_
  rw [hread k hk, Option.map_some]

theorem sineSum_eq (x : α) (hread : ∀ k ≤ upper, h k = some (t k)) :
    sineSum h x upper = some (ImpulseResponse.sineSum t x upper) := by
  refine sumUpTo_eq rfl fun k _ hk => ?_
  rw [hread k hk, Option.map_some]

theorem tapSum_eq (hs : s.WellFormed) (offset : α) :
    tapSum s offset = some (ImpulseResponse.tapSum s offset) := by
  have hthree := Geometry.three_le_of_check hs.check
  have hread : ∀ k ≤ s.geometry.numTaps / 2, s.desired[k]? = some (s.sample k) := by
    intro k hk
    refine getElem?_of_lt ?_
    rw [hs.size_eq, Geometry.numSamples]
    omega
  unfold tapSum ImpulseResponse.tapSum
  cases s.geometry.phase with
  | typeI =>
      dsimp only
      rw [sub_of_le (show 1 ≤ s.geometry.numTaps by omega)]
      exact cosineSum_eq _ fun k hk => hread k (by omega)
  | typeII =>
      dsimp only
      rw [sub_of_le (show 1 ≤ s.geometry.numTaps / 2 by omega)]
      exact cosineSum_eq _ fun k hk => hread k (by omega)
  | typeIII =>
      dsimp only
      rw [sub_of_le (show 1 ≤ s.geometry.numTaps by omega)]
      exact sineSum_eq _ fun k hk => hread k (by omega)
  | typeIV =>
      dsimp only
      rw [sub_of_le (show 1 ≤ s.geometry.numTaps / 2 by omega), hread _ le_rfl,
        Option.bind_eq_bind, Option.bind_some, Option.bind_eq_bind, Option.bind_some,
        sineSum_eq _ fun k hk => hread k (by omega)]
      rfl

theorem tapOf_eq (hs : s.WellFormed) (n : Nat) :
    tapOf s n = some (ImpulseResponse.tapOf s n) := by
  rw [tapOf, tapSum_eq hs]
  rfl

end Synthesis

section Amplitude

variable [Scalar α]

/-- The tap at a distance before a given one. -/
def tapBefore (h : ImpulseResponse α) (centre n : Nat) : Option α := do
  h.taps[← sub centre n]?

def amplitudeAt (h : ImpulseResponse α) (lambda : α) : Option α := do
  let half := h.numTaps / 2
  let middle := (← sub h.numTaps 1) / 2
  match h.phase with
  | .typeI =>
    sumUpTo h.taps[middle]?
      (fun n => (tapBefore h middle n).map fun v =>
        (2 : Nat) * v * Scalar.cos ((n : α) * lambda)) middle
  | .typeII =>
    sumUpTo (some 0)
      (fun n => (tapBefore h half n).map fun v =>
        (2 : Nat) * v * Scalar.cos (((n : α) - 0.5) * lambda)) half
  | .typeIII =>
    sumUpTo (some 0)
      (fun n => (tapBefore h middle n).map fun v =>
        (2 : Nat) * v * Scalar.sin ((n : α) * lambda)) middle
  | .typeIV =>
    sumUpTo (some 0)
      (fun n => (tapBefore h half n).map fun v =>
        (2 : Nat) * v * Scalar.sin (((n : α) - 0.5) * lambda)) half

variable {h : ImpulseResponse α}

theorem tapBefore_eq {centre n : Nat} (hcentre : centre < h.numTaps) (hn : n ≤ centre) :
    tapBefore h centre n = some (h.tap (centre - n)) := by
  rw [tapBefore, sub_of_le hn]
  exact getElem?_of_lt (Nat.lt_of_le_of_lt (Nat.sub_le _ _) hcentre)

theorem amplitudeAt_eq (hpos : 0 < h.numTaps) (lambda : α) :
    amplitudeAt h lambda = some (h.amplitudeAt lambda) := by
  have hhalf : h.numTaps / 2 < h.numTaps := by omega
  have hmiddle : (h.numTaps - 1) / 2 < h.numTaps := by omega
  unfold amplitudeAt ImpulseResponse.amplitudeAt
  rw [sub_of_le (by omega), Option.bind_eq_bind, Option.bind_some]
  dsimp only
  cases h.phase with
  | typeI =>
      refine sumUpTo_eq (getElem?_of_lt hmiddle) fun n _ hn => ?_
      rw [tapBefore_eq hmiddle hn, Option.map_some]
  | typeII | typeIV =>
      refine sumUpTo_eq rfl fun n _ hn => ?_
      rw [tapBefore_eq hhalf hn, Option.map_some]
  | typeIII =>
      refine sumUpTo_eq rfl fun n _ hn => ?_
      rw [tapBefore_eq hmiddle hn, Option.map_some]

end Amplitude

end Guarded

namespace HalfSpectrum

variable [Scalar α] {g : Geometry} {s : HalfSpectrum α}

/-- What may be written from outside: any one sample, or transition samples. -/
inductive Setter (α : Type) where
  | sample (k : Nat) (value : α)
  | transitions (w : TransitionWrite α)

def Setter.apply (s : HalfSpectrum α) : Setter α → Outcome α (HalfSpectrum α)
  | .sample k value => s.setSample k value
  | .transitions w => w.apply s

/-- The half spectrum after a setter. One that is refused leaves it as it is. -/
def Setter.leave (s : HalfSpectrum α) (setter : Setter α) : HalfSpectrum α :=
  (setter.apply s).toOption.getD s

/-- The half spectra that can be made for a geometry. -/
inductive Reachable (g : Geometry) : HalfSpectrum α → Prop
  | new {s : HalfSpectrum α} (h : ofGeometry g = .ok s) : Reachable g s
  | set {s : HalfSpectrum α} (hs : Reachable g s) (setter : Setter α) :
      Reachable g (setter.leave s)

theorem WellFormed.leave (hs : s.WellFormed) (setter : Setter α) :
    (setter.leave s).WellFormed ∧ (setter.leave s).geometry = s.geometry := by
  unfold Setter.leave
  cases ha : setter.apply s with
  | error e => exact ⟨hs, rfl⟩
  | ok t =>
      change t.WellFormed ∧ t.geometry = s.geometry
      cases setter with
      | sample k value =>
          rw [Setter.apply, setSample] at ha
          split at ha
          · cases ha
            exact ⟨⟨hs.check, by rw [Array.size_setIfInBounds, hs.size_eq]⟩, rfl⟩
          · cases ha
      | transitions w =>
          obtain ⟨-, hagrees, -⟩ := TransitionWrite.holds_of_apply hs ha
          exact ⟨hs.of_agreesOff hagrees, hagrees.geometry_eq.symm⟩

theorem Reachable.wellFormed (hs : s.Reachable g) : s.WellFormed ∧ s.geometry = g := by
  induction hs with
  | new h => exact ⟨wellFormed_of_ofGeometry h, geometry_of_ofGeometry h⟩
  | set _ setter ih =>
      obtain ⟨hkept, hgeometry⟩ := ih.1.leave setter
      exact ⟨hkept, hgeometry.trans ih.2⟩

theorem Reachable.foldl (hs : s.Reachable g) (setters : List (Setter α)) :
    (setters.foldl Setter.leave s).Reachable g := by
  induction setters generalizing s with
  | nil => exact hs
  | cons setter setters ih => exact ih (hs.set setter)

/-- The same with a guard. A single sample is looked for before it is written in any case. -/
def Setter.guarded (s : HalfSpectrum α) : Setter α → Option (Outcome α (HalfSpectrum α))
  | .sample k value => some (s.setSample k value)
  | .transitions w => Guarded.write s w

/-- The half spectrum has a sample for every frequency and its edges fit, and no guard stops what is
done with it, from the fold to the amplitudes of the filter that it makes. -/
structure InRange (s : HalfSpectrum α) : Prop where
  edges_fit : Geometry.checkEdges s.geometry.band s.geometry.edges s.geometry.fold =
    (.ok () : Outcome α Unit)
  size_eq : s.desired.size = s.geometry.numTaps / 2 + 1
  foldOf_eq : Guarded.foldOf s.geometry.numTaps = some s.geometry.fold
  numTransitions_eq : Guarded.numTransitions s.geometry = some s.numTransitions
  slotIndex_eq : ∀ slot < s.numTransitions,
    Guarded.slotIndex s.geometry slot = some (s.geometry.slotIndex slot)
  readSlot_eq : ∀ slot < s.numTransitions,
    ∃ v, Guarded.readSlot s slot = some v ∧ s.transitionValues[slot]? = some v
  writeSlot_eq : ∀ slot < s.numTransitions, ∀ v,
    Guarded.writeSlot s slot v = some (s.writeSlot slot v)
  setter_eq : ∀ setter : Setter α, setter.guarded s = some (setter.apply s)
  synthesis_eq : ∃ h, ImpulseResponse.ofSpectrum s = .ok h ∧
    h.numTaps = s.geometry.numTaps ∧
    (∀ n < s.geometry.numTaps, Guarded.tapOf s n = some (h.tap n)) ∧
    ∀ lambda, Guarded.amplitudeAt h lambda = some (h.amplitudeAt lambda)

/-- No half spectrum that can be made is read or written out of range. -/
theorem reachable_inRange (hs : s.Reachable g) : s.geometry = g ∧ s.InRange := by
  obtain ⟨hformed, hgeometry⟩ := hs.wellFormed
  have hcheck := hformed.check
  have hthree := Geometry.three_le_of_check hcheck
  obtain ⟨h, hsynthesis⟩ := ImpulseResponse.exists_ofSpectrum (Geometry.admits_of_check hcheck)
  have hlength := ImpulseResponse.numTaps_ofSpectrum hsynthesis
  refine ⟨hgeometry, ?_⟩
  exact {
    edges_fit := Geometry.checkEdges_eq_ok_iff.mpr (Geometry.edges_fit_of_check hcheck)
    size_eq := hformed.size_eq
    foldOf_eq := Guarded.foldOf_eq hthree
    numTransitions_eq := Guarded.numTransitions_eq hformed
    slotIndex_eq := fun slot hslot => Guarded.slotIndex_eq hslot
    readSlot_eq := fun slot hslot =>
      ⟨_, Guarded.readSlot_eq hformed hslot, getElem?_transitionValues s hslot⟩
    writeSlot_eq := fun slot hslot => Guarded.writeSlot_eq hformed hslot
    setter_eq := fun setter => by
      cases setter with
      | sample k value => rfl
      | transitions w => exact Guarded.write_eq hformed w
    synthesis_eq := by
      refine ⟨h, hsynthesis, hlength, fun n hn => ?_, fun lambda => ?_⟩
      · rw [Guarded.tapOf_eq hformed, ImpulseResponse.tap_ofSpectrum hsynthesis hn]
      · exact Guarded.amplitudeAt_eq (by omega) lambda }

/-- After writes to the last sample, beyond it, to the first slot and with too few values. -/
theorem reachable_inRange_bandstop :
    let g : Geometry := ⟨20, .bandstop, .typeIV, .fourBand 1 4 5 8⟩
    let setters : List (Setter ℚ) := [.sample 10 (mkRat 1 2), .sample 11 1, .transitions (.first 1),
      .transitions (.all [1])]
    let s := setters.foldl Setter.leave ⟨g, bandLevels g⟩
    s.Reachable g ∧ s.transitionValues = [1, 0] ∧ s.sample? 6 = some 1 ∧ s.InRange := by
  have hcheck : (⟨20, .bandstop, .typeIV, .fourBand 1 4 5 8⟩ : Geometry).check =
      (.ok () : Outcome ℚ Unit) := by rfl
  intro g setters s
  have hs : s.Reachable g := (Reachable.new (ofGeometry_of_check hcheck)).foldl setters
  have hvalues : s.transitionValues = [1, 0] := by decide +kernel
  have himage : s.sample? 6 = some 1 := by decide +kernel
  exact ⟨hs, hvalues, himage, (reachable_inRange hs).2⟩

/-- Edges that do not pass the check leave no room for a transition. -/
example : Guarded.numTransitions ⟨8, .lowpass, .typeII, .twoBand 3 3⟩ = none := rfl

/-- A slot behind the last one would be looked for below zero. -/
example : Guarded.slotIndex ⟨8, .lowpass, .typeII, .twoBand 0 3⟩ 3 = none := rfl

end HalfSpectrum

end FrequencySampling
