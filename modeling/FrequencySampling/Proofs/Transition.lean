import FrequencySampling.HalfSpectrum.Transition
import FrequencySampling.Proofs.Geometry
import Mathlib.Data.Set.Function
import Mathlib.Order.Interval.Set.Basic

/-!
The frame of a write to the transition samples. The slots are numbered from either end of the lower
transition, and their images from the opposite end of the upper one: so the slots touch what lies
between the bands, no two of them share a sample, and every other sample keeps its value. Half
spectra that agree off the transitions go on agreeing, whatever is written, and are one and the same
after every slot was written alike; and what was written is read back.
-/

namespace FrequencySampling

namespace Geometry

/-- The slot writes the sample. -/
def Touches (g : Geometry) (slot k : Nat) : Prop :=
  k = g.slotIndex slot ∨ g.mirrorIndex? slot = some k

instance (g : Geometry) (slot k : Nat) : Decidable (g.Touches slot k) :=
  inferInstanceAs (Decidable (_ ∨ _))

/-- Some slot writes the sample. -/
def IsTransition (g : Geometry) (k : Nat) : Prop :=
  ∃ slot < g.numTransitions, g.Touches slot k

/-- The sample lies strictly between two neighbouring bands. -/
def BetweenBands (g : Geometry) (k : Nat) : Prop :=
  g.edges.n1 < k ∧ k < g.edges.n2 ∨
    g.band.hasFourEdges = true ∧ g.edges.n3 < k ∧ k < g.edges.n4

variable {α : Type} {g : Geometry} {i j k : Nat}

theorem bijOn_upwards (low high : Nat) :
    Set.BijOn (fun slot => low + 1 + slot) (Set.Iio (high - low - 1)) (Set.Ioo low high) := by
  refine ⟨fun slot hslot => ?_, fun slot _ slot' _ heq => ?_, fun k hk => ?_⟩
  · rw [Set.mem_Iio] at hslot
    rw [Set.mem_Ioo]
    dsimp only
    omega
  · dsimp only at heq
    omega
  · obtain ⟨hlow, hhigh⟩ := hk
    refine ⟨k - low - 1, ?_, ?_⟩
    · rw [Set.mem_Iio]
      omega
    · dsimp only
      omega

theorem bijOn_downwards (low high : Nat) :
    Set.BijOn (fun slot => high - 1 - slot) (Set.Iio (high - low - 1)) (Set.Ioo low high) := by
  refine ⟨fun slot hslot => ?_, fun slot hslot slot' hslot' heq => ?_, fun k hk => ?_⟩
  · rw [Set.mem_Iio] at hslot
    rw [Set.mem_Ioo]
    dsimp only
    omega
  · rw [Set.mem_Iio] at hslot hslot'
    dsimp only at heq
    omega
  · obtain ⟨hlow, hhigh⟩ := hk
    refine ⟨high - 1 - k, ?_, ?_⟩
    · rw [Set.mem_Iio]
      omega
    · dsimp only
      omega

/-- The slots are the samples of the lower transition, each once. -/
theorem slotIndex_bijOn (g : Geometry) :
    Set.BijOn g.slotIndex (Set.Iio g.numTransitions) (Set.Ioo g.edges.n1 g.edges.n2) := by
  unfold slotIndex numTransitions
  cases g.band with
  | lowpass | bandstop => exact bijOn_downwards g.edges.n1 g.edges.n2
  | highpass | bandpass => exact bijOn_upwards g.edges.n1 g.edges.n2

/-- The images of the slots are the samples of the upper transition, each once. -/
theorem mirrorIndex_bijOn (h : g.check = (.ok () : Outcome α Unit))
    (hfour : g.band.hasFourEdges = true) :
    ∃ image : Nat → Nat, (∀ slot, g.mirrorIndex? slot = some (image slot)) ∧
      Set.BijOn image (Set.Iio g.numTransitions) (Set.Ioo g.edges.n3 g.edges.n4) := by
  obtain ⟨-, -, -, hwidth⟩ := (edges_fit_of_check h).four hfour
  unfold mirrorIndex? numTransitions
  rw [← hwidth]
  cases hb : g.band with
  | lowpass | highpass => simp [hb, Band.hasFourEdges] at hfour
  | bandpass => exact ⟨_, fun _ => rfl, bijOn_downwards g.edges.n3 g.edges.n4⟩
  | bandstop => exact ⟨_, fun _ => rfl, bijOn_upwards g.edges.n3 g.edges.n4⟩

theorem hasFourEdges_of_mirrorIndex (h : g.mirrorIndex? i = some k) :
    g.band.hasFourEdges = true := by
  unfold mirrorIndex? at h
  cases hb : g.band with
  | lowpass | highpass => simp [hb] at h
  | bandpass | bandstop => rfl

/-- The slots write what lies between the bands, and nothing else. -/
theorem isTransition_iff_betweenBands (h : g.check = (.ok () : Outcome α Unit)) :
    g.IsTransition k ↔ g.BetweenBands k := by
  constructor
  · rintro ⟨slot, hslot, rfl | himage⟩
    · exact .inl (g.slotIndex_bijOn.mapsTo hslot)
    · have hfour := hasFourEdges_of_mirrorIndex himage
      obtain ⟨image, himages, hbij⟩ := mirrorIndex_bijOn h hfour
      rw [himages] at himage
      cases himage
      exact .inr ⟨hfour, hbij.mapsTo hslot⟩
  · rintro (hlower | ⟨hfour, hupper⟩)
    · obtain ⟨slot, hslot, rfl⟩ := g.slotIndex_bijOn.surjOn hlower
      exact ⟨slot, hslot, .inl rfl⟩
    · obtain ⟨image, himages, hbij⟩ := mirrorIndex_bijOn h hfour
      obtain ⟨slot, hslot, rfl⟩ := hbij.surjOn hupper
      exact ⟨slot, hslot, .inr (himages slot)⟩

/-- The lower transition ends where the upper one has not begun. -/
theorem slotIndex_ne_mirrorIndex (h : g.check = (.ok () : Outcome α Unit))
    (hi : i < g.numTransitions) (hj : j < g.numTransitions) :
    g.mirrorIndex? j ≠ some (g.slotIndex i) := by
  intro himage
  have hfour := hasFourEdges_of_mirrorIndex himage
  obtain ⟨hmiddle, -⟩ := (edges_fit_of_check h).four hfour
  obtain ⟨image, himages, hbij⟩ := mirrorIndex_bijOn h hfour
  rw [himages, Option.some.injEq] at himage
  obtain ⟨-, hbelow⟩ := g.slotIndex_bijOn.mapsTo hi
  obtain ⟨habove, -⟩ := hbij.mapsTo hj
  omega

/-- No two slots share a sample, in either transition. -/
theorem eq_of_touches (h : g.check = (.ok () : Outcome α Unit)) (hi : i < g.numTransitions)
    (hj : j < g.numTransitions) (hik : g.Touches i k) (hjk : g.Touches j k) : i = j := by
  rcases hik with hslot | himage <;> rcases hjk with hslot' | himage'
  · exact g.slotIndex_bijOn.injOn hi hj (hslot.symm.trans hslot')
  · exact absurd (hslot ▸ himage') (slotIndex_ne_mirrorIndex h hi hj)
  · exact absurd (hslot' ▸ himage) (slotIndex_ne_mirrorIndex h hj hi)
  · obtain ⟨image, himages, hbij⟩ := mirrorIndex_bijOn h (hasFourEdges_of_mirrorIndex himage)
    rw [himages, Option.some.injEq] at himage himage'
    exact hbij.injOn hi hj (himage.trans himage'.symm)

theorem n2_lt_numSamples (h : g.check = (.ok () : Outcome α Unit)) :
    g.edges.n2 < g.numSamples := by
  have hfit := edges_fit_of_check h
  have hfold := two_mul_fold_lt (three_le_of_check h)
  have hle : g.edges.n2 ≤ g.fold := by
    cases hb : g.band.hasFourEdges with
    | false => exact hfit.two hb
    | true =>
        obtain ⟨hmiddle, hupper, hlast, -⟩ := hfit.four hb
        omega
  unfold numSamples
  omega

theorem n4_lt_numSamples (h : g.check = (.ok () : Outcome α Unit))
    (hfour : g.band.hasFourEdges = true) : g.edges.n4 < g.numSamples := by
  obtain ⟨-, -, hlast, -⟩ := (edges_fit_of_check h).four hfour
  have hfold := two_mul_fold_lt (three_le_of_check h)
  unfold numSamples
  omega

theorem lt_numSamples_of_touches (h : g.check = (.ok () : Outcome α Unit))
    (hi : i < g.numTransitions) (hik : g.Touches i k) : k < g.numSamples := by
  rcases (isTransition_iff_betweenBands h).mp ⟨i, hi, hik⟩ with ⟨-, hlow⟩ | ⟨hfour, -, hhigh⟩
  · exact hlow.trans (n2_lt_numSamples h)
  · exact hhigh.trans (n4_lt_numSamples h hfour)

end Geometry

namespace HalfSpectrum

variable {α : Type} {s t u : HalfSpectrum α} {free : Nat → Prop}

/-- The half spectra are alike except, perhaps, at the given samples. -/
structure AgreesOff (free : Nat → Prop) (s t : HalfSpectrum α) : Prop where
  geometry_eq : s.geometry = t.geometry
  size_eq : s.desired.size = t.desired.size
  desired_eq : ∀ k, ¬ free k → s.desired[k]? = t.desired[k]?

namespace AgreesOff

theorem refl (s : HalfSpectrum α) : s.AgreesOff free s :=
  ⟨rfl, rfl, fun _ _ => rfl⟩

theorem trans (h : s.AgreesOff free t) (h' : t.AgreesOff free u) : s.AgreesOff free u :=
  ⟨h.geometry_eq.trans h'.geometry_eq, h.size_eq.trans h'.size_eq,
    fun k hk => (h.desired_eq k hk).trans (h'.desired_eq k hk)⟩

theorem mono {more : Nat → Prop} (h : s.AgreesOff free t) (hmore : ∀ k, free k → more k) :
    s.AgreesOff more t :=
  ⟨h.geometry_eq, h.size_eq, fun k hk => h.desired_eq k fun hfree => hk (hmore k hfree)⟩

theorem numTransitions_eq (h : s.AgreesOff free t) : t.numTransitions = s.numTransitions := by
  rw [numTransitions, ← h.geometry_eq, numTransitions]

theorem eq_of_not_free (h : s.AgreesOff free t) (hfree : ∀ k, ¬ free k) : s = t := by
  obtain ⟨g, desired⟩ := s
  obtain ⟨g', desired'⟩ := t
  obtain ⟨hg, -, hdesired⟩ := h
  have hd : desired = desired' := Array.ext_getElem? fun k => hdesired k (hfree k)
  cases hg
  rw [hd]

end AgreesOff

@[simp] theorem geometry_writeSlot (s : HalfSpectrum α) (slot : Nat) (v : α) :
    (s.writeSlot slot v).geometry = s.geometry := by
  unfold writeSlot
  split <;> rfl

@[simp] theorem size_writeSlot (s : HalfSpectrum α) (slot : Nat) (v : α) :
    (s.writeSlot slot v).desired.size = s.desired.size := by
  unfold writeSlot
  split <;> simp

theorem getElem?_writeSlot (s : HalfSpectrum α) (slot k : Nat) (v : α) :
    (s.writeSlot slot v).desired[k]? =
      if s.geometry.Touches slot k ∧ k < s.desired.size then some v else s.desired[k]? := by
  unfold writeSlot
  cases hm : s.geometry.mirrorIndex? slot with
  | none =>
      simp only [Geometry.Touches, hm, Array.getElem?_setIfInBounds, reduceCtorEq, or_false]
      grind
  | some m =>
      simp only [Geometry.Touches, hm, Array.getElem?_setIfInBounds, Array.size_setIfInBounds,
        Option.some.injEq]
      grind

theorem agreesOff_writeSlot (s : HalfSpectrum α) (slot : Nat) (v : α) :
    s.AgreesOff (s.geometry.Touches slot) (s.writeSlot slot v) := by
  refine ⟨(geometry_writeSlot s slot v).symm, (size_writeSlot s slot v).symm, fun k hk => ?_⟩
  rw [getElem?_writeSlot, if_neg fun h => hk h.1]

/-- A write on both sides settles the samples that it touches. -/
theorem AgreesOff.writeSlot (h : s.AgreesOff free t) (slot : Nat) (v : α) :
    (s.writeSlot slot v).AgreesOff (fun k => free k ∧ ¬ s.geometry.Touches slot k)
      (t.writeSlot slot v) := by
  refine ⟨?_, ?_, fun k hk => ?_⟩
  · rw [geometry_writeSlot, geometry_writeSlot, h.geometry_eq]
  · rw [size_writeSlot, size_writeSlot, h.size_eq]
  · rw [getElem?_writeSlot, getElem?_writeSlot, ← h.geometry_eq, ← h.size_eq]
    by_cases htouch : s.geometry.Touches slot k
    · by_cases hsize : k < s.desired.size
      · rw [if_pos ⟨htouch, hsize⟩, if_pos ⟨htouch, hsize⟩]
      · rw [if_neg fun h => hsize h.2, if_neg fun h => hsize h.2,
          Array.getElem?_eq_none (Nat.le_of_not_lt hsize),
          Array.getElem?_eq_none (h.size_eq ▸ Nat.le_of_not_lt hsize)]
    · rw [if_neg fun h => htouch h.1, if_neg fun h => htouch h.1]
      exact h.desired_eq k fun hfree => hk ⟨hfree, htouch⟩

theorem agreesOff_writeSlots (s : HalfSpectrum α) (slot : Nat) (vs : List α) :
    s.AgreesOff (fun k => ∃ j, slot ≤ j ∧ j < slot + vs.length ∧ s.geometry.Touches j k)
      (s.writeSlots slot vs) := by
  induction vs generalizing s slot with
  | nil => exact .refl s
  | cons v vs ih =>
      have hfirst := agreesOff_writeSlot s slot v
      have hrest := ih (s.writeSlot slot v) (slot + 1)
      rw [geometry_writeSlot] at hrest
      refine (hfirst.mono fun k hk => ?_).trans (hrest.mono fun k hk => ?_)
      · refine ⟨slot, Nat.le_refl slot, ?_, hk⟩
        rw [List.length_cons]
        omega
      · obtain ⟨j, hj, hlt, htouch⟩ := hk
        refine ⟨j, by omega, ?_, htouch⟩
        rw [List.length_cons]
        omega

theorem AgreesOff.writeSlots (h : s.AgreesOff free t) (slot : Nat) (vs : List α) :
    (s.writeSlots slot vs).AgreesOff
      (fun k => free k ∧ ∀ j, slot ≤ j → j < slot + vs.length → ¬ s.geometry.Touches j k)
      (t.writeSlots slot vs) := by
  induction vs generalizing s t slot free with
  | nil =>
      refine h.mono fun k hk => ⟨hk, fun j hj hlt => ?_⟩
      rw [List.length_nil] at hlt
      omega
  | cons v vs ih =>
      refine (ih (h.writeSlot slot v) (slot + 1)).mono fun k hk => ?_
      obtain ⟨⟨hfree, hfirst⟩, hrest⟩ := hk
      refine ⟨hfree, fun j hj hlt => ?_⟩
      rw [List.length_cons] at hlt
      rcases Nat.eq_or_lt_of_le hj with rfl | hj
      · exact hfirst
      · rw [geometry_writeSlot] at hrest
        exact hrest j hj (by omega)

/-- Writing every slot leaves nothing of what the transitions held before. -/
theorem AgreesOff.writeSlots_eq {vs : List α} (h : s.AgreesOff s.geometry.IsTransition t)
    (hvs : vs.length = s.numTransitions) : s.writeSlots 0 vs = t.writeSlots 0 vs := by
  refine (h.writeSlots 0 vs).eq_of_not_free ?_
  rintro k ⟨⟨slot, hslot, htouch⟩, hnone⟩
  refine hnone slot (Nat.zero_le slot) ?_ htouch
  rw [hvs, Nat.zero_add]
  exact hslot

theorem agreesOff_of_writeSlots {vs : List α} (hvs : vs.length ≤ s.numTransitions) :
    s.AgreesOff s.geometry.IsTransition (s.writeSlots 0 vs) := by
  refine (agreesOff_writeSlots s 0 vs).mono fun k hk => ?_
  obtain ⟨j, -, hlt, htouch⟩ := hk
  exact ⟨j, by rw [numTransitions] at hvs; omega, htouch⟩

/-- A geometry for which filters can be designed, with a sample at every frequency. -/
structure WellFormed (s : HalfSpectrum α) : Prop where
  check : s.geometry.check = (.ok () : Outcome α Unit)
  size_eq : s.desired.size = s.geometry.numSamples

theorem WellFormed.of_agreesOff (hs : s.WellFormed) (h : s.AgreesOff free t) : t.WellFormed := by
  refine ⟨?_, ?_⟩
  · rw [← h.geometry_eq]
    exact hs.check
  · rw [← h.geometry_eq, ← h.size_eq]
    exact hs.size_eq

/-- What is written to the slots from one on stands in both transitions. -/
theorem getElem?_writeSlots_of_touches (hs : s.WellFormed) {start i k : Nat} {vs : List α} {v : α}
    (hvs : start + vs.length ≤ s.numTransitions) (hv : vs[i]? = some v)
    (htouch : s.geometry.Touches (start + i) k) :
    (s.writeSlots start vs).desired[k]? = some v := by
  induction vs generalizing s start i with
  | nil => cases hv
  | cons w vs ih =>
      rw [List.length_cons, numTransitions] at hvs
      have hkept := agreesOff_writeSlot s start w
      cases i with
      | zero =>
          cases hv
          have hsize : k < s.desired.size := by
            rw [hs.size_eq]
            exact Geometry.lt_numSamples_of_touches hs.check (by omega) htouch
          have hlater := agreesOff_writeSlots (s.writeSlot start v) (start + 1) vs
          rw [writeSlots, ← hlater.desired_eq k, getElem?_writeSlot, if_pos ⟨htouch, hsize⟩]
          -- A later slot that touched the sample would be this one.
          rintro ⟨j, hj, hlt, hjk⟩
          rw [geometry_writeSlot] at hjk
          have := Geometry.eq_of_touches hs.check (by omega) (by omega) htouch hjk
          omega
      | succ i =>
          refine ih (hs.of_agreesOff hkept) ?_ hv ?_
          · rw [numTransitions, geometry_writeSlot]
            omega
          · rw [geometry_writeSlot]
            rwa [Nat.add_right_comm, Nat.add_assoc]

/-- The half spectrum holds the values in its slots from the first one on, and is otherwise as it
was before. -/
structure Holds (s : HalfSpectrum α) (values : List α) (t : HalfSpectrum α) : Prop where
  agrees : s.AgreesOff (fun k => ∃ slot < values.length, s.geometry.Touches slot k) t
  written : ∀ slot v, values[slot]? = some v → ∀ k, s.geometry.Touches slot k →
    t.desired[k]? = some v

theorem holds_writeSlots (hs : s.WellFormed) {values : List α}
    (hvalues : values.length ≤ s.numTransitions) : s.Holds values (s.writeSlots 0 values) := by
  refine ⟨(agreesOff_writeSlots s 0 values).mono fun k hk => ?_, fun slot v hv k htouch => ?_⟩
  · obtain ⟨slot, -, hlt, htouch⟩ := hk
    exact ⟨slot, by omega, htouch⟩
  · rw [← Nat.zero_add values.length] at hvalues
    rw [← Nat.zero_add slot] at htouch
    exact getElem?_writeSlots_of_touches hs hvalues hv htouch

variable [Scalar α]

theorem wellFormed_of_ofGeometry {g : Geometry} (h : ofGeometry g = .ok s) : s.WellFormed := by
  have hg := geometry_of_ofGeometry h
  refine ⟨?_, ?_⟩
  · rw [hg]
    exact check_of_ofGeometry h
  · rw [hg]
    exact size_of_ofGeometry h

theorem getElem?_transitionValues (s : HalfSpectrum α) {slot : Nat} (h : slot < s.numTransitions) :
    s.transitionValues[slot]? = some (s.sample (s.geometry.slotIndex slot)) := by
  rw [transitionValues, List.getElem?_map, List.getElem?_range h, Option.map_some]

theorem length_transitionValues (s : HalfSpectrum α) :
    s.transitionValues.length = s.numTransitions := by
  rw [transitionValues, List.length_map, List.length_range]

/-- Reading finds the values, and behind them what the other slots held before. -/
theorem Holds.transitionValues_eq (hs : s.WellFormed) {values : List α}
    (hvalues : values.length ≤ s.numTransitions) (h : s.Holds values t) :
    t.transitionValues = values ++ s.transitionValues.drop values.length := by
  have hcount : t.numTransitions = s.numTransitions := h.agrees.numTransitions_eq
  refine List.ext_getElem? fun slot => ?_
  by_cases hslot : slot < s.numTransitions
  · rw [getElem?_transitionValues t (hcount ▸ hslot), ← h.agrees.geometry_eq]
    by_cases hwritten : slot < values.length
    · have hread := h.written slot _ (List.getElem?_eq_getElem hwritten) _ (.inl rfl)
      rw [List.getElem?_append_left hwritten, sample, Array.getD_eq_getD_getElem?, hread,
        Option.getD_some, List.getElem?_eq_getElem hwritten]
    · have hkept := h.agrees.desired_eq (s.geometry.slotIndex slot) ?_
      · rw [List.getElem?_append_right (Nat.le_of_not_lt hwritten), List.getElem?_drop,
          Nat.add_sub_cancel' (Nat.le_of_not_lt hwritten), getElem?_transitionValues s hslot,
          sample, sample, Array.getD_eq_getD_getElem?, Array.getD_eq_getD_getElem?, hkept]
      · rintro ⟨j, hj, htouch⟩
        have := Geometry.eq_of_touches hs.check hslot (Nat.lt_of_lt_of_le hj hvalues) (.inl rfl)
          htouch
        omega
  · rw [List.getElem?_eq_none, List.getElem?_eq_none]
    · rw [List.length_append, List.length_drop, length_transitionValues]
      omega
    · rw [length_transitionValues, hcount]
      omega

theorem transitionValues_writeSlots (hs : s.WellFormed) {vs : List α}
    (hvs : vs.length = s.numTransitions) : (s.writeSlots 0 vs).transitionValues = vs := by
  have hread := (holds_writeSlots hs (Nat.le_of_eq hvs)).transitionValues_eq hs (Nat.le_of_eq hvs)
  rw [hread, List.drop_eq_nil_of_le, List.append_nil]
  rw [length_transitionValues, hvs]

end HalfSpectrum
end FrequencySampling
