import FrequencySampling.Proofs.Session.Account

/-!
Filters with three bands stay symmetric about the middle of their second band. The bands are laid
out so, and a slot writes a sample together with its mirror image; the two transitions are equally
wide, so the images pair them off. Edits of the transition samples keep the symmetry, and so does
everything that a session does to its half spectrum, whether it succeeds or not.
-/

namespace FrequencySampling

namespace Geometry

variable {α : Type} {g : Geometry} {slot k : Nat}

/-- The sample as far below the highest edge as the given one is above the lowest. -/
def mirrorImage (g : Geometry) (k : Nat) : Nat :=
  g.edges.n1 + g.edges.n4 - k

/-- From the last sample of the lowest band to the first sample of the highest. -/
def Spans (g : Geometry) (k : Nat) : Prop :=
  g.edges.n1 ≤ k ∧ k ≤ g.edges.n4

theorem Spans.mirrorImage (hk : g.Spans k) : g.Spans (g.mirrorImage k) := by
  obtain ⟨hlow, hhigh⟩ := hk
  unfold Spans Geometry.mirrorImage
  omega

/-- A slot that writes a sample writes its mirror image as well. -/
theorem touches_mirrorImage_iff (h : g.check = (.ok () : Outcome α Unit))
    (hfour : g.band.hasFourEdges = true) (hslot : slot < g.numTransitions) (hk : g.Spans k) :
    g.Touches slot (g.mirrorImage k) ↔ g.Touches slot k := by
  have hfit := edges_fit_of_check h
  have hlower := hfit.lower
  obtain ⟨hmiddle, hupper, -, hwidth⟩ := hfit.four hfour
  obtain ⟨hlow, hhigh⟩ := hk
  unfold numTransitions at hslot
  unfold Touches slotIndex mirrorIndex? mirrorImage
  cases hb : g.band with
  | lowpass | highpass => simp [hb, Band.hasFourEdges] at hfour
  | bandpass | bandstop =>
      simp only [Option.some.injEq]
      omega

end Geometry

namespace HalfSpectrum

variable {α : Type} {s t : HalfSpectrum α} {g : Geometry}

/-- A half spectrum for three bands in which every sample between the outer two is equal to its
mirror image. -/
structure MirrorSymmetric (g : Geometry) (s : HalfSpectrum α) : Prop where
  geometry_eq : s.geometry = g
  check : g.check = (.ok () : Outcome α Unit)
  hasFourEdges : g.band.hasFourEdges = true
  size_eq : s.desired.size = g.numSamples
  desired_eq : ∀ k, g.Spans k → s.desired[g.mirrorImage k]? = s.desired[k]?

namespace MirrorSymmetric

theorem lt_size (hs : s.MirrorSymmetric g) {k : Nat} (hk : g.Spans k) : k < s.desired.size := by
  rw [hs.size_eq]
  exact Nat.lt_of_le_of_lt hk.2 (Geometry.n4_lt_numSamples hs.check hs.hasFourEdges)

theorem writeSlot (hs : s.MirrorSymmetric g) {slot : Nat} (hslot : slot < g.numTransitions)
    (v : α) : (s.writeSlot slot v).MirrorSymmetric g := by
  refine ⟨?_, hs.check, hs.hasFourEdges, ?_, fun k hk => ?_⟩
  · rw [geometry_writeSlot, hs.geometry_eq]
  · rw [size_writeSlot, hs.size_eq]
  · have htouches := Geometry.touches_mirrorImage_iff hs.check hs.hasFourEdges hslot hk
    rw [getElem?_writeSlot, getElem?_writeSlot, hs.geometry_eq]
    simp only [htouches, hs.lt_size hk, hs.lt_size hk.mirrorImage, hs.desired_eq k hk]

theorem writeSlots (hs : s.MirrorSymmetric g) {slot : Nat} {vs : List α}
    (hvs : slot + vs.length ≤ g.numTransitions) : (s.writeSlots slot vs).MirrorSymmetric g := by
  induction vs generalizing s slot with
  | nil => exact hs
  | cons v vs ih =>
      rw [List.length_cons] at hvs
      exact ih (hs.writeSlot (by omega) v) (by omega)

theorem setScalar [Scalar α] (hs : s.MirrorSymmetric g) {v : α} (h : s.setScalar v = .ok t) :
    t.MirrorSymmetric g := by
  unfold HalfSpectrum.setScalar numTransitions at h
  split at h
  · cases h
  · rename_i hsome
    cases h
    rw [hs.geometry_eq] at hsome
    exact hs.writeSlot (Nat.pos_of_ne_zero hsome) v

theorem setTransitions [Scalar α] (hs : s.MirrorSymmetric g) {values : List α}
    (h : s.setTransitions values = .ok t) : t.MirrorSymmetric g := by
  obtain ⟨hcount, rfl⟩ := setTransitions_eq_ok_iff.mp h
  rw [numTransitions, hs.geometry_eq] at hcount
  exact hs.writeSlots (by omega)

theorem setOnLine [Scalar α] (hs : s.MirrorSymmetric g) {line : SlotLine α} {rho : α}
    (h : s.setOnLine line rho = .ok t) : t.MirrorSymmetric g := by
  obtain ⟨hcount, rfl⟩ := setOnLine_eq_ok_iff.mp h
  rw [numTransitions, hs.geometry_eq] at hcount
  rw [← line.length_values rho] at hcount
  exact hs.writeSlots (by omega)

end MirrorSymmetric

variable [Scalar α]

theorem mirrorSymmetric_of_ofGeometry (h : ofGeometry g = .ok s)
    (hfour : g.band.hasFourEdges = true) : s.MirrorSymmetric g := by
  have hcheck := check_of_ofGeometry h
  have hfit := Geometry.edges_fit_of_check hcheck
  have hlower := hfit.lower
  obtain ⟨hmiddle, hupper, -, hwidth⟩ := hfit.four hfour
  have hsize := Geometry.n4_lt_numSamples hcheck hfour
  refine ⟨geometry_of_ofGeometry h, hcheck, hfour, size_of_ofGeometry h, fun k hk => ?_⟩
  have himage := hk.mirrorImage
  rw [ofGeometry_of_check hcheck] at h
  cases h
  dsimp only
  rw [getElem?_bandLevels hfour (Nat.lt_of_le_of_lt himage.2 hsize),
    getElem?_bandLevels hfour (Nat.lt_of_le_of_lt hk.2 hsize)]
  obtain ⟨hlow, hhigh⟩ := hk
  -- The outer bands are each other's images, and the second band is its own.
  have hhighest : g.edges.n4 ≤ g.mirrorImage k ↔ k ≤ g.edges.n1 := by
    unfold Geometry.mirrorImage
    omega
  have hlowest : g.mirrorImage k ≤ g.edges.n1 ↔ g.edges.n4 ≤ k := by
    unfold Geometry.mirrorImage
    omega
  have hsecond : (g.edges.n2 ≤ g.mirrorImage k ∧ g.mirrorImage k ≤ g.edges.n3) ↔
      (g.edges.n2 ≤ k ∧ k ≤ g.edges.n3) := by
    unfold Geometry.mirrorImage
    omega
  simp only [hhighest, hlowest, hsecond]
  split_ifs <;> first | rfl | omega

end HalfSpectrum

namespace Session

variable {α π ρ τ : Type} {P : HalfSpectrum α → Prop} {g : Geometry}

/-- The operation leaves a half spectrum of the kind that it found, also when it fails. -/
def Keeps (P : HalfSpectrum α → Prop) (op : SessionM α ρ) : Prop :=
  ∀ s, P s.spectrum → P (op s).2.spectrum

theorem Keeps.bind {op : SessionM α ρ} {k : ρ → SessionM α τ} (hop : Keeps P op)
    (hk : ∀ r, Keeps P (k r)) : Keeps P (op >>= k) := by
  intro s hs
  have hfirst := hop s hs
  rw [bind_eq]
  generalize op s = run at hfirst ⊢
  obtain ⟨r | r, s'⟩ := run
  · exact hfirst
  · exact hk r s' hfirst

theorem Keeps.get_bind {k : Session α → SessionM α ρ} (hk : ∀ s, Keeps P (k s)) :
    Keeps P (get >>= k) :=
  fun s => hk s s

theorem Keeps.ofOutcome (r : Outcome α ρ) : Keeps P (ofOutcome r) :=
  fun _ hs => hs

theorem Keeps.conduct {answer : π → SessionM α α} (hanswer : ∀ p, Keeps P (answer p))
    (m : Search α π ρ) : Keeps P (conduct answer m) := by
  induction m with
  | done r => exact fun s hs => hs
  | tell n next ih => exact fun s hs => ih (hear n s) hs
  | ask p next ih =>
      intro s hs
      have hfirst := hanswer p s hs
      rw [conduct_ask]
      generalize answer p s = run at hfirst ⊢
      obtain ⟨e | v, s'⟩ := run
      · exact hfirst
      · exact ih v s' hfirst

theorem Keeps.amend {change : HalfSpectrum α → Outcome α (HalfSpectrum α)}
    (hchange : ∀ t u, change t = .ok u → P t → P u) : Keeps P (amend change) := by
  intro s hs
  rw [amend_eq]
  cases hc : change s.spectrum with
  | ok t => exact hchange _ _ hc hs
  | error e => exact hs

variable [Scalar α]

theorem Keeps.attempt {change : HalfSpectrum α → Outcome α (HalfSpectrum α)}
    (hchange : ∀ t u, change t = .ok u → P t → P u) (x : α) : Keeps P (attempt change x) := by
  intro s hs
  have hcases := attempted change x s
  generalize Session.attempt change x s = run at hcases
  cases hcases with
  | cancelled | expired | refused => exact hs
  | unmeasured _ _ hc | notFinite _ _ hc | made _ _ hc => exact hchange _ _ hc hs

theorem keeps_tryScalar (v : α) : Keeps (HalfSpectrum.MirrorSymmetric g) (tryScalar v) := by
  rw [tryScalar_eq]
  exact .attempt (fun _ _ h hs => hs.setScalar h) v

theorem keeps_tryLine (p : LinePoint α) : Keeps (HalfSpectrum.MirrorSymmetric g) (tryLine p) := by
  rw [tryLine_eq]
  exact .attempt (fun _ _ h hs => hs.setOnLine h) p.rho

theorem keeps_leaveAt (values : List α) :
    Keeps (HalfSpectrum.MirrorSymmetric g) (leaveAt values) :=
  .amend fun _ _ h hs => hs.setTransitions h

theorem keeps_searchScalar (params : LineSearchParams α) :
    Keeps (HalfSpectrum.MirrorSymmetric g) (searchScalar params) := by
  refine .get_bind fun before => ?_
  dsimp only
  split
  · exact .ofOutcome (.error _)
  · refine .bind (.conduct keeps_tryScalar _) fun minimum => ?_
    refine .bind (keeps_leaveAt _) fun _ => ?_
    exact fun _ hs => hs

theorem keeps_searchPlane (params : LineSearchParams α) (direction : PlaneSearchParams α) :
    Keeps (HalfSpectrum.MirrorSymmetric g) (searchPlane params direction) := by
  refine .get_bind fun before => ?_
  refine .bind (.conduct keeps_tryLine _) fun descent => ?_
  refine .get_bind fun after => ?_
  exact .bind (keeps_leaveAt _) fun _ _ hs => hs

theorem Call.mirrorSymmetric_leave (c : Call α) {s : Session α}
    (hs : s.spectrum.MirrorSymmetric g) : (c.leave s).spectrum.MirrorSymmetric g := by
  cases c with
  | tryScalar v => exact keeps_tryScalar v s hs
  | tryLine p => exact keeps_tryLine p s hs
  | leaveAt values => exact keeps_leaveAt values s hs
  | searchScalar params => exact keeps_searchScalar params s hs
  | searchLine params line lo hi => exact Keeps.conduct keeps_tryLine _ s hs
  | searchPlane params direction => exact keeps_searchPlane params direction s hs
  | cancel => exact hs

theorem Call.mirrorSymmetric_leaveAll (calls : List (Call α)) {s : Session α}
    (hs : s.spectrum.MirrorSymmetric g) : (leaveAll calls s).spectrum.MirrorSymmetric g := by
  induction calls generalizing s with
  | nil => exact hs
  | cons c calls ih => exact ih (c.mirrorSymmetric_leave hs)

end Session

namespace HalfSpectrum

variable {α : Type} {g : Geometry} {s : HalfSpectrum α}

theorem MirrorSymmetric.getD {o : Outcome α (HalfSpectrum α)} (hs : s.MirrorSymmetric g)
    (ho : ∀ t, o = .ok t → t.MirrorSymmetric g) : (o.toOption.getD s).MirrorSymmetric g := by
  cases o with
  | ok t => exact ho t rfl
  | error e => exact hs

variable [Scalar α]

/-- What may be done to the transition samples of a half spectrum. -/
inductive Edit (α : Type) where
  | setScalar (value : α)
  | setOnLine (line : SlotLine α) (rho : α)
  | setTransitions (values : List α)
  /-- Any calls on a session over the half spectrum, each of which may fail. -/
  | session (grid : ResponseGrid) (context : RunContext α) (calls : List (Session.Call α))

/-- The half spectrum after an edit. A write that is refused leaves it as it is. -/
def Edit.leave (s : HalfSpectrum α) : Edit α → HalfSpectrum α
  | .setScalar value => (s.setScalar value).toOption.getD s
  | .setOnLine line rho => (s.setOnLine line rho).toOption.getD s
  | .setTransitions values => (s.setTransitions values).toOption.getD s
  | .session grid context calls => (Session.Call.leaveAll calls (.start s grid context)).spectrum

theorem MirrorSymmetric.edit (hs : s.MirrorSymmetric g) (e : Edit α) :
    (e.leave s).MirrorSymmetric g := by
  cases e with
  | setScalar v => exact hs.getD fun _ => hs.setScalar
  | setOnLine line rho => exact hs.getD fun _ => hs.setOnLine
  | setTransitions values => exact hs.getD fun _ => hs.setTransitions
  | session grid context calls =>
      exact Session.Call.mirrorSymmetric_leaveAll calls (s := .start s grid context) hs

theorem MirrorSymmetric.edits (hs : s.MirrorSymmetric g) (edits : List (Edit α)) :
    (edits.foldl Edit.leave s).MirrorSymmetric g := by
  induction edits generalizing s with
  | nil => exact hs
  | cons e edits ih => exact ih (hs.edit e)

/-- After any edits of a half spectrum for three bands, a sample between the outer two has the value
of its mirror image. -/
theorem edits_keep_mirror_images (h : ofGeometry g = .ok s) (hfour : g.band.hasFourEdges = true)
    (edits : List (Edit α)) {k : Nat} (hlow : g.edges.n1 ≤ k) (hhigh : k ≤ g.edges.n4) :
    ∃ v, (edits.foldl Edit.leave s).sample? k = some v ∧
      (edits.foldl Edit.leave s).sample? (g.edges.n1 + g.edges.n4 - k) = some v := by
  have hedited := (mirrorSymmetric_of_ofGeometry h hfour).edits edits
  have hk : g.Spans k := ⟨hlow, hhigh⟩
  refine ⟨_, Array.getElem?_eq_getElem (hedited.lt_size hk), ?_⟩
  exact (hedited.desired_eq k hk).trans (Array.getElem?_eq_getElem (hedited.lt_size hk))

open RationalArithmetic in
/-- A write to every slot, one to the first slot, one that is refused, and a search that its
deadline cuts off. -/
theorem edits_keep_mirror_images_rational :
    let g : Geometry := ⟨21, .bandstop, .typeI, .fourBand 1 4 5 8⟩
    let context : RunContext ℚ := ⟨false, fun checks => checks == 4, fun _ _ => false⟩
    let edits : List (Edit ℚ) := [.setTransitions [mkRat 1 2, mkRat 1 4], .setScalar (mkRat 3 4),
      .setTransitions [1], .session ⟨3, .decibel, .amplitude⟩ context [.searchPlane line direction]]
    let edited := edits.foldl Edit.leave ⟨g, bandLevels g⟩
    ofGeometry g = .ok ⟨g, (bandLevels g : Array ℚ)⟩ ∧ g.band.hasFourEdges = true ∧
      ∃ v, edited.sample? 2 = some v ∧ edited.sample? 7 = some v := by
  have hcheck : (⟨21, .bandstop, .typeI, .fourBand 1 4 5 8⟩ : Geometry).check =
      (.ok () : Outcome ℚ Unit) := by rfl
  intro g context edits edited
  have hg : ofGeometry g = .ok ⟨g, (bandLevels g : Array ℚ)⟩ := ofGeometry_of_check hcheck
  exact ⟨hg, rfl, edits_keep_mirror_images hg rfl edits (k := 2) (by decide) (by decide)⟩

end HalfSpectrum
end FrequencySampling
