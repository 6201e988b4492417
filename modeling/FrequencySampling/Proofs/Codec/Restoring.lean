import FrequencySampling.Proofs.Codec.Fields
import FrequencySampling.Proofs.DoubleNumerals
import FrequencySampling.Proofs.Json.RoundTrip

/-!
What is stored is restored. Choices, positions and parameters are read back from either written form
as long as their indices fit into a word and their numbers are finite and read back themselves; what
was read from any text, in whatever form the decoder admits, is of this kind.
-/

namespace FrequencySampling

open Json StoredNumber

section Values

variable {β : Type} {encode : β → Json} {decode : Json → Option β} {x : β}

/-- The value is stored in a form that can be written, and decoded from it. -/
structure Json.Restores (encode : β → Json) (decode : Json → Option β) (x : β) : Prop where
  wellFormed : (encode x).WellFormed
  decode_encode : decode (encode x) = some x

/-- Both written forms are read as the value. -/
theorem Json.Restores.texts (h : Restores encode decode x) :
    (parse? (encode x).compact).bind decode = some x ∧
      (parse? (encode x).pretty).bind decode = some x := by
  rw [parse?_compact h.wellFormed, parse?_pretty h.wellFormed]
  exact ⟨h.decode_encode, h.decode_encode⟩

theorem restores_nat {n : Nat} (h : n < UInt64.size) : Restores .nat toNat? n where
  wellFormed := wellFormed_nat n
  decode_encode := by simp [nat, toNat?, Numeral.ofNat, Numeral.isInteger, Digits.toNat_ofNat, h]

theorem restores_bool (b : Bool) : Restores .bool toBool? b where
  wellFormed := .bool b
  decode_encode := rfl

theorem restores_choice {choices : List (String × β)} {name : β → String}
    (h : choices.lookup (name x) = some x) :
    Restores (fun x => .str (name x)) (choice? choices) x where
  wellFormed := .string _
  decode_encode := by simp [str, choice?, JsonText.toString?_ofString, h]

theorem Json.DecodesRecord.restores {P : Type} {fields : List (RecordField P)} {start p : P}
    {toJson : P → Json} {ofJson? : Json → Option P} (h : DecodesRecord fields start ofJson?)
    (htoJson : toJson p = record (fields.map fun f => (f.name, f.encode (f.content p))))
    (hfields : ∀ f ∈ fields, Restores f.encode f.decode (f.content p))
    (hall : fields.foldl (fun q f => f.replace (f.content p) q) start = p) :
    Restores toJson ofJson? p where
  wellFormed := by
    rw [htoJson]
    refine wellFormed_record fun m hm => ?_
    obtain ⟨f, hf, rfl⟩ := List.mem_map.mp hm
    exact (hfields f hf).wellFormed
  decode_encode := by
    rw [htoJson]
    exact h.ofJson?_record (fun f hf => (hfields f hf).decode_encode) hall

end Values

section Numbers

variable {α : Type} [Scalar α] [StoredNumber α] [Faithful α]

theorem restores_number {x : α} (hfinite : Scalar.isFinite x = true) (hread : ReadsBack x) :
    Restores .ofNumber toNumber? x := by
  obtain ⟨n, hn, hwellFormed⟩ := exists_numeral hfinite
  have hstored : ofNumber x = .number n := by rw [ofNumber, hn]
  refine ⟨?_, ?_⟩
  · rw [hstored]
    exact .number hwellFormed
  · rw [hstored]
    exact hread n hn

theorem nullable_ofNumber {x : α} (hfinite : Scalar.isFinite x = true) :
    nullable toNumber? (ofNumber x) = (toNumber? (ofNumber x) : Option α).map some := by
  obtain ⟨n, hn, -⟩ := exists_numeral hfinite
  rw [ofNumber, hn]
  rfl

theorem restores_tolerance {tol : Option α}
    (h : ∀ x ∈ tol.toList, Scalar.isFinite x = true ∧ ReadsBack x) :
    Restores PlaneSearchParams.ofTolerance (nullable toNumber?) tol := by
  cases tol with
  | none => exact ⟨.null, rfl⟩
  | some x =>
      obtain ⟨hfinite, hread⟩ := h x (List.mem_singleton_self x)
      have hx := restores_number hfinite hread
      refine ⟨hx.wellFormed, ?_⟩
      rw [PlaneSearchParams.ofTolerance, nullable_ofNumber hfinite, hx.decode_encode]
      rfl

theorem toNat?_lt {v : Json} {n : Nat} (h : toNat? v = some n) : n < UInt64.size := by
  cases v with
  | number m =>
      rw [toNat?] at h
      split at h
      · rename_i hindex
        simp only [Bool.and_eq_true, decide_eq_true_eq] at hindex
        cases h
        exact hindex.2
      · cases h
  | _ => cases h

theorem isFinite_of_toNumber? {v : Json} {x : α} (h : toNumber? v = some x) :
    Scalar.isFinite x = true := by
  cases v with
  | number n => exact Faithful.isFinite_of_ofNumeral? h
  | _ => cases h

theorem isFinite_of_tolerance {v : Json} {tol : Option α} (h : nullable toNumber? v = some tol) :
    ∀ x ∈ tol.toList, Scalar.isFinite x = true := by
  cases v with
  | null =>
      cases h
      exact List.forall_mem_nil _
  | number n =>
      obtain ⟨x, hx, rfl⟩ := Option.map_eq_some_iff.mp h
      intro y hy
      cases List.mem_singleton.mp hy
      exact isFinite_of_toNumber? hx
  | _ => cases h

end Numbers

/-- How the values of a type are stored, and the numbers and indices that are in them. -/
structure StoredForm (α P : Type) where
  toJson : P → Json
  ofJson? : Json → Option P
  numbers : P → List α
  indices : P → List Nat

namespace StoredForm

variable {α P : Type}

/-- A choice has no numbers. -/
def ofChoice (toJson : P → Json) (ofJson? : Json → Option P) : StoredForm α P :=
  ⟨toJson, ofJson?, fun _ => [], fun _ => []⟩

/-- The value is read from both of its written forms. -/
def Restored (form : StoredForm α P) (x : P) : Prop :=
  (parse? (form.toJson x).compact).bind form.ofJson? = some x ∧
    (parse? (form.toJson x).pretty).bind form.ofJson? = some x

variable [Scalar α] [StoredNumber α]

/-- Every index fits into a word and every number is finite. -/
structure Admits (form : StoredForm α P) (x : P) : Prop where
  index_lt : ∀ n ∈ form.indices x, n < UInt64.size
  isFinite : ∀ a ∈ form.numbers x, Scalar.isFinite a = true

/-- What is admitted is restored, and so is what is read from any text, as long as the numbers are
read back from their numerals. -/
structure RoundTrips (form : StoredForm α P) : Prop where
  restored_of_admits : ∀ x, form.Admits x → (∀ a ∈ form.numbers x, ReadsBack a) → form.Restored x
  restored_of_read : ∀ text x, (parse? text).bind form.ofJson? = some x →
    (∀ a ∈ form.numbers x, ReadsBack a) → form.Restored x

/-- What is admitted is stored in a form that can be read, and whatever is read is admitted. -/
structure Lawful (form : StoredForm α P) : Prop where
  restores : ∀ x, form.Admits x → (∀ a ∈ form.numbers x, ReadsBack a) →
    Restores form.toJson form.ofJson? x
  admits : ∀ v x, form.ofJson? v = some x → form.Admits x

theorem Lawful.roundTrips {form : StoredForm α P} (h : form.Lawful) : form.RoundTrips where
  restored_of_admits x hx hread := (h.restores x hx hread).texts
  restored_of_read text x htext hread := by
    obtain ⟨v, -, hv⟩ := Option.bind_eq_some_iff.mp htext
    exact (h.restores x (h.admits v x hv) hread).texts

theorem lawful_ofChoice {toJson : P → Json} {ofJson? : Json → Option P}
    (h : ∀ x, Restores toJson ofJson? x) : (ofChoice toJson ofJson? : StoredForm α P).Lawful where
  restores x _ _ := h x
  admits _ _ _ := ⟨List.forall_mem_nil _, List.forall_mem_nil _⟩

theorem lawful_of_decodesRecord {form : StoredForm α P} {fields : List (RecordField P)} {start : P}
    (h : DecodesRecord fields start form.ofJson?)
    (htoJson : ∀ p, form.toJson p = record (fields.map fun f => (f.name, f.encode (f.content p))))
    (hall : ∀ p, fields.foldl (fun q f => f.replace (f.content p) q) start = p)
    (hfields : ∀ p, form.Admits p → (∀ a ∈ form.numbers p, ReadsBack a) →
      ∀ f ∈ fields, Restores f.encode f.decode (f.content p))
    (hstart : form.Admits start)
    (hkeeps : ∀ f ∈ fields, ∀ v x, f.decode v = some x → ∀ p, form.Admits p →
      form.Admits (f.replace x p)) : form.Lawful where
  restores p hp hread := h.restores (htoJson p) (hfields p hp hread) (hall p)
  admits _ _ hv := h.invariant hstart hkeeps hv

end StoredForm

namespace Band

def storedForm (α : Type) : StoredForm α Band :=
  .ofChoice toJson ofJson?

theorem restores (b : Band) : Restores toJson ofJson? b :=
  show Restores (fun b => .str (storedName b)) (choice? _) b from
    restores_choice (by cases b <;> rfl)

end Band

namespace LinearPhase

def storedForm (α : Type) : StoredForm α LinearPhase :=
  .ofChoice toJson ofJson?

theorem restores (p : LinearPhase) : Restores toJson ofJson? p :=
  show Restores (fun p => .str (storedName p)) (choice? _) p from
    restores_choice (by cases p <;> rfl)

end LinearPhase

namespace MagnitudeScale

def storedForm (α : Type) : StoredForm α MagnitudeScale :=
  .ofChoice toJson ofJson?

theorem restores (s : MagnitudeScale) : Restores toJson ofJson? s :=
  show Restores (fun s => .str (storedName s)) (choice? _) s from
    restores_choice (by cases s <;> rfl)

end MagnitudeScale

namespace ResponseMethod

def storedForm (α : Type) : StoredForm α ResponseMethod :=
  .ofChoice toJson ofJson?

theorem restores (m : ResponseMethod) : Restores toJson ofJson? m :=
  show Restores (fun m => .str (storedName m)) (choice? _) m from
    restores_choice (by cases m <;> rfl)

end ResponseMethod

namespace CutoffLevel

def storedForm (α : Type) : StoredForm α CutoffLevel :=
  .ofChoice toJson ofJson?

theorem restores (l : CutoffLevel) : Restores toJson ofJson? l :=
  show Restores (fun l => .str (storedName l)) (choice? _) l from
    restores_choice (by cases l <;> rfl)

end CutoffLevel

namespace BandEdges

def storedForm (α : Type) : StoredForm α BandEdges :=
  ⟨toJson, ofJson?, fun _ => [], fun e => [e.n1, e.n2, e.n3, e.n4]⟩

variable {α : Type} [Scalar α]

theorem admits_iff {e : BandEdges} : (storedForm α).Admits e ↔ e.n1 < UInt64.size ∧
    e.n2 < UInt64.size ∧ e.n3 < UInt64.size ∧ e.n4 < UInt64.size := by
  constructor
  · rintro ⟨h, -⟩
    simpa [storedForm] using h
  · intro h
    exact ⟨by simpa [storedForm] using h, List.forall_mem_nil _⟩

theorem lawful [StoredNumber α] : (storedForm α).Lawful := by
  refine StoredForm.lawful_of_decodesRecord (decodesRecord ⟨0, 0, 0, 0⟩) (fun _ => rfl)
    (fun _ => rfl) ?_ ?_ ?_
  · intro e he _
    obtain ⟨h1, h2, h3, h4⟩ := admits_iff.mp he
    simp only [fields, List.forall_mem_cons]
    exact ⟨restores_nat h1, restores_nat h2, restores_nat h3, restores_nat h4,
      List.forall_mem_nil _⟩
  · simp [admits_iff]
  · simp only [fields, List.forall_mem_cons, admits_iff]
    exact ⟨fun _ _ hn _ he => ⟨toNat?_lt hn, he.2⟩,
      fun _ _ hn _ he => ⟨he.1, toNat?_lt hn, he.2.2⟩,
      fun _ _ hn _ he => ⟨he.1, he.2.1, toNat?_lt hn, he.2.2.2⟩,
      fun _ _ hn _ he => ⟨he.1, he.2.1, he.2.2.1, toNat?_lt hn⟩, List.forall_mem_nil _⟩

end BandEdges

variable {α : Type} [Scalar α] [StoredNumber α] [Faithful α]

namespace Cutoff

def storedForm (α : Type) [StoredNumber α] : StoredForm α (Cutoff α) :=
  ⟨toJson, ofJson?, fun c => [c.fraction], fun _ => []⟩

omit [Faithful α] in
theorem admits_iff {c : Cutoff α} :
    (storedForm α).Admits c ↔ Scalar.isFinite c.fraction = true := by
  constructor
  · rintro ⟨-, h⟩
    exact h c.fraction (List.mem_singleton_self _)
  · intro h
    exact ⟨List.forall_mem_nil _, by simpa [storedForm] using h⟩

theorem lawful : (storedForm α).Lawful := by
  have hfinite := Faithful.isFinite_default (LineSearchParams.default : LineSearchParams α).tol
    List.mem_cons_self
  refine StoredForm.lawful_of_decodesRecord (decodesRecord ⟨_, .halfAmplitude⟩) (fun _ => rfl)
    (fun _ => rfl) ?_ (admits_iff.mpr hfinite) ?_
  · intro c hc hread
    simp only [fields, List.forall_mem_cons]
    exact ⟨restores_number (admits_iff.mp hc) (hread _ (List.mem_singleton_self _)),
      CutoffLevel.restores c.level, List.forall_mem_nil _⟩
  · simp only [fields, List.forall_mem_cons, admits_iff]
    exact ⟨fun _ _ hx _ _ => isFinite_of_toNumber? hx, fun _ _ _ _ hc => hc, List.forall_mem_nil _⟩

end Cutoff

namespace LineSearchParams

def storedForm (α : Type) [Scalar α] [StoredNumber α] : StoredForm α (LineSearchParams α) :=
  ⟨toJson, ofJson?, numbers, indices⟩

omit [Faithful α] in
theorem admits_iff {p : LineSearchParams α} : (storedForm α).Admits p ↔
    Scalar.isFinite p.tol = true ∧ p.maxIterations < UInt64.size ∧
      p.maxBracketSteps < UInt64.size := by
  constructor
  · rintro ⟨h, h'⟩
    simp only [storedForm, numbers, indices, List.forall_mem_cons] at h h'
    exact ⟨h'.1, h.1, h.2.1⟩
  · rintro ⟨htol, hiterations, hsteps⟩
    refine ⟨?_, ?_⟩
    · simp [storedForm, indices, hiterations, hsteps]
    · simp [storedForm, numbers, htol]

theorem admits_default : (storedForm α).Admits default :=
  admits_iff.mpr ⟨Faithful.isFinite_default _ List.mem_cons_self,
    show 100 < UInt64.size by decide, show 100 < UInt64.size by decide⟩

theorem lawful : (storedForm α).Lawful := by
  refine StoredForm.lawful_of_decodesRecord decodesRecord (fun _ => rfl) (fun _ => rfl) ?_
    admits_default ?_
  · intro p hp hread
    obtain ⟨htol, hiterations, hsteps⟩ := admits_iff.mp hp
    simp only [fields, List.forall_mem_cons]
    exact ⟨restores_number htol (hread _ (List.mem_singleton_self _)), restores_nat hiterations,
      restores_nat hsteps, List.forall_mem_nil _⟩
  · simp only [fields, List.forall_mem_cons, admits_iff]
    exact ⟨fun _ _ hx _ hp => ⟨isFinite_of_toNumber? hx, hp.2⟩,
      fun _ _ hn _ hp => ⟨hp.1, toNat?_lt hn, hp.2.2⟩,
      fun _ _ hn _ hp => ⟨hp.1, hp.2.1, toNat?_lt hn⟩, List.forall_mem_nil _⟩

end LineSearchParams

namespace PlaneSearchParams

def storedForm (α : Type) [Scalar α] [StoredNumber α] : StoredForm α (PlaneSearchParams α) :=
  ⟨toJson, ofJson?, numbers, indices⟩

omit [Faithful α] in
theorem admits_iff {p : PlaneSearchParams α} : (storedForm α).Admits p ↔
    Scalar.isFinite p.tweakFactor = true ∧ Scalar.isFinite p.startLevel = true ∧
      (∀ tol ∈ p.rippleTol.toList, Scalar.isFinite tol = true) ∧
      p.maxOuterIterations < UInt64.size ∧ Scalar.isFinite p.minLineSeparation = true := by
  constructor
  · rintro ⟨hindex, hfinite⟩
    simp only [storedForm, numbers, indices, List.forall_mem_cons, List.forall_mem_append]
      at hindex hfinite
    exact ⟨hfinite.1.1.1, hfinite.1.1.2.1, hfinite.1.2, hindex.1, hfinite.2.1⟩
  · rintro ⟨htweak, hstart, htol, houter, hseparation⟩
    refine ⟨?_, ?_⟩
    · simp [storedForm, indices, houter]
    · simp only [storedForm, numbers, List.forall_mem_cons, List.forall_mem_append]
      exact ⟨⟨⟨htweak, hstart, List.forall_mem_nil _⟩, htol⟩, hseparation, List.forall_mem_nil _⟩

theorem admits_default : (storedForm α).Admits default := by
  have hdefault : ∀ x ∈ (default : PlaneSearchParams α).numbers, Scalar.isFinite x = true :=
    fun x hx => Faithful.isFinite_default x (List.mem_append_right _ hx)
  simp only [numbers, List.forall_mem_cons, List.forall_mem_append] at hdefault
  exact admits_iff.mpr ⟨hdefault.1.1.1, hdefault.1.1.2.1, hdefault.1.2,
    show 50 < UInt64.size by decide, hdefault.2.1⟩

theorem lawful : (storedForm α).Lawful := by
  refine StoredForm.lawful_of_decodesRecord decodesRecord (fun p => ?_) (fun _ => rfl) ?_
    admits_default ?_
  · rcases p with ⟨_, _, _ | _, _, _⟩ <;> rfl
  · intro p hp hread
    obtain ⟨htweak, hstart, htol, houter, hseparation⟩ := admits_iff.mp hp
    simp only [storedForm, numbers, List.forall_mem_cons, List.forall_mem_append] at hread
    obtain ⟨⟨⟨htweak', hstart', -⟩, htol'⟩, hseparation', -⟩ := hread
    simp only [fields, List.forall_mem_cons]
    exact ⟨restores_number htweak htweak', restores_number hstart hstart',
      restores_tolerance fun x hx => ⟨htol x hx, htol' x hx⟩, restores_nat houter,
      restores_number hseparation hseparation', List.forall_mem_nil _⟩
  · simp only [fields, List.forall_mem_cons, admits_iff]
    exact ⟨fun _ _ hx _ hp => ⟨isFinite_of_toNumber? hx, hp.2⟩,
      fun _ _ hx _ hp => ⟨hp.1, isFinite_of_toNumber? hx, hp.2.2⟩,
      fun _ _ hx _ hp => ⟨hp.1, hp.2.1, isFinite_of_tolerance hx, hp.2.2.2⟩,
      fun _ _ hn _ hp => ⟨hp.1, hp.2.1, hp.2.2.1, toNat?_lt hn, hp.2.2.2.2⟩,
      fun _ _ hx _ hp => ⟨hp.1, hp.2.1, hp.2.2.1, hp.2.2.2.1, isFinite_of_toNumber? hx⟩,
      List.forall_mem_nil _⟩

end PlaneSearchParams

namespace DesignParams

def storedForm (α : Type) [Scalar α] [StoredNumber α] : StoredForm α (DesignParams α) :=
  ⟨toJson, ofJson?, numbers, indices⟩

omit [Faithful α] in
theorem admits_iff {p : DesignParams α} : (storedForm α).Admits p ↔
    (LineSearchParams.storedForm α).Admits p.line ∧
      (PlaneSearchParams.storedForm α).Admits p.direction ∧ p.points < UInt64.size := by
  constructor
  · rintro ⟨hindex, hfinite⟩
    simp only [storedForm, numbers, indices, List.forall_mem_append, List.forall_mem_cons]
      at hindex hfinite
    exact ⟨⟨hindex.1.1, hfinite.1⟩, ⟨hindex.1.2, hfinite.2⟩, hindex.2.1⟩
  · rintro ⟨⟨hline, hline'⟩, ⟨hdirection, hdirection'⟩, hpoints⟩
    refine ⟨?_, ?_⟩
    · simp only [storedForm, indices, List.forall_mem_append, List.forall_mem_cons]
      exact ⟨⟨hline, hdirection⟩, hpoints, List.forall_mem_nil _⟩
    · simp only [storedForm, numbers, List.forall_mem_append]
      exact ⟨hline', hdirection'⟩

theorem lawful : (storedForm α).Lawful := by
  have hline := LineSearchParams.lawful (α := α)
  have hdirection := PlaneSearchParams.lawful (α := α)
  refine StoredForm.lawful_of_decodesRecord decodesRecord (fun _ => rfl) (fun _ => rfl) ?_ ?_ ?_
  · intro p hp hread
    obtain ⟨hpline, hpdirection, hpoints⟩ := admits_iff.mp hp
    simp only [storedForm, numbers, List.forall_mem_append] at hread
    simp only [fields, List.forall_mem_cons]
    exact ⟨hline.restores p.line hpline hread.1,
      hdirection.restores p.direction hpdirection hread.2, restores_nat hpoints,
      MagnitudeScale.restores p.scale, restores_bool p.normalize,
      ResponseMethod.restores p.method, List.forall_mem_nil _⟩
  · exact admits_iff.mpr ⟨LineSearchParams.admits_default, PlaneSearchParams.admits_default,
      show 512 < UInt64.size by decide⟩
  · simp only [fields, List.forall_mem_cons, admits_iff]
    exact ⟨fun v _ hx _ hp => ⟨hline.admits v _ hx, hp.2⟩,
      fun v _ hx _ hp => ⟨hp.1, hdirection.admits v _ hx, hp.2.2⟩,
      fun _ _ hn _ hp => ⟨hp.1, hp.2.1, toNat?_lt hn⟩,
      fun _ _ _ _ hp => hp, fun _ _ _ _ hp => hp, fun _ _ _ _ hp => hp, List.forall_mem_nil _⟩

end DesignParams

/-- Whatever can be stored is read back from its compact and from its indented text, and so is
whatever was read from any text. -/
theorem storedForms_roundTrip :
    (Band.storedForm α).RoundTrips ∧ (LinearPhase.storedForm α).RoundTrips ∧
      (BandEdges.storedForm α).RoundTrips ∧ (MagnitudeScale.storedForm α).RoundTrips ∧
      (ResponseMethod.storedForm α).RoundTrips ∧ (CutoffLevel.storedForm α).RoundTrips ∧
      (Cutoff.storedForm α).RoundTrips ∧ (LineSearchParams.storedForm α).RoundTrips ∧
      (PlaneSearchParams.storedForm α).RoundTrips ∧ (DesignParams.storedForm α).RoundTrips :=
  ⟨(StoredForm.lawful_ofChoice Band.restores).roundTrips,
    (StoredForm.lawful_ofChoice LinearPhase.restores).roundTrips, BandEdges.lawful.roundTrips,
    (StoredForm.lawful_ofChoice MagnitudeScale.restores).roundTrips,
    (StoredForm.lawful_ofChoice ResponseMethod.restores).roundTrips,
    (StoredForm.lawful_ofChoice CutoffLevel.restores).roundTrips, Cutoff.lawful.roundTrips,
    LineSearchParams.lawful.roundTrips, PlaneSearchParams.lawful.roundTrips,
    DesignParams.lawful.roundTrips⟩

/-- Parameters that would not pass the check, with the largest index there is. -/
theorem storedForms_roundTrip_double :
    (DesignParams.storedForm Float).Restored
      ⟨⟨0.25, 18446744073709551615, 0⟩, ⟨0.9, 1, some 1e-9, 50, 0⟩, 0, .linear, false,
        .fourier⟩ := by
  obtain ⟨-, -, -, -, -, -, -, -, -, hparams⟩ := storedForms_roundTrip (α := Float)
  refine hparams.restored_of_admits _ ⟨by decide +kernel, by decide +kernel⟩ ?_
  unfold ReadsBack
  decide +kernel

end FrequencySampling
