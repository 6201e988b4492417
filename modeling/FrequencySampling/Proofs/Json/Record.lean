import FrequencySampling.Json.Record
import Mathlib.Data.List.Nodup

/-!
Records as objects. A decoder of records looks up each of its fields by name; what it computes can
be told without any look-up, by going through the members in their order and replacing the field
that a member names. The two agree whenever no field is named twice, so the order of the members
does not matter, nor does the order inside a member that is itself a record.
-/

namespace FrequencySampling.Json

abbrev Members := List (JsonText × Json)

/-- How often an object has a member of the name. -/
def timesListed (name : String) (ms : Members) : Nat :=
  (valuesOf name ms).length

/-- The first value of a member of the name. -/
def valueOf? (ms : Members) (name : String) : Option Json :=
  (valuesOf name ms).head?

/-- Every member has a text for its name. -/
def Named (ms : Members) : Prop :=
  ∀ m ∈ ms, m.1.toString?.isSome = true

section Lookup

variable {ms ms' : Members} {names : List String} {name : String}

theorem exists_repeated {β : Type*} {l : List β} (nameOf : β → String)
    (h : ¬ ∀ b ∈ l, timesListed (nameOf b) ms ≤ 1) : ∃ b ∈ l, 1 < timesListed (nameOf b) ms :=
  Classical.byContradiction fun hnone =>
    h fun b hb => Nat.le_of_not_lt fun htwice => hnone ⟨b, hb, htwice⟩

theorem memberOf?_eq_some (h : timesListed name ms ≤ 1) :
    memberOf? ms name = some (valueOf? ms name) := by
  unfold timesListed at h
  unfold memberOf? valueOf?
  match hvalues : valuesOf name ms with
  | [] => rfl
  | [v] => rfl
  | v :: w :: vs =>
      rw [hvalues, List.length_cons, List.length_cons] at h
      omega

theorem memberOf?_eq_none (h : 1 < timesListed name ms) : memberOf? ms name = none := by
  unfold timesListed at h
  unfold memberOf?
  match hvalues : valuesOf name ms with
  | [] => simp [hvalues] at h
  | [v] => simp [hvalues] at h
  | v :: w :: vs => rfl

theorem mapM_memberOf? (h : ∀ name ∈ names, timesListed name ms ≤ 1) :
    names.mapM (memberOf? ms) = some (names.map (valueOf? ms)) := by
  induction names with
  | nil => rfl
  | cons name names ih =>
      rw [List.mapM_cons, memberOf?_eq_some (h name List.mem_cons_self),
        ih fun other hother => h other (List.mem_cons_of_mem name hother)]
      rfl

theorem mapM_memberOf?_eq_none (hname : name ∈ names) (h : 1 < timesListed name ms) :
    names.mapM (memberOf? ms) = none := by
  induction names with
  | nil => cases hname
  | cons other names ih =>
      rw [List.mapM_cons]
      cases List.mem_cons.mp hname with
      | inl heq =>
          rw [← heq, memberOf?_eq_none h]
          rfl
      | inr hmem =>
          rw [ih hmem]
          cases memberOf? ms other <;> rfl

theorem fields?_object (hnamed : Named ms) (h : ∀ name ∈ names, timesListed name ms ≤ 1) :
    fields? names (.object ms) = some (names.map (valueOf? ms)) := by
  have hall : (ms.all fun m => m.1.toString?.isSome) = true := List.all_eq_true.mpr hnamed
  rw [fields?, if_pos hall, mapM_memberOf? h]

theorem fields?_object_of_unnamed (h : ¬ Named ms) : fields? names (.object ms) = none := by
  have hall : ¬ (ms.all fun m => m.1.toString?.isSome) = true :=
    fun hall => h (List.all_eq_true.mp hall)
  rw [fields?, if_neg hall]

theorem fields?_object_of_repeated (hname : name ∈ names) (h : 1 < timesListed name ms) :
    fields? names (.object ms) = none := by
  rw [fields?, mapM_memberOf?_eq_none hname h, ite_self]

theorem valuesOf_cons (m : JsonText × Json) (ms : Members) (name : String) :
    valuesOf name (m :: ms) =
      if m.1.toString? = some name then m.2 :: valuesOf name ms else valuesOf name ms := by
  unfold valuesOf
  by_cases h : m.1.toString? = some name
  · rw [if_pos h, List.filter_cons_of_pos (by simp [h]), List.map_cons]
  · rw [if_neg h, List.filter_cons_of_neg (by simp [h])]

end Lookup

section Written

variable {members : List (String × Json)}

theorem valuesOf_eq_nil {name : String} {ms : Members}
    (h : ∀ m ∈ ms, m.1.toString? ≠ some name) : valuesOf name ms = [] := by
  induction ms with
  | nil => rfl
  | cons m ms ih =>
      rw [valuesOf_cons, if_neg (h m List.mem_cons_self)]
      exact ih fun other hother => h other (List.mem_cons_of_mem m hother)

theorem valuesOf_record (hnodup : (members.map (·.1)).Nodup) {m : String × Json}
    (hm : m ∈ members) :
    valuesOf m.1 (members.map fun m => (JsonText.ofString m.1, m.2)) = [m.2] := by
  induction members with
  | nil => cases hm
  | cons other members ih =>
      rw [List.map_cons, List.nodup_cons] at hnodup
      obtain ⟨hnew, hnodup⟩ := hnodup
      rw [List.map_cons, valuesOf_cons, JsonText.toString?_ofString]
      cases List.mem_cons.mp hm with
      | inl heq =>
          subst heq
          rw [if_pos rfl, valuesOf_eq_nil]
          intro entry hentry hname
          obtain ⟨later, hlater, rfl⟩ := List.mem_map.mp hentry
          rw [JsonText.toString?_ofString, Option.some.injEq] at hname
          exact hnew (List.mem_map.mpr ⟨later, hlater, hname⟩)
      | inr hmem =>
          have hne : other.1 ≠ m.1 := fun heq => hnew (List.mem_map.mpr ⟨m, hmem, heq.symm⟩)
          rw [if_neg (by simpa using hne)]
          exact ih hnodup hmem

/-- A record is written with every field once, under its name. -/
theorem fields?_record (hnodup : (members.map (·.1)).Nodup) :
    (record members).fields? (members.map (·.1)) = some (members.map fun m => some m.2) := by
  have hvalues := fun m hm => valuesOf_record hnodup (m := m) hm
  rw [record, fields?_object]
  · rw [List.map_map]
    refine congrArg some (List.map_congr_left fun m hm => ?_)
    rw [Function.comp_apply, valueOf?, hvalues m hm, List.head?_cons]
  · intro entry hentry
    obtain ⟨m, -, rfl⟩ := List.mem_map.mp hentry
    rw [JsonText.toString?_ofString]
    rfl
  · intro name hname
    obtain ⟨m, hm, rfl⟩ := List.mem_map.mp hname
    rw [timesListed, hvalues m hm]
    exact Nat.le_refl 1

end Written

/-- A field of a record. -/
structure RecordField (P : Type) where
  {Content : Type}
  name : String
  encode : Content → Json
  decode : Json → Option Content
  content : P → Content
  replace : Content → P → P
  /-- Whether the record is refused without the field. -/
  needed : Bool
  replace_content (p : P) : replace (content p) p = p

namespace RecordField

variable {P : Type}

/-- It does not matter which of the two fields is replaced first. -/
def Independent (f g : RecordField P) : Prop :=
  ∀ x y p, f.replace x (g.replace y p) = g.replace y (f.replace x p)

/-- The content that a value is decoded to; without one, that of the record at hand. -/
def decodeOr (f : RecordField P) (p : P) : Option Json → Option f.Content :=
  match f.needed with
  | true => required f.decode
  | false => orDefault (f.content p) f.decode

theorem decodeOr_some (f : RecordField P) (p : P) (v : Json) :
    f.decodeOr p (some v) = f.decode v := by
  unfold decodeOr
  cases f.needed <;> rfl

theorem decodeOr_none (f : RecordField P) (p : P) :
    f.decodeOr p none = if f.needed = true then none else some (f.content p) := by
  unfold decodeOr
  cases f.needed <;> rfl

end RecordField

section Fields

variable {P : Type} {fields : List (RecordField P)} {p q : P} {ms ms' : Members}

/-- Every field is listed at most once, and exactly once if it has to be there. -/
def ListsOnce (fields : List (RecordField P)) (ms : Members) : Prop :=
  ∀ f ∈ fields, timesListed f.name ms ≤ 1 ∧ (f.needed = true → timesListed f.name ms = 1)

instance (fields : List (RecordField P)) (ms : Members) : Decidable (ListsOnce fields ms) :=
  inferInstanceAs (Decidable (∀ f ∈ fields, _))

theorem listsOnce_iff_of_needed (h : ∀ f ∈ fields, f.needed = true) :
    ListsOnce fields ms ↔ ∀ f ∈ fields, timesListed f.name ms = 1 := by
  refine forall₂_congr fun f hf => ⟨fun hlisted => hlisted.2 (h f hf), fun hlisted => ?_⟩
  exact ⟨Nat.le_of_eq hlisted, fun _ => hlisted⟩

/-- Going through the members makes one record into another: a member that names a field replaces
the field, and any other is passed over, whatever its value. -/
inductive Replaces (fields : List (RecordField P)) : P → Members → P → Prop
  | nil (p : P) : Replaces fields p [] p
  | known {p q : P} {t : JsonText} {v : Json} {ms : Members} {f : RecordField P} {x : f.Content}
      (hf : f ∈ fields) (hname : t.toString? = some f.name) (hvalue : f.decode v = some x)
      (hrest : Replaces fields (f.replace x p) ms q) : Replaces fields p ((t, v) :: ms) q
  | unknown {p q : P} {t : JsonText} {v : Json} {ms : Members} {name : String}
      (hname : t.toString? = some name) (hnew : ∀ f ∈ fields, f.name ≠ name)
      (hrest : Replaces fields p ms q) : Replaces fields p ((t, v) :: ms) q

/-- Every member has a text for its name, and a value of the right form if that names a field. -/
def WellTyped (fields : List (RecordField P)) (ms : Members) : Prop :=
  ∀ m ∈ ms, ∃ name, m.1.toString? = some name ∧
    ∀ f ∈ fields, f.name = name → (f.decode m.2).isSome = true

theorem Replaces.named (h : Replaces fields p ms q) : Named ms := by
  induction h with
  | nil p => exact List.forall_mem_nil _
  | known _ hname _ _ ih | unknown hname _ _ ih =>
      refine List.forall_mem_cons.mpr ⟨?_, ih⟩
      rw [hname]
      rfl

theorem replaces_known_iff (hnodup : (fields.map (·.name)).Nodup) {f : RecordField P}
    (hf : f ∈ fields) {t : JsonText} {v : Json} (hname : t.toString? = some f.name) :
    Replaces fields p ((t, v) :: ms) q ↔
      ∃ x, f.decode v = some x ∧ Replaces fields (f.replace x p) ms q := by
  constructor
  · intro hreplaces
    cases hreplaces with
    | @known _ _ _ _ _ g x hg hname' hvalue hrest =>
        have hsame : f.name = g.name := Option.some.inj (hname.symm.trans hname')
        cases List.inj_on_of_nodup_map hnodup hf hg hsame
        exact ⟨x, hvalue, hrest⟩
    | unknown hname' hnew _ =>
        exact absurd (Option.some.inj (hname.symm.trans hname')) (hnew f hf)
  · rintro ⟨x, hvalue, hrest⟩
    exact .known hf hname hvalue hrest

theorem replaces_unknown_iff {t : JsonText} {v : Json} {name : String}
    (hname : t.toString? = some name) (hnew : ∀ f ∈ fields, f.name ≠ name) :
    Replaces fields p ((t, v) :: ms) q ↔ Replaces fields p ms q := by
  refine ⟨fun hreplaces => ?_, .unknown hname hnew⟩
  cases hreplaces with
  | known hf hname' => exact absurd (Option.some.inj (hname'.symm.trans hname)) (hnew _ hf)
  | unknown _ _ hrest => exact hrest

theorem WellTyped.exists_replaces (h : WellTyped fields ms) : ∃ q, Replaces fields p ms q := by
  induction ms generalizing p with
  | nil => exact ⟨p, .nil p⟩
  | cons m ms ih =>
      obtain ⟨⟨name, hname, hvalue⟩, hrest⟩ := List.forall_mem_cons.mp h
      by_cases hknown : ∃ f ∈ fields, f.name = name
      · obtain ⟨f, hf, rfl⟩ := hknown
        obtain ⟨x, hx⟩ := Option.isSome_iff_exists.mp (hvalue f hf rfl)
        obtain ⟨q, hq⟩ := ih hrest (p := f.replace x p)
        exact ⟨q, .known hf hname hx hq⟩
      · obtain ⟨q, hq⟩ := ih hrest (p := p)
        exact ⟨q, .unknown hname (fun f hf heq => hknown ⟨f, hf, heq⟩) hq⟩

theorem Replaces.wellTyped (hnodup : (fields.map (·.name)).Nodup) (h : Replaces fields p ms q) :
    WellTyped fields ms := by
  induction h with
  | nil p => exact List.forall_mem_nil _
  | @known p q t v ms f x hf hname hvalue _ ih =>
      refine List.forall_mem_cons.mpr ⟨⟨f.name, hname, fun g hg heq => ?_⟩, ih⟩
      cases List.inj_on_of_nodup_map hnodup hg hf heq
      rw [hvalue]
      rfl
  | @unknown p q t v ms name hname hnew _ ih =>
      exact List.forall_mem_cons.mpr ⟨⟨name, hname, fun f hf heq => absurd heq (hnew f hf)⟩, ih⟩

theorem valueOf?_cons (m : JsonText × Json) (ms : Members) (name : String) :
    valueOf? (m :: ms) name =
      if m.1.toString? = some name then some m.2 else valueOf? ms name := by
  unfold valueOf?
  rw [valuesOf_cons]
  split <;> rfl

theorem valueOf?_eq_none_iff {name : String} :
    valueOf? ms name = none ↔ timesListed name ms = 0 := by
  rw [valueOf?, timesListed, List.head?_eq_none_iff, List.length_eq_zero_iff]

theorem valueOf?_cons_of_eq {t : JsonText} {v : Json} {name : String}
    (h : t.toString? = some name) : valueOf? ((t, v) :: ms) name = some v := by
  rw [valueOf?_cons, if_pos h]

theorem valueOf?_cons_of_ne {t : JsonText} {v : Json} {name other : String}
    (h : t.toString? = some name) (hne : other ≠ name) :
    valueOf? ((t, v) :: ms) other = valueOf? ms other := by
  rw [valueOf?_cons, if_neg]
  rw [h, Option.some.injEq]
  exact hne.symm

theorem timesListed_cons (m : JsonText × Json) (ms : Members) (name : String) :
    timesListed name (m :: ms) =
      if m.1.toString? = some name then timesListed name ms + 1 else timesListed name ms := by
  unfold timesListed
  rw [valuesOf_cons]
  split <;> rfl

/-- The record with each field replaced for which a value is given, in the order of the fields. -/
def assign : List (RecordField P) → (String → Option Json) → P → Option P
  | [], _, p => some p
  | f :: fields, given, p =>
    match given f.name with
    | none => assign fields given p
    | some v => (f.decode v).bind fun x => assign fields given (f.replace x p)

theorem assign_congr {given given' : String → Option Json}
    (h : ∀ f ∈ fields, given f.name = given' f.name) (p : P) :
    assign fields given p = assign fields given' p := by
  induction fields generalizing p with
  | nil => rfl
  | cons f fields ih =>
      have hrest := ih fun g hg => h g (List.mem_cons_of_mem f hg)
      simp only [assign, h f List.mem_cons_self, hrest]

/-- A field that is given as well might have been replaced at the start. -/
theorem assign_insert (hnodup : (fields.map (·.name)).Nodup)
    (hindependent : fields.Pairwise RecordField.Independent) {f : RecordField P} (hf : f ∈ fields)
    {given given' : String → Option Json} {v : Json} (hnone : given f.name = none)
    (hsome : given' f.name = some v) (hother : ∀ name, name ≠ f.name → given' name = given name)
    (p : P) : assign fields given' p =
      (f.decode v).bind fun x => assign fields given (f.replace x p) := by
  induction fields generalizing p with
  | nil => cases hf
  | cons g fields ih =>
      rw [List.map_cons, List.nodup_cons] at hnodup
      rw [List.pairwise_cons] at hindependent
      obtain ⟨hnew, hnodup⟩ := hnodup
      obtain ⟨hfirst, hindependent⟩ := hindependent
      cases List.mem_cons.mp hf with
      | inl heq =>
          subst heq
          have hrest : ∀ p, assign fields given' p = assign fields given p := by
            refine assign_congr fun h hh => hother h.name fun hname => hnew ?_
            rw [← hname]
            exact List.mem_map_of_mem hh
          simp only [assign, hsome, hnone, hrest]
      | inr hmem =>
          have hname : g.name ≠ f.name := fun heq => hnew (heq ▸ List.mem_map_of_mem hmem)
          have hrest := ih hnodup hindependent hmem
          simp only [assign, hother g.name hname]
          cases given g.name with
          | none => exact hrest p
          | some w =>
              simp only [hrest, hfirst f hmem _ _ p]
              exact Option.bind_comm _ _

theorem assign_eq_some_iff (hnodup : (fields.map (·.name)).Nodup)
    (hindependent : fields.Pairwise RecordField.Independent) (hnamed : Named ms)
    (honce : ∀ f ∈ fields, timesListed f.name ms ≤ 1) :
    assign fields (valueOf? ms) p = some q ↔ Replaces fields p ms q := by
  induction ms generalizing p with
  | nil =>
      have hnothing : ∀ fields : List (RecordField P), assign fields (valueOf? []) p = some p := by
        intro fields
        induction fields with
        | nil => rfl
        | cons f fields ih => exact ih
      rw [hnothing, Option.some.injEq]
      constructor
      · rintro rfl
        exact .nil p
      · rintro ⟨⟩
        rfl
  | cons m ms ih =>
      obtain ⟨t, v⟩ := m
      obtain ⟨hname, hnamed⟩ := List.forall_mem_cons.mp hnamed
      obtain ⟨name, hname⟩ := Option.isSome_iff_exists.mp hname
      dsimp only at hname
      have honce' : ∀ f ∈ fields, timesListed f.name ms ≤ 1 := by
        intro f hf
        refine Nat.le_trans ?_ (honce f hf)
        rw [timesListed_cons]
        split <;> omega
      by_cases hknown : ∃ f ∈ fields, f.name = name
      · obtain ⟨f, hf, rfl⟩ := hknown
        have hcount := honce f hf
        rw [timesListed_cons, if_pos hname] at hcount
        have hlater : valueOf? ms f.name = none := valueOf?_eq_none_iff.mpr (by omega)
        rw [assign_insert hnodup hindependent hf hlater (valueOf?_cons_of_eq hname)
          (fun _ => valueOf?_cons_of_ne hname), Option.bind_eq_some_iff,
          replaces_known_iff hnodup hf hname]
        simp only [ih hnamed honce']
      · have hnew : ∀ f ∈ fields, f.name ≠ name := fun f hf heq => hknown ⟨f, hf, heq⟩
        rw [assign_congr fun f hf => valueOf?_cons_of_ne hname (hnew f hf), ih hnamed honce',
          replaces_unknown_iff hname hnew]

/-- What a decoder computes that looks its fields up: as `assign`, but refused where a field is
missing that is needed. -/
def decodeFields : List (RecordField P) → (String → Option Json) → P → Option P
  | [], _, p => some p
  | f :: fields, given, p =>
    (f.decodeOr p (given f.name)).bind fun x => decodeFields fields given (f.replace x p)

theorem decodeFields_eq_some_iff {given : String → Option Json} :
    decodeFields fields given p = some q ↔
      (∀ f ∈ fields, f.needed = true → given f.name ≠ none) ∧ assign fields given p = some q := by
  induction fields generalizing p with
  | nil =>
      rw [decodeFields, assign]
      exact (and_iff_right (List.forall_mem_nil _)).symm
  | cons f fields ih =>
      rw [decodeFields, assign, List.forall_mem_cons]
      cases given f.name with
      | none =>
          rw [f.decodeOr_none]
          cases f.needed with
          | true => simp
          | false => simpa [f.replace_content] using ih
      | some v =>
          simp only [f.decodeOr_some, Option.bind_eq_some_iff, ih, ne_eq, reduceCtorEq,
            not_false_eq_true, implies_true, true_and]
          constructor
          · rintro ⟨x, hx, hneeded, hassign⟩
            exact ⟨hneeded, x, hx, hassign⟩
          · rintro ⟨hneeded, x, hx, hassign⟩
            exact ⟨x, hx, hneeded, hassign⟩

/-- The decoder looks these fields up and decodes them, any missing ones taken from the start. -/
structure DecodesRecord (fields : List (RecordField P)) (start : P) (ofJson? : Json → Option P) :
    Prop where
  nodup : (fields.map (·.name)).Nodup
  independent : fields.Pairwise RecordField.Independent
  looks_up : ∃ decode, (∀ v, ofJson? v = (v.fields? (fields.map (·.name))).bind decode) ∧
    ∀ given, decode ((fields.map (·.name)).map given) = decodeFields fields given start

variable {start : P} {ofJson? : Json → Option P}

theorem DecodesRecord.refuses (h : DecodesRecord fields start ofJson?) {v : Json}
    (hv : v.fields? (fields.map (·.name)) = none) : ofJson? v = none := by
  obtain ⟨decode, hbind, -⟩ := h.looks_up
  rw [hbind, hv]
  rfl

theorem DecodesRecord.decodes (h : DecodesRecord fields start ofJson?) {v : Json}
    {given : String → Option Json}
    (hv : v.fields? (fields.map (·.name)) = some ((fields.map (·.name)).map given)) :
    ofJson? v = decodeFields fields given start := by
  obtain ⟨decode, hbind, hgiven⟩ := h.looks_up
  rw [hbind, hv]
  exact hgiven given

theorem DecodesRecord.object_repeated (h : DecodesRecord fields start ofJson?) {f : RecordField P}
    (hf : f ∈ fields) (htwice : 1 < timesListed f.name ms) : ofJson? (.object ms) = none :=
  h.refuses (fields?_object_of_repeated (List.mem_map_of_mem hf) htwice)

theorem DecodesRecord.object_unnamed (h : DecodesRecord fields start ofJson?)
    (hunnamed : ¬ Named ms) : ofJson? (.object ms) = none :=
  h.refuses (fields?_object_of_unnamed hunnamed)

theorem DecodesRecord.object_eq (h : DecodesRecord fields start ofJson?) (hnamed : Named ms)
    (honce : ∀ f ∈ fields, timesListed f.name ms ≤ 1) :
    ofJson? (.object ms) = decodeFields fields (valueOf? ms) start := by
  refine h.decodes (fields?_object hnamed ?_)
  intro name hname
  obtain ⟨f, hf, rfl⟩ := List.mem_map.mp hname
  exact honce f hf

theorem DecodesRecord.object_eq_some_iff (h : DecodesRecord fields start ofJson?) :
    ofJson? (.object ms) = some q ↔ ListsOnce fields ms ∧ Replaces fields start ms q := by
  by_cases honce : ∀ f ∈ fields, timesListed f.name ms ≤ 1
  · by_cases hnamed : Named ms
    · rw [h.object_eq hnamed honce, decodeFields_eq_some_iff,
        assign_eq_some_iff h.nodup h.independent hnamed honce]
      refine and_congr_left fun _ => forall₂_congr fun f hf => ?_
      rw [Ne, valueOf?_eq_none_iff]
      have hle := honce f hf
      constructor
      · intro hgiven
        exact ⟨hle, fun hneeded => by have := hgiven hneeded; omega⟩
      · intro hlisted hneeded
        rw [hlisted.2 hneeded]
        exact Nat.one_ne_zero
    · rw [h.object_unnamed hnamed]
      refine iff_of_false (fun heq => ?_) fun hboth => hnamed hboth.2.named
      cases heq
  · obtain ⟨f, hf, htwice⟩ := exists_repeated RecordField.name honce
    rw [h.object_repeated hf htwice]
    refine iff_of_false (fun heq => ?_) fun hboth => ?_
    · cases heq
    · exact absurd (hboth.1 f hf).1 (Nat.not_le_of_lt htwice)

theorem DecodesRecord.isSome_object_iff (h : DecodesRecord fields start ofJson?) :
    (ofJson? (.object ms)).isSome = true ↔ ListsOnce fields ms ∧ WellTyped fields ms := by
  rw [Option.isSome_iff_exists]
  simp only [h.object_eq_some_iff]
  constructor
  · rintro ⟨q, hlists, hreplaces⟩
    exact ⟨hlists, hreplaces.wellTyped h.nodup⟩
  · rintro ⟨hlists, htyped⟩
    obtain ⟨q, hreplaces⟩ := htyped.exists_replaces
    exact ⟨q, hlists, hreplaces⟩

/-- A member whose value is not decoded spoils the record. -/
theorem DecodesRecord.object_of_member (h : DecodesRecord fields start ofJson?)
    {f : RecordField P} (hf : f ∈ fields) {t : JsonText} {v : Json} (hmem : (t, v) ∈ ms)
    (hname : t.toString? = some f.name) (hvalue : f.decode v = none) :
    ofJson? (.object ms) = none := by
  rw [← Option.not_isSome_iff_eq_none, h.isSome_object_iff]
  rintro ⟨-, htyped⟩
  obtain ⟨name, hname', hdecode⟩ := htyped _ hmem
  rw [hname, Option.some.injEq] at hname'
  have hsome := hdecode f hf hname'
  rw [hvalue] at hsome
  cases hsome

/-- A row of values is given by name if the names are different. -/
theorem exists_given {names : List String} (hnodup : names.Nodup) {values : List (Option Json)}
    (hlength : values.length = names.length) : ∃ given, values = names.map given := by
  induction names generalizing values with
  | nil => exact ⟨fun _ => none, List.length_eq_zero_iff.mp hlength⟩
  | cons name names ih =>
      obtain ⟨hnew, hnodup⟩ := List.nodup_cons.mp hnodup
      cases values with
      | nil => cases hlength
      | cons value values =>
          obtain ⟨given, rfl⟩ := ih hnodup (Nat.succ.inj hlength)
          refine ⟨fun other => if other = name then value else given other, ?_⟩
          rw [List.map_cons, if_pos rfl]
          refine congrArg _ (List.map_congr_left fun other hother => ?_)
          rw [if_neg]
          rintro rfl
          exact hnew hother

theorem exists_given_of_fields? {names : List String} (hnodup : names.Nodup) {v : Json}
    {values : List (Option Json)} (h : v.fields? names = some values) :
    ∃ given, values = names.map given := by
  cases v with
  | object ms =>
      by_cases honce : ∀ name ∈ names, timesListed name ms ≤ 1
      · by_cases hnamed : Named ms
        · rw [fields?_object hnamed honce] at h
          exact ⟨valueOf? ms, (Option.some.inj h).symm⟩
        · rw [fields?_object_of_unnamed hnamed] at h
          cases h
      · obtain ⟨name, hname, htwice⟩ := exists_repeated id honce
        rw [fields?_object_of_repeated hname htwice] at h
        cases h
  | array items =>
      rw [fields?] at h
      split at h
      · rename_i hle
        cases h
        refine exists_given hnodup ?_
        rw [List.length_append, List.length_map, List.length_replicate]
        exact Nat.add_sub_of_le hle
      · cases h
  | _ => cases h

theorem decodeFields_invariant {Inv : P → Prop} {given : String → Option Json}
    (hkeeps : ∀ f ∈ fields, ∀ v x, f.decode v = some x → ∀ p, Inv p → Inv (f.replace x p))
    (hp : Inv p) (h : decodeFields fields given p = some q) : Inv q := by
  induction fields generalizing p with
  | nil =>
      cases h
      exact hp
  | cons f fields ih =>
      rw [decodeFields, Option.bind_eq_some_iff] at h
      obtain ⟨x, hx, hrest⟩ := h
      have hkept : Inv (f.replace x p) := by
        cases hgiven : given f.name with
        | none =>
            rw [hgiven, f.decodeOr_none] at hx
            split at hx
            · cases hx
            · cases hx
              rw [f.replace_content]
              exact hp
        | some v =>
            rw [hgiven, f.decodeOr_some] at hx
            exact hkeeps f List.mem_cons_self v x hx p hp
      exact ih (fun g hg => hkeeps g (List.mem_cons_of_mem f hg)) hkept hrest

/-- What is true of the start, and stays true when a field is replaced by a decoded content, is true
of whatever is read, be it from an object or from an array. -/
theorem DecodesRecord.invariant (h : DecodesRecord fields start ofJson?) {Inv : P → Prop}
    (hstart : Inv start)
    (hkeeps : ∀ f ∈ fields, ∀ v x, f.decode v = some x → ∀ p, Inv p → Inv (f.replace x p))
    {v : Json} (hv : ofJson? v = some q) : Inv q := by
  cases hfields : v.fields? (fields.map (·.name)) with
  | none =>
      rw [h.refuses hfields] at hv
      cases hv
  | some values =>
      obtain ⟨given, rfl⟩ := exists_given_of_fields? h.nodup hfields
      rw [h.decodes hfields] at hv
      exact decodeFields_invariant hkeeps hstart hv

theorem decodeFields_of_given {given : String → Option Json}
    (h : ∀ f ∈ fields, ∃ v, given f.name = some v ∧ f.decode v = some (f.content p)) :
    decodeFields fields given q = some (fields.foldl (fun q f => f.replace (f.content p) q) q) := by
  induction fields generalizing q with
  | nil => rfl
  | cons f fields ih =>
      obtain ⟨v, hgiven, hdecode⟩ := h f List.mem_cons_self
      rw [decodeFields, hgiven, f.decodeOr_some, hdecode, Option.bind_some, List.foldl_cons]
      exact ih fun g hg => h g (List.mem_cons_of_mem f hg)

/-- A record that lists the encoded contents of all its fields is read as itself. -/
theorem DecodesRecord.ofJson?_record (h : DecodesRecord fields start ofJson?)
    (hfields : ∀ f ∈ fields, f.decode (f.encode (f.content p)) = some (f.content p))
    (hall : fields.foldl (fun q f => f.replace (f.content p) q) start = p) :
    ofJson? (record (fields.map fun f => (f.name, f.encode (f.content p)))) = some p := by
  let members := fields.map fun f => (f.name, f.encode (f.content p))
  have hnames : members.map (·.1) = fields.map (·.name) := List.map_map
  have hread := fields?_record (hnames ▸ h.nodup)
  rw [hnames] at hread
  obtain ⟨given, hgiven⟩ := exists_given_of_fields? h.nodup hread
  have heach := hgiven
  rw [List.map_map, List.map_map] at heach
  rw [h.decodes (hread.trans (congrArg some hgiven)), decodeFields_of_given, hall]
  intro f hf
  exact ⟨_, (List.map_inj_left.mp heach f hf).symm, hfields f hf⟩

end Fields
end FrequencySampling.Json
