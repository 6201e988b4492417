import FrequencySampling.Codec.Filter
import FrequencySampling.Proofs.Json.Record

/-!
The order of members. A decoder of records respects every reordering of the members of an object and
of the objects inside it, because a look-up finds at most one value for a name, wherever it stands.
-/

namespace FrequencySampling.Json

/-- The same value up to the order of the members of its objects. -/
inductive Reordered : Json → Json → Prop
  | refl (v : Json) : Reordered v v
  | trans {u v w : Json} (huv : Reordered u v) (hvw : Reordered v w) : Reordered u w
  | members {ms ms' : Members} (h : ms.Perm ms') : Reordered (.object ms) (.object ms')
  | inside {v w : Json} (front back : Members) (t : JsonText) (h : Reordered v w) :
      Reordered (.object (front ++ (t, v) :: back)) (.object (front ++ (t, w) :: back))

/-- What is decoded does not depend on the order of members. -/
def Respects {β : Type} (decode : Json → Option β) : Prop :=
  ∀ v w, Reordered v w → decode v = decode w

theorem Reordered.eq_or_objects {v w : Json} (h : Reordered v w) :
    v = w ∨ ∃ ms ms', v = .object ms ∧ w = .object ms' := by
  induction h with
  | refl v => exact .inl rfl
  | trans _ _ ihuv ihvw =>
      obtain rfl | ⟨ms, ms', rfl, rfl⟩ := ihuv
      · exact ihvw
      · obtain rfl | ⟨_, ms'', -, rfl⟩ := ihvw
        · exact .inr ⟨ms, ms', rfl, rfl⟩
        · exact .inr ⟨ms, ms'', rfl, rfl⟩
  | @members ms ms' _ => exact .inr ⟨ms, ms', rfl, rfl⟩
  | inside front back t _ _ => exact .inr ⟨_, _, rfl, rfl⟩

section Values

variable {β : Type} {decode : Json → Option β}

/-- A decoder that has no use for objects. -/
theorem respects_of_object (h : ∀ ms, decode (.object ms) = none) : Respects decode := by
  intro v w hvw
  obtain rfl | ⟨ms, ms', rfl, rfl⟩ := hvw.eq_or_objects
  · rfl
  · rw [h ms, h ms']

theorem respects_toNat? : Respects toNat? :=
  respects_of_object fun _ => rfl

theorem respects_toNumber? {α : Type} [StoredNumber α] : Respects (toNumber? (α := α)) :=
  respects_of_object fun _ => rfl

theorem respects_toBool? : Respects toBool? :=
  respects_of_object fun _ => rfl

theorem Respects.nullable (h : Respects decode) : Respects (nullable decode) := by
  intro v w hvw
  obtain rfl | ⟨ms, ms', rfl, rfl⟩ := hvw.eq_or_objects
  · rfl
  · exact congrArg (Option.map some) (h _ _ hvw)

theorem choice?_of_length_ne_one {choices : List (String × β)} {ms : Members}
    (h : ms.length ≠ 1) : choice? choices (.object ms) = none := by
  cases ms with
  | nil => rfl
  | cons m ms =>
      cases ms with
      | nil => exact absurd rfl h
      | cons n ms =>
          obtain ⟨t, v⟩ := m
          cases v <;> rfl

/-- The only object that names a choice has one member, which is no object itself. -/
theorem respects_choice? {choices : List (String × β)} : Respects (choice? choices) := by
  intro v w hvw
  induction hvw with
  | refl v => rfl
  | trans _ _ ihuv ihvw => exact ihuv.trans ihvw
  | @members ms ms' h =>
      by_cases hone : ms.length = 1
      · obtain ⟨m, rfl⟩ := List.length_eq_one_iff.mp hone
        rw [List.perm_singleton.mp h.symm]
      · rw [choice?_of_length_ne_one hone, choice?_of_length_ne_one (h.length_eq ▸ hone)]
  | @inside v w front back t h _ =>
      by_cases hone : (front ++ (t, v) :: back).length = 1
      · have hshort : front.length = 0 ∧ back.length = 0 := by
          rw [List.length_append, List.length_cons] at hone
          omega
        rw [List.length_eq_zero_iff, List.length_eq_zero_iff] at hshort
        obtain ⟨rfl, rfl⟩ := hshort
        obtain rfl | ⟨ms, ms', rfl, rfl⟩ := h.eq_or_objects <;> rfl
      · have hone' : (front ++ (t, w) :: back).length ≠ 1 := by
          rw [List.length_append, List.length_cons] at hone ⊢
          exact hone
        rw [choice?_of_length_ne_one hone, choice?_of_length_ne_one hone']

end Values

section Records

variable {P : Type} {fields : List (RecordField P)} {start : P} {ofJson? : Json → Option P}
  {ms ms' : Members}

theorem decodeFields_congr {given given' : String → Option Json}
    (h : ∀ f ∈ fields, (given f.name).map f.decode = (given' f.name).map f.decode) (p : P) :
    decodeFields fields given p = decodeFields fields given' p := by
  induction fields generalizing p with
  | nil => rfl
  | cons f fields ih =>
      have hrest := ih fun g hg => h g (List.mem_cons_of_mem f hg)
      have hfirst : f.decodeOr p (given f.name) = f.decodeOr p (given' f.name) := by
        have hmap := h f List.mem_cons_self
        cases hgiven : given f.name with
        | none =>
            rw [hgiven, Option.map_none, eq_comm, Option.map_eq_none_iff] at hmap
            rw [hmap]
        | some v =>
            rw [hgiven, Option.map_some, eq_comm, Option.map_eq_some_iff] at hmap
            obtain ⟨w, hw, hdecode⟩ := hmap
            rw [hw, f.decodeOr_some, f.decodeOr_some, hdecode]
      simp only [decodeFields, hfirst, hrest]

/-- Two objects are decoded alike if every field is listed as often in one as in the other and its
values are decoded alike. -/
theorem DecodesRecord.object_congr (h : DecodesRecord fields start ofJson?)
    (hnamed : Named ms ↔ Named ms')
    (hlisted : ∀ f ∈ fields, timesListed f.name ms = timesListed f.name ms')
    (hvalues : ∀ f ∈ fields, timesListed f.name ms ≤ 1 →
      (valueOf? ms f.name).map f.decode = (valueOf? ms' f.name).map f.decode) :
    ofJson? (.object ms) = ofJson? (.object ms') := by
  by_cases honce : ∀ f ∈ fields, timesListed f.name ms ≤ 1
  · by_cases hms : Named ms
    · rw [h.object_eq hms honce,
        h.object_eq (hnamed.mp hms) fun f hf => hlisted f hf ▸ honce f hf]
      exact decodeFields_congr (fun f hf => hvalues f hf (honce f hf)) start
    · rw [h.object_unnamed hms, h.object_unnamed (fun hms' => hms (hnamed.mpr hms'))]
  · obtain ⟨f, hf, htwice⟩ := exists_repeated RecordField.name honce
    rw [h.object_repeated hf htwice, h.object_repeated hf (hlisted f hf ▸ htwice)]

theorem valuesOf_perm (h : ms.Perm ms') (name : String) :
    (valuesOf name ms).Perm (valuesOf name ms') :=
  (h.filter _).map _

theorem valuesOf_append (ms ms' : Members) (name : String) :
    valuesOf name (ms ++ ms') = valuesOf name ms ++ valuesOf name ms' := by
  unfold valuesOf
  rw [List.filter_append, List.map_append]

theorem valueOf?_perm {name : String} (h : ms.Perm ms') (honce : timesListed name ms ≤ 1) :
    valueOf? ms name = valueOf? ms' name := by
  have hperm := valuesOf_perm h name
  unfold timesListed at honce
  unfold valueOf?
  match hvalues : valuesOf name ms with
  | [] =>
      rw [hvalues, List.nil_perm] at hperm
      rw [hperm]
  | [v] =>
      rw [hvalues, List.singleton_perm] at hperm
      rw [hperm]
  | v :: w :: vs =>
      rw [hvalues, List.length_cons, List.length_cons] at honce
      omega

/-- A member is listed under its name, whatever its value. -/
theorem map_valuesOf_inside {β : Type} {v w : Json} {f : Json → β} (hvw : f v = f w)
    (front back : Members) (t : JsonText) (name : String) :
    (valuesOf name (front ++ (t, v) :: back)).map f =
      (valuesOf name (front ++ (t, w) :: back)).map f := by
  rw [valuesOf_append, valuesOf_append, valuesOf_cons, valuesOf_cons]
  split <;> simp [hvw]

theorem timesListed_inside (v w : Json) (front back : Members) (t : JsonText) (name : String) :
    timesListed name (front ++ (t, v) :: back) = timesListed name (front ++ (t, w) :: back) := by
  unfold timesListed
  rw [valuesOf_append, valuesOf_append, valuesOf_cons, valuesOf_cons]
  split <;> simp

theorem DecodesRecord.respects (h : DecodesRecord fields start ofJson?)
    (hfields : ∀ f ∈ fields, Respects f.decode) : Respects ofJson? := by
  intro v w hvw
  induction hvw with
  | refl v => rfl
  | trans _ _ ihuv ihvw => exact ihuv.trans ihvw
  | @members ms ms' hperm =>
      refine h.object_congr ?_ ?_ ?_
      · exact forall_congr' fun m => imp_congr_left hperm.mem_iff
      · exact fun f _ => (valuesOf_perm hperm f.name).length_eq
      · exact fun f _ honce => congrArg _ (valueOf?_perm hperm honce)
  | @inside v w front back t hvw _ =>
      refine h.object_congr ?_ ?_ ?_
      · unfold Named
        simp only [List.forall_mem_append, List.forall_mem_cons]
      · exact fun f _ => timesListed_inside v w front back t f.name
      · intro f hf _
        have hvalues := map_valuesOf_inside (hfields f hf v w hvw) front back t f.name
        rw [valueOf?, valueOf?, ← List.head?_map, ← List.head?_map, hvalues]

end Records
end FrequencySampling.Json
