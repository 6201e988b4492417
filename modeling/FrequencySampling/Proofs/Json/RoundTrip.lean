import FrequencySampling.Proofs.Json.Numeral
import FrequencySampling.Proofs.Json.Text

/-!
Every value whose numerals are well formed is read back from both of its written forms. The two
differ in their blanks only, so they are instances of one form with any blanks at the places where
the format allows them. The bound that the reader sets on its calls is never reached: a value takes
at most two calls for each of its characters.
-/

namespace FrequencySampling.Json

/-- All numerals in the value are well formed. -/
inductive WellFormed : Json → Prop
  | null : WellFormed .null
  | bool (b : Bool) : WellFormed (.bool b)
  | number {n : Numeral} (h : n.WellFormed) : WellFormed (.number n)
  | string (t : JsonText) : WellFormed (.string t)
  | array {vs : List Json} (h : ∀ v ∈ vs, WellFormed v) : WellFormed (.array vs)
  | object {ms : List (JsonText × Json)} (h : ∀ m ∈ ms, WellFormed m.2) : WellFormed (.object ms)

theorem wellFormed_nat (n : Nat) : (nat n).WellFormed :=
  .number (Numeral.wellFormed_ofNat n)

theorem wellFormed_record {members : List (String × Json)} (h : ∀ m ∈ members, m.2.WellFormed) :
    (record members).WellFormed := by
  refine .object fun entry hentry => ?_
  obtain ⟨m, hm, rfl⟩ := List.mem_map.mp hentry
  exact h m hm

def Blank (cs : List Char) : Prop :=
  ∀ c ∈ cs, isBlank c = true

/-- Where a written form has its blanks: before an item or a closing bracket, by the number of
brackets around it, and after a colon. -/
structure Spacing where
  start : Nat → List Char
  afterColon : List Char
  blank_start : ∀ level, Blank (start level)
  blank_afterColon : Blank afterColon

namespace Spacing

def oneLine : Spacing where
  start _ := []
  afterColon := []
  blank_start _ := List.forall_mem_nil _
  blank_afterColon := List.forall_mem_nil _

def indented : Spacing where
  start := lineStart
  afterColon := [' ']
  blank_start level := by
    intro c hc
    rcases List.mem_cons.mp hc with rfl | hc
    · rfl
    · rw [List.eq_of_mem_replicate hc]
      rfl
  blank_afterColon := by
    intro c hc
    rw [List.mem_singleton.mp hc]
    rfl

mutual

/-- The written form of a value inside the given number of brackets. -/
def chars (sp : Spacing) (level : Nat) : Json → List Char
  | .null => "null".toList
  | .bool true => "true".toList
  | .bool false => "false".toList
  | .number n => n.toChars
  | .string t => textChars t
  | .array [] => ['[', ']']
  | .array (v :: vs) =>
    '[' :: (sp.start (level + 1) ++ (sp.chars (level + 1) v ++ sp.itemChars level vs))
  | .object [] => ['{', '}']
  | .object (m :: ms) =>
    '{' :: (sp.start (level + 1) ++ (textChars m.1 ++
      ':' :: (sp.afterColon ++ (sp.chars (level + 1) m.2 ++ sp.memberChars level ms))))

/-- The items after the first, with the closing bracket. -/
def itemChars (sp : Spacing) (level : Nat) : List Json → List Char
  | [] => sp.start level ++ [']']
  | v :: vs => ',' :: (sp.start (level + 1) ++ (sp.chars (level + 1) v ++ sp.itemChars level vs))

def memberChars (sp : Spacing) (level : Nat) : List (JsonText × Json) → List Char
  | [] => sp.start level ++ ['}']
  | m :: ms => ',' :: (sp.start (level + 1) ++ (textChars m.1 ++
      ':' :: (sp.afterColon ++ (sp.chars (level + 1) m.2 ++ sp.memberChars level ms))))

end

mutual

theorem chars_oneLine (level : Nat) : (v : Json) → oneLine.chars level v = compactChars v
  | .null | .bool true | .bool false | .number _ | .string _ | .array [] | .object [] => by
      simp only [chars, compactChars]
  | .array (v :: vs) => by
      simp only [chars, compactChars, chars_oneLine, itemChars_oneLine]
      rfl
  | .object (m :: ms) => by
      simp only [chars, compactChars, chars_oneLine, memberChars_oneLine]
      simp [oneLine]

theorem itemChars_oneLine (level : Nat) :
    (vs : List Json) → oneLine.itemChars level vs = compactItems vs
  | [] => by
      simp only [itemChars, compactItems]
      rfl
  | v :: vs => by
      simp only [itemChars, compactItems, chars_oneLine, itemChars_oneLine]
      rfl

theorem memberChars_oneLine (level : Nat) :
    (ms : List (JsonText × Json)) → oneLine.memberChars level ms = compactMembers ms
  | [] => by
      simp only [memberChars, compactMembers]
      rfl
  | m :: ms => by
      simp only [memberChars, compactMembers, chars_oneLine, memberChars_oneLine]
      simp [oneLine]

end

mutual

theorem chars_indented (level : Nat) : (v : Json) → indented.chars level v = prettyChars level v
  | .null | .bool true | .bool false | .number _ | .string _ | .array [] | .object [] => by
      simp only [chars, prettyChars]
  | .array (v :: vs) => by
      simp only [chars, prettyChars, chars_indented, itemChars_indented]
      simp [indented]
  | .object (m :: ms) => by
      simp only [chars, prettyChars, chars_indented, memberChars_indented]
      simp [indented]

theorem itemChars_indented (level : Nat) :
    (vs : List Json) → indented.itemChars level vs = prettyItems level vs
  | [] => by
      simp only [itemChars, prettyItems]
      rfl
  | v :: vs => by
      simp only [itemChars, prettyItems, chars_indented, itemChars_indented]
      simp [indented]

theorem memberChars_indented (level : Nat) :
    (ms : List (JsonText × Json)) → indented.memberChars level ms = prettyMembers level ms
  | [] => by
      simp only [memberChars, prettyMembers]
      rfl
  | m :: ms => by
      simp only [memberChars, prettyMembers, chars_indented, memberChars_indented]
      simp [indented]

end

end Spacing

section Blanks

variable {bs cs : List Char}

theorem skipBlanks_append (hbs : Blank bs) (cs : List Char) :
    skipBlanks (bs ++ cs) = skipBlanks cs := by
  induction bs with
  | nil => rfl
  | cons b bs ih =>
      have hb : isBlank b = true := hbs b List.mem_cons_self
      rw [List.cons_append, skipBlanks, List.dropWhile_cons_of_pos hb]
      exact ih fun c hc => hbs c (List.mem_cons_of_mem b hc)

theorem skipBlanks_cons {c : Char} (hc : isBlank c = false) (cs : List Char) :
    skipBlanks (c :: cs) = c :: cs :=
  List.dropWhile_cons_of_neg (by simp [hc])

theorem value_append (hbs : Blank bs) (fuel : Nat) (cs : List Char) :
    value fuel (bs ++ cs) = value fuel cs := by
  cases fuel with
  | zero => simp only [value]
  | succ fuel => simp only [value, skipBlanks_append hbs]

theorem items_append (hbs : Blank bs) (fuel : Nat) (cs : List Char) :
    items fuel (bs ++ cs) = items fuel cs := by
  cases fuel with
  | zero => simp only [items]
  | succ fuel => simp only [items, value_append hbs]

theorem memberName_append (hbs : Blank bs) (cs : List Char) :
    memberName (bs ++ cs) = memberName cs := by
  simp only [memberName, skipBlanks_append hbs]

theorem members_append (hbs : Blank bs) (fuel : Nat) (cs : List Char) :
    members fuel (bs ++ cs) = members fuel cs := by
  cases fuel with
  | zero => simp only [members]
  | succ fuel => simp only [members, memberName_append hbs]

end Blanks

section Reading

variable {fuel : Nat} {cs rest : List Char}

theorem isBlank_of_beginsNumeral {c : Char} (hc : BeginsNumeral c) : isBlank c = false := by
  obtain rfl | ⟨d, rfl⟩ := hc
  · rfl
  · revert d
    decide

theorem value_numeral {c : Char} (hc : BeginsNumeral c) (fuel : Nat) (cs : List Char) :
    value (fuel + 1) (c :: cs) =
      (numeral (c :: cs)).map fun read => (.number read.1, read.2) := by
  have hother : c ∉ ['n', 't', 'f', '"', '[', '{'] := by
    obtain rfl | ⟨d, rfl⟩ := hc
    · decide
    · revert d
      decide
  rw [value, skipBlanks_cons (isBlank_of_beginsNumeral hc)]
  split
  all_goals first
    | rfl
    | exact absurd ((List.cons.inj ‹_›).1 ▸ by simp) hother

theorem memberName_textChars (t : JsonText) (rest : List Char) :
    memberName (textChars t ++ ':' :: rest) = some (t, rest) := by
  rw [memberName, textChars, List.cons_append, List.cons_append, skipBlanks_cons rfl]
  simp only [List.append_assoc, List.cons_append, List.nil_append, stringBody_textChars,
    Option.bind_eq_bind, Option.bind_some, skipBlanks_cons (c := ':') rfl]
  rfl

theorem value_array {c : Char} (hblank : isBlank c = false) (hc : c ≠ ']') {bs : List Char}
    (hbs : Blank bs) (fuel : Nat) (cs : List Char) :
    value (fuel + 1) ('[' :: (bs ++ c :: cs)) =
      (items fuel (c :: cs)).map fun read => (.array read.1, read.2) := by
  rw [value, skipBlanks_cons rfl]
  simp only [skipBlanks_append hbs, skipBlanks_cons hblank]
  split
  · rename_i heq
    exact absurd (List.cons.inj heq).1 hc
  · rfl

theorem value_object {c : Char} (hblank : isBlank c = false) (hc : c ≠ '}') {bs : List Char}
    (hbs : Blank bs) (fuel : Nat) (cs : List Char) :
    value (fuel + 1) ('{' :: (bs ++ c :: cs)) =
      (members fuel (c :: cs)).map fun read => (.object read.1, read.2) := by
  rw [value, skipBlanks_cons rfl]
  simp only [skipBlanks_append hbs, skipBlanks_cons hblank]
  split
  · rename_i heq
    exact absurd (List.cons.inj heq).1 hc
  · rfl

end Reading

section Forms

variable {sp : Spacing} {level : Nat} {v : Json} {fuel : Nat} {rest : List Char}

/-- The written form of the value is read back as the value, with enough calls. -/
def Spacing.Reads (sp : Spacing) (v : Json) : Prop :=
  ∀ level fuel rest, EndsNumeral rest → 2 * (sp.chars level v).length ≤ fuel →
    value fuel (sp.chars level v ++ rest) = some (v, rest)

theorem Spacing.exists_head_chars (sp : Spacing) (level : Nat) (hv : v.WellFormed) :
    ∃ c cs, sp.chars level v = c :: cs ∧ isBlank c = false ∧ c ≠ ']' := by
  cases hv with
  | null => exact ⟨'n', _, by simp only [chars]; rfl, rfl, by decide⟩
  | bool b =>
      cases b with
      | true => exact ⟨'t', _, by simp only [chars]; rfl, rfl, by decide⟩
      | false => exact ⟨'f', _, by simp only [chars]; rfl, rfl, by decide⟩
  | number hn =>
      obtain ⟨c, cs, hcs, hc⟩ := exists_head_toChars hn
      have hdigit : ∀ d, Digits.toChar d ≠ ']' := by decide
      refine ⟨c, cs, by simp only [chars, hcs], isBlank_of_beginsNumeral hc, ?_⟩
      obtain rfl | ⟨d, rfl⟩ := hc
      · decide
      · exact hdigit d
  | string t => exact ⟨'"', _, by simp only [chars]; rfl, rfl, by decide⟩
  | @array vs _ =>
      cases vs with
      | nil => exact ⟨'[', _, by simp only [chars]; rfl, rfl, by decide⟩
      | cons v vs => exact ⟨'[', _, by simp only [chars]; rfl, rfl, by decide⟩
  | @object ms _ =>
      cases ms with
      | nil => exact ⟨'{', _, by simp only [chars]; rfl, rfl, by decide⟩
      | cons m ms => exact ⟨'{', _, by simp only [chars]; rfl, rfl, by decide⟩

theorem endsNumeral_of_blank {bs : List Char} (hbs : Blank bs) (hrest : EndsNumeral rest) :
    EndsNumeral (bs ++ rest) := by
  cases bs with
  | nil => exact hrest
  | cons b bs =>
      have hb := hbs b List.mem_cons_self
      simp only [isBlank, Bool.or_eq_true, beq_iff_eq] at hb
      obtain ((rfl | rfl) | rfl) | rfl := hb
      all_goals exact ⟨by decide, by decide, by decide, by decide⟩

theorem Spacing.endsNumeral_itemChars (sp : Spacing) (level : Nat) (vs : List Json)
    (rest : List Char) : EndsNumeral (sp.itemChars level vs ++ rest) := by
  cases vs with
  | nil =>
      rw [itemChars, List.append_assoc]
      exact endsNumeral_of_blank (sp.blank_start level) ⟨by decide, by decide, by decide, by decide⟩
  | cons v vs =>
      rw [itemChars]
      exact ⟨by decide, by decide, by decide, by decide⟩

theorem Spacing.endsNumeral_memberChars (sp : Spacing) (level : Nat)
    (ms : List (JsonText × Json)) (rest : List Char) :
    EndsNumeral (sp.memberChars level ms ++ rest) := by
  cases ms with
  | nil =>
      rw [memberChars, List.append_assoc]
      exact endsNumeral_of_blank (sp.blank_start level) ⟨by decide, by decide, by decide, by decide⟩
  | cons m ms =>
      rw [memberChars]
      exact ⟨by decide, by decide, by decide, by decide⟩

theorem Spacing.items_chars {vs : List Json} (hv : sp.Reads v) (hvs : ∀ w ∈ vs, sp.Reads w)
    (level fuel : Nat) (rest : List Char)
    (hfuel : 2 * (sp.chars (level + 1) v ++ sp.itemChars level vs).length + 1 ≤ fuel) :
    items fuel (sp.chars (level + 1) v ++ (sp.itemChars level vs ++ rest)) =
      some (v :: vs, rest) := by
  induction vs generalizing v fuel with
  | nil =>
      rw [List.length_append] at hfuel
      obtain ⟨fuel, rfl⟩ := Nat.exists_eq_add_one.mpr (show 0 < fuel by omega)
      have hfirst := hv (level + 1) fuel _ (sp.endsNumeral_itemChars level [] rest)
        (by omega)
      rw [items, hfirst]
      simp only [itemChars, List.append_assoc, Option.bind_eq_bind, Option.bind_some,
        skipBlanks_append (sp.blank_start level), List.cons_append, List.nil_append,
        skipBlanks_cons (c := ']') rfl]
      rfl
  | cons w ws ih =>
      rw [List.length_append] at hfuel
      obtain ⟨fuel, rfl⟩ := Nat.exists_eq_add_one.mpr (show 0 < fuel by omega)
      have hfirst := hv (level + 1) fuel _ (sp.endsNumeral_itemChars level (w :: ws) rest)
        (by omega)
      rw [itemChars, List.length_cons, List.length_append] at hfuel
      have hrest := ih (hvs w List.mem_cons_self) (fun u hu => hvs u (List.mem_cons_of_mem w hu))
        fuel (by omega)
      rw [items, hfirst]
      simp only [itemChars, List.cons_append, List.append_assoc, Option.bind_eq_bind,
        Option.bind_some, skipBlanks_cons (c := ',') rfl,
        items_append (sp.blank_start (level + 1)), hrest]
      rfl

theorem Spacing.members_chars {m : JsonText × Json} {ms : List (JsonText × Json)}
    (hm : sp.Reads m.2) (hms : ∀ n ∈ ms, sp.Reads n.2) (level fuel : Nat) (rest : List Char)
    (hfuel : 2 * (textChars m.1 ++ ':' :: (sp.afterColon ++
      (sp.chars (level + 1) m.2 ++ sp.memberChars level ms))).length + 1 ≤ fuel) :
    members fuel (textChars m.1 ++ ':' :: (sp.afterColon ++
      (sp.chars (level + 1) m.2 ++ (sp.memberChars level ms ++ rest)))) = some (m :: ms, rest) := by
  induction ms generalizing m fuel with
  | nil =>
      simp only [List.length_append, List.length_cons] at hfuel
      obtain ⟨fuel, rfl⟩ := Nat.exists_eq_add_one.mpr (show 0 < fuel by omega)
      have hfirst := hm (level + 1) fuel _ (sp.endsNumeral_memberChars level [] rest)
        (by omega)
      rw [members, memberName_textChars]
      simp only [Option.bind_eq_bind, Option.bind_some, value_append sp.blank_afterColon, hfirst]
      simp only [memberChars, List.append_assoc, skipBlanks_append (sp.blank_start level),
        List.cons_append, List.nil_append, skipBlanks_cons (c := '}') rfl]
      rfl
  | cons n ns ih =>
      simp only [List.length_append, List.length_cons, memberChars] at hfuel
      obtain ⟨fuel, rfl⟩ := Nat.exists_eq_add_one.mpr (show 0 < fuel by omega)
      have hfirst := hm (level + 1) fuel _
        (sp.endsNumeral_memberChars level (n :: ns) rest) (by omega)
      have hrest := ih (hms n List.mem_cons_self) (fun u hu => hms u (List.mem_cons_of_mem n hu))
        fuel (by simp only [List.length_append, List.length_cons]; omega)
      rw [members, memberName_textChars]
      simp only [Option.bind_eq_bind, Option.bind_some, value_append sp.blank_afterColon, hfirst]
      simp only [memberChars, List.cons_append, List.append_assoc, skipBlanks_cons (c := ',') rfl,
        members_append (sp.blank_start (level + 1)), hrest, Option.bind_some]
      rfl

theorem Spacing.reads (sp : Spacing) (hv : v.WellFormed) : sp.Reads v := by
  induction hv with
  | null =>
      intro level fuel rest _ hfuel
      simp only [chars] at hfuel ⊢
      obtain ⟨fuel, rfl⟩ := Nat.exists_eq_add_one.mpr (Nat.lt_of_lt_of_le (by decide) hfuel)
      rfl
  | bool b =>
      intro level fuel rest _ hfuel
      cases b with
      | true =>
          simp only [chars] at hfuel ⊢
          obtain ⟨fuel, rfl⟩ := Nat.exists_eq_add_one.mpr (Nat.lt_of_lt_of_le (by decide) hfuel)
          rfl
      | false =>
          simp only [chars] at hfuel ⊢
          obtain ⟨fuel, rfl⟩ := Nat.exists_eq_add_one.mpr (Nat.lt_of_lt_of_le (by decide) hfuel)
          rfl
  | number hn =>
      intro level fuel rest hrest hfuel
      obtain ⟨c, cs, hcs, hc⟩ := exists_head_toChars hn
      have hnumeral := numeral_toChars hn hrest
      simp only [chars, hcs, List.length_cons] at hfuel hnumeral ⊢
      obtain ⟨fuel, rfl⟩ := Nat.exists_eq_add_one.mpr (show 0 < fuel by omega)
      rw [List.cons_append] at hnumeral ⊢
      rw [value_numeral hc, hnumeral]
      rfl
  | string t =>
      intro level fuel rest _ hfuel
      simp only [chars, textChars, List.cons_append, List.length_cons] at hfuel ⊢
      obtain ⟨fuel, rfl⟩ := Nat.exists_eq_add_one.mpr (show 0 < fuel by omega)
      rw [value, skipBlanks_cons rfl]
      simp only [List.append_assoc, List.cons_append, List.nil_append, stringBody_textChars]
      rfl
  | @array vs hvs ih =>
      intro level fuel rest _ hfuel
      cases vs with
      | nil =>
          simp only [chars, List.length_cons] at hfuel ⊢
          obtain ⟨fuel, rfl⟩ := Nat.exists_eq_add_one.mpr (show 0 < fuel by omega)
          rfl
      | cons v vs =>
          simp only [chars, List.length_cons, List.length_append] at hfuel
          obtain ⟨fuel, rfl⟩ := Nat.exists_eq_add_one.mpr (show 0 < fuel by omega)
          have hitems := items_chars (ih v List.mem_cons_self)
            (fun w hw => ih w (List.mem_cons_of_mem v hw)) level fuel rest
            (by rw [List.length_append]; omega)
          obtain ⟨c, cs, hcs, hblank, hc⟩ :=
            sp.exists_head_chars (level + 1) (hvs v List.mem_cons_self)
          simp only [chars, hcs, List.cons_append, List.append_assoc] at hitems ⊢
          rw [value_array hblank hc (sp.blank_start (level + 1)), hitems]
          rfl
  | @object ms hms ih =>
      intro level fuel rest _ hfuel
      cases ms with
      | nil =>
          simp only [chars, List.length_cons] at hfuel ⊢
          obtain ⟨fuel, rfl⟩ := Nat.exists_eq_add_one.mpr (show 0 < fuel by omega)
          rfl
      | cons m ms =>
          simp only [chars, List.length_cons, List.length_append] at hfuel
          obtain ⟨fuel, rfl⟩ := Nat.exists_eq_add_one.mpr (show 0 < fuel by omega)
          have hmembers := members_chars (ih m List.mem_cons_self)
            (fun n hn => ih n (List.mem_cons_of_mem m hn)) level fuel rest
            (by simp only [List.length_cons, List.length_append]; omega)
          simp only [chars, textChars, List.cons_append, List.append_assoc] at hmembers ⊢
          rw [value_object rfl (by decide) (sp.blank_start (level + 1)), hmembers]
          rfl

theorem parse?_chars (sp : Spacing) (hv : v.WellFormed) :
    parse? (String.ofList (sp.chars 0 v)) = some v := by
  have hread := sp.reads hv 0 (2 * (sp.chars 0 v).length + 2) [] trivial (by omega)
  rw [List.append_nil] at hread
  rw [parse?, String.toList_ofList]
  simp only [hread, Option.bind_eq_bind, Option.bind_some]
  rfl

theorem parse?_compact (hv : v.WellFormed) : parse? v.compact = some v := by
  rw [compact, ← Spacing.chars_oneLine 0]
  exact parse?_chars .oneLine hv

theorem parse?_pretty (hv : v.WellFormed) : parse? v.pretty = some v := by
  rw [pretty, ← Spacing.chars_indented 0]
  exact parse?_chars .indented hv

end Forms
end FrequencySampling.Json
