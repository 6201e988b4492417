import FrequencySampling.Decimal.Layout
import FrequencySampling.Proofs.Listing.Sinks
import FrequencySampling.Scalar.Double
import Mathlib

/-!
Listings can be read back. No number contains what separates fields or lines, so cutting the text at
line ends and each line at its separators gives the fields as they were written, whatever the number
of entries. Every character takes one byte.
-/

namespace FrequencySampling

namespace Listing

section Cutting

variable {first : Char} {sep : List Char}

/-- The pieces of a text between its separators, after some characters that belong to one. -/
def piecesAfter (sep : List Char) (skipped : ℕ) : List Char → List (List Char)
  | [] => [[]]
  | c :: rest =>
    match skipped with
    | n + 1 => piecesAfter sep n rest
    | 0 =>
      if sep.isPrefixOf (c :: rest) then [] :: piecesAfter sep (sep.length - 1) rest
      else (piecesAfter sep 0 rest).modifyHead (c :: ·)

/-- The pieces of a text between the places where a separator stands. -/
def pieces (sep text : List Char) : List (List Char) :=
  piecesAfter sep 0 text

theorem pieces_nil : pieces sep [] = [[]] := rfl

theorem piecesAfter_append (passed rest : List Char) :
    piecesAfter sep passed.length (passed ++ rest) = pieces sep rest := by
  induction passed with
  | nil => rfl
  | cons c passed ih => exact ih

theorem pieces_separator (rest : List Char) :
    pieces (first :: sep) (first :: sep ++ rest) = [] :: pieces (first :: sep) rest := by
  have hstands : (first :: sep).isPrefixOf (first :: sep ++ rest) = true :=
    List.isPrefixOf_iff_prefix.mpr (List.prefix_append _ _)
  rw [pieces, List.cons_append, piecesAfter, ← List.cons_append, if_pos hstands]
  exact congrArg _ (piecesAfter_append sep rest)

/-- A separator starts nowhere in what does not contain its first character. -/
theorem pieces_append {piece : List Char} (hfree : first ∉ piece) (rest : List Char) :
    pieces (first :: sep) (piece ++ rest) =
      (pieces (first :: sep) rest).modifyHead (piece ++ ·) := by
  induction piece with
  | nil => exact (congrFun List.modifyHead_id _).symm
  | cons c piece ih =>
      obtain ⟨hc, hfree⟩ := not_or.mp (List.mem_cons.not.mp hfree)
      have hnone : (first :: sep).isPrefixOf (c :: (piece ++ rest)) = false := by
        simp [List.isPrefixOf, hc]
      rw [List.cons_append, pieces, piecesAfter, hnone, if_neg Bool.false_ne_true, ← pieces,
        ih hfree, List.modifyHead_modifyHead]
      rfl

theorem pieces_append_separator {piece : List Char} (hfree : first ∉ piece) (rest : List Char) :
    pieces (first :: sep) (piece ++ (first :: sep) ++ rest) =
      piece :: pieces (first :: sep) rest := by
  rw [List.append_assoc, pieces_append hfree, pieces_separator, List.modifyHead_cons,
    List.append_nil]

theorem pieces_intercalate {parts : List (List Char)} (hfree : ∀ part ∈ parts, first ∉ part)
    (hparts : parts ≠ []) :
    pieces (first :: sep) ((first :: sep).intercalate parts) = parts := by
  induction parts with
  | nil => exact absurd rfl hparts
  | cons part parts ih =>
      obtain ⟨hpart, hrest⟩ := List.forall_mem_cons.mp hfree
      cases parts with
      | nil =>
          have hlone : pieces (first :: sep) (part ++ []) = _ := pieces_append hpart []
          simpa [pieces_nil] using hlone
      | cons next parts =>
          rw [List.intercalate_cons_cons, pieces_append_separator hpart,
            ih hrest (List.cons_ne_nil _ _)]

theorem pieces_flatten {parts : List (List Char)} (hfree : ∀ part ∈ parts, first ∉ part) :
    pieces (first :: sep) (parts.map (· ++ (first :: sep))).flatten = parts ++ [[]] := by
  induction parts with
  | nil => rfl
  | cons part parts ih =>
      obtain ⟨hpart, hrest⟩ := List.forall_mem_cons.mp hfree
      rw [List.map_cons, List.flatten_cons, pieces_append_separator hpart, ih hrest,
        List.cons_append]

end Cutting

/-- A character that takes one byte and separates nothing. -/
def IsPlain (c : Char) : Prop :=
  c.utf8Size = 1 ∧ c ≠ ',' ∧ c ≠ ' ' ∧ c ≠ '\n'

instance (c : Char) : Decidable (IsPlain c) :=
  inferInstanceAs (Decidable (_ ∧ _))

section PlainText

theorem isPlain_of_isDigit {c : Char} (hc : c.isDigit = true) : IsPlain c := by
  refine ⟨Char.utf8Size_eq_one_iff.mpr ?_, ?_, ?_, ?_⟩
  · exact UInt32.le_iff_toNat_le.mpr ((Char.isDigit_iff_toNat.mp hc).2.trans (by decide))
  all_goals
    rintro rfl
    exact absurd hc (by decide)

theorem isPlain_toChar (d : Fin 10) : IsPlain (Digits.toChar d) := by
  revert d
  decide

theorem isPlain_of_mem_toChars {ds : Digits} {c : Char} (hc : c ∈ ds.toChars) : IsPlain c := by
  obtain ⟨d, -, rfl⟩ := List.mem_map.mp hc
  exact isPlain_toChar d

theorem isPlain_of_mem_numeral {n : Numeral} {c : Char} (hc : c ∈ n.toChars) : IsPlain c := by
  obtain ⟨negative, whole, fraction, power⟩ := n
  rw [Numeral.toChars, List.mem_append, List.mem_append, List.mem_append] at hc
  rcases hc with ((hsign | hwhole) | hfraction) | hpower
  · cases negative with
    | false => exact absurd hsign List.not_mem_nil
    | true => exact List.mem_singleton.mp hsign ▸ by decide
  · exact isPlain_of_mem_toChars hwhole
  · cases fraction with
    | none => exact absurd hfraction List.not_mem_nil
    | some ds =>
        rcases List.mem_cons.mp hfraction with rfl | hdigit
        · decide
        · exact isPlain_of_mem_toChars hdigit
  · cases power with
    | none => exact absurd hpower List.not_mem_nil
    | some p =>
        rcases List.mem_cons.mp hpower with rfl | hrest
        · decide
        rcases List.mem_cons.mp hrest with rfl | hdigit
        · cases p.negative <;> decide
        · exact isPlain_of_mem_toChars hdigit

/-- The text of a number separates nothing, whatever the number. -/
theorem isPlain_of_mem_displayDouble {x : Float} {c : Char} (hc : c ∈ (displayDouble x).toList) :
    IsPlain c := by
  -- A quantifier over a list of characters would be decided over all characters.
  have hword : ∀ word : List Char, word.all (fun c => decide (IsPlain c)) = true →
      ∀ c ∈ word, IsPlain c :=
    fun word hall c hc => of_decide_eq_true (List.all_eq_true.mp hall c hc)
  unfold displayDouble at hc
  split at hc
  case h_1 | h_2 | h_3 =>
    rw [String.toList_ofList] at hc
    exact hword _ (by decide) c hc
  case h_4 d hd =>
    rw [Numeral.text, String.toList_ofList] at hc
    exact isPlain_of_mem_numeral hc

theorem isPlain_of_mem_toString {n : ℕ} {c : Char} (hc : c ∈ (toString n).toList) : IsPlain c := by
  change c ∈ n.repr.toList at hc
  rw [Nat.toList_repr] at hc
  exact isPlain_of_isDigit (Nat.isDigit_of_mem_toDigits (by decide) (by decide) hc)

end PlainText

/-- The fields of a line: at least one, and nothing in them separates. -/
structure IsRow (fields : List (List Char)) : Prop where
  nonempty : fields ≠ []
  plain : ∀ field ∈ fields, ∀ c ∈ field, IsPlain c

section Rows

variable {fields : List (List Char)} {rows : List (List (List Char))}

theorem mem_intercalate {sep : List Char} {parts : List (List Char)} {c : Char}
    (hc : c ∈ sep.intercalate parts) : c ∈ sep ∨ ∃ part ∈ parts, c ∈ part := by
  induction parts with
  | nil => exact absurd hc List.not_mem_nil
  | cons part parts ih =>
      cases parts with
      | nil => exact .inr ⟨part, by simp, by simpa using hc⟩
      | cons next parts =>
          rw [List.intercalate_cons_cons, List.mem_append, List.mem_append] at hc
          rcases hc with (hpart | hsep) | hrest
          · exact .inr ⟨part, List.mem_cons_self, hpart⟩
          · exact .inl hsep
          · exact (ih hrest).imp_right fun ⟨other, hother, hc⟩ =>
              ⟨other, List.mem_cons_of_mem part hother, hc⟩

theorem IsRow.cases_of_mem (hrow : IsRow fields) {c : Char}
    (hc : c ∈ [',', ' '].intercalate fields) : c = ',' ∨ c = ' ' ∨ IsPlain c := by
  rcases mem_intercalate hc with hsep | ⟨field, hfield, hc⟩
  · rcases List.mem_cons.mp hsep with rfl | hblank
    · exact .inl rfl
    · exact .inr (.inl (List.mem_singleton.mp hblank))
  · exact .inr (.inr (hrow.plain field hfield c hc))

theorem IsRow.lineEnd_notMem (hrow : IsRow fields) : '\n' ∉ [',', ' '].intercalate fields := by
  intro hend
  rcases hrow.cases_of_mem hend with hcomma | hblank | hplain
  · exact absurd hcomma (by decide)
  · exact absurd hblank (by decide)
  · exact hplain.2.2.2 rfl

theorem IsRow.pieces_eq (hrow : IsRow fields) :
    pieces [',', ' '] ([',', ' '].intercalate fields) = fields :=
  pieces_intercalate (fun field hfield hcomma => (hrow.plain field hfield _ hcomma).2.1 rfl)
    hrow.nonempty

theorem oneByte_of_mem_lines (hrows : ∀ fields ∈ rows, IsRow fields) {c : Char}
    (hc : c ∈ (rows.map line).flatten) : c.utf8Size = 1 := by
  obtain ⟨_, hline, hc⟩ := List.mem_flatten.mp hc
  obtain ⟨fields, hfields, rfl⟩ := List.mem_map.mp hline
  rcases List.mem_append.mp hc with hbody | hend
  · rcases (hrows fields hfields).cases_of_mem hbody with rfl | rfl | hplain
    · decide
    · decide
    · exact hplain.1
  · rw [List.mem_singleton.mp hend]
    decide

theorem count_lineEnd (hrows : ∀ fields ∈ rows, IsRow fields) :
    (rows.map line).flatten.count '\n' = rows.length := by
  induction rows with
  | nil => rfl
  | cons fields rows ih =>
      obtain ⟨hrow, hrest⟩ := List.forall_mem_cons.mp hrows
      have hbody := List.count_eq_zero_of_not_mem hrow.lineEnd_notMem
      rw [List.map_cons, List.flatten_cons, List.count_append, line, List.count_append, hbody,
        ih hrest, List.length_cons, Nat.zero_add, Nat.add_comm]
      rfl

end Rows

/-- The entries of a text, each read from the fields of its line; the last line has to end too. -/
def entries? {β : Type} (decode? : List (List Char) → Option β) (text : List Char) :
    Option (List β) :=
  let lines := pieces ['\n'] text
  if lines.getLast? = some [] then
    lines.dropLast.mapM fun line => decode? (pieces [',', ' '] line)
  else none

theorem pieces_lines {rows : List (List (List Char))} (hrows : ∀ fields ∈ rows, IsRow fields) :
    pieces ['\n'] (rows.map line).flatten = rows.map [',', ' '].intercalate ++ [[]] := by
  have hfree : ∀ body ∈ rows.map [',', ' '].intercalate, '\n' ∉ body :=
    List.forall_mem_map.mpr fun fields hfields => (hrows fields hfields).lineEnd_notMem
  have hlines : rows.map line = (rows.map [',', ' '].intercalate).map (· ++ ['\n']) := by
    rw [List.map_map]
    rfl
  rw [hlines, pieces_flatten hfree]

theorem mapM_eq_some_map {ι β : Type} {f : ι → Option β} {g : ι → β} {indices : List ι}
    (h : ∀ i ∈ indices, f i = some (g i)) : indices.mapM f = some (indices.map g) := by
  induction indices with
  | nil => rfl
  | cons i indices ih =>
      obtain ⟨hi, hrest⟩ := List.forall_mem_cons.mp h
      rw [List.mapM_cons, hi, ih hrest]
      rfl

theorem entries?_lines {ι β : Type} {indices : List ι} {fields : ι → List (List Char)}
    {decode? : List (List Char) → Option β} {entry : ι → β}
    (hrows : ∀ i ∈ indices, IsRow (fields i))
    (hdecode : ∀ i ∈ indices, decode? (fields i) = some (entry i)) :
    entries? decode? ((indices.map fields).map line).flatten = some (indices.map entry) := by
  unfold entries?
  dsimp only
  -- The text ends with a line, so an empty piece is left after the last one.
  rw [pieces_lines (List.forall_mem_map.mpr hrows), List.getLast?_concat, if_pos rfl,
    List.dropLast_concat, List.mapM_map, List.mapM_map]
  refine mapM_eq_some_map fun i hi => ?_
  rw [Function.comp_apply, Function.comp_apply, (hrows i hi).pieces_eq, hdecode i hi]

/-- A listing: one text is written whatever the sink, with a byte for each character and a line for
each entry. -/
structure IsListing {α : Type} (write : Sink → Outcome α Unit × Sink) (entries : ℕ)
    (text : List Char) : Prop where
  writes : Sink.Writes write text
  oneByte : ∀ c ∈ text, c.utf8Size = 1
  lines : text.count '\n' = entries

theorem isListing_putAll {α : Type} {rows : List (List (List Char))}
    (hrows : ∀ fields ∈ rows, IsRow fields) :
    IsListing (α := α) (fun sink => sink.putAll (rows.map line)) rows.length
      (rows.map line).flatten where
  writes := Sink.writes_putAll _
  oneByte _ := oneByte_of_mem_lines hrows
  lines := count_lineEnd hrows

section Entries

variable {α : Type} [Scalar α]

/-- The index and the value of a tap. -/
def tapEntry (h : ImpulseResponse α) (n : ℕ) : ℕ × α :=
  (n, h.tap n)

/-- The frequency and the value of a point and, if there is a reference, its value there. -/
def pointEntry (r : MagnitudeResponse α) (reference : Option (Array α)) (index : ℕ) :
    α × α × Option α :=
  (r.frequency index, r.values.getD index 0, reference.map (·.getD index 0))

/-- Reads an index and a value. -/
def readTap? (read? : String → Option α) : List (List Char) → Option (ℕ × α)
  | [index, value] => do
    return (← (String.ofList index).toNat?, ← read? (String.ofList value))
  | _ => none

/-- Reads a frequency, a value and, if there is a third field, the value of a reference. -/
def readPoint? (read? : String → Option α) : List (List Char) → Option (α × α × Option α)
  | [frequency, value] => do
    return (← read? (String.ofList frequency), ← read? (String.ofList value), none)
  | [frequency, value, reference] => do
    return (← read? (String.ofList frequency), ← read? (String.ofList value),
      some (← read? (String.ofList reference)))
  | _ => none

/-- The text of a number identifies it. -/
def ReadsBack (render : α → String) (read? : String → Option α) (x : α) : Prop :=
  read? (render x) = some x

variable {render : α → String} {read? : String → Option α} {h : ImpulseResponse α}
  {r : MagnitudeResponse α} {reference : Option (Array α)} {index : ℕ}

/-- The fields of the line of a tap. -/
def tapFields (render : α → String) (h : ImpulseResponse α) (n : ℕ) : List (List Char) :=
  [(toString n).toList, (render (h.tap n)).toList]

theorem readTap?_tapFields {n : ℕ} (hvalue : ReadsBack render read? (h.tap n)) :
    readTap? read? (tapFields render h n) = some (tapEntry h n) := by
  have hindex : (toString n).toNat? = some n := Nat.toNat?_repr n
  rw [ReadsBack] at hvalue
  simp only [tapFields, readTap?, String.ofList_toList, hindex, hvalue]
  rfl

theorem readPoint?_pointFields (hfrequency : ReadsBack render read? (r.frequency index))
    (hvalue : ReadsBack render read? (r.values.getD index 0))
    (hreference : ∀ values ∈ reference, ReadsBack render read? (values.getD index 0)) :
    readPoint? read? (pointFields render r reference index) =
      some (pointEntry r reference index) := by
  rw [ReadsBack] at hfrequency hvalue
  cases reference with
  | none =>
      simp only [pointFields, List.append_nil, readPoint?, String.ofList_toList, hfrequency,
        hvalue]
      rfl
  | some values =>
      have hthird := hreference values rfl
      rw [ReadsBack] at hthird
      simp only [pointFields, List.cons_append, List.nil_append, readPoint?, String.ofList_toList,
        hfrequency, hvalue, hthird]
      rfl

theorem isRow_tapFields (hrender : ∀ x, ∀ c ∈ (render x).toList, IsPlain c) (n : ℕ) :
    IsRow (tapFields render h n) where
  nonempty := List.cons_ne_nil _ _
  plain field hfield c hc := by
    rcases List.mem_cons.mp hfield with rfl | hvalue
    · exact isPlain_of_mem_toString hc
    · rw [List.mem_singleton.mp hvalue] at hc
      exact hrender _ c hc

theorem isRow_pointFields (hrender : ∀ x, ∀ c ∈ (render x).toList, IsPlain c) (index : ℕ) :
    IsRow (pointFields render r reference index) where
  nonempty := List.cons_ne_nil _ _
  plain field hfield c hc := by
    have htext : ∃ x, field = (render x).toList := by
      rcases List.mem_append.mp hfield with hfield | hfield
      · rcases List.mem_cons.mp hfield with rfl | hvalue
        · exact ⟨_, rfl⟩
        · exact ⟨_, List.mem_singleton.mp hvalue⟩
      · cases reference with
        | none => exact absurd hfield List.not_mem_nil
        | some values => exact ⟨_, List.mem_singleton.mp hfield⟩
    obtain ⟨x, rfl⟩ := htext
    exact hrender x c hc

end Entries

section Writing

variable {α : Type} [Scalar α] {render : α → String} {r : MagnitudeResponse α}

theorem writeTaps_eq (render : α → String) (h : ImpulseResponse α) :
    writeTaps render h = fun sink =>
      sink.putAll (((List.range h.numTaps).map (tapFields render h)).map line) := by
  funext sink
  rw [writeTaps, ofTaps, List.map_map]
  rfl

theorem writeResponse_of_size {reference : Option (Array α)}
    (hsize : ∀ values ∈ reference, values.size = r.size) :
    writeResponse render r reference = fun sink =>
      sink.putAll (((List.range r.size).map (pointFields render r reference)).map line) := by
  have hlines : ofResponse render r reference =
      .ok (((List.range r.size).map (pointFields render r reference)).map line) := by
    rw [List.map_map]
    cases reference with
    | none => rfl
    | some values =>
        rw [ofResponse]
        simp only [hsize values rfl, ne_eq, not_true_eq_false, if_false]
        rfl
  funext sink
  rw [writeResponse, hlines]

theorem writeResponse_of_ne {values : Array α} (hsize : values.size ≠ r.size) (sink : Sink) :
    writeResponse render r (some values) sink =
      (.error (.invalidParameter (.referenceSize values.size r.size)), sink) := by
  have hrefused : ofResponse render r (some values) =
      .error (.invalidParameter (.referenceSize values.size r.size)) := by
    rw [ofResponse]
    simp only [ne_eq, hsize, not_false_eq_true, if_true]
    rfl
  rw [writeResponse, hrefused]

theorem isListing_writeTaps (hrender : ∀ x, ∀ c ∈ (render x).toList, IsPlain c)
    (h : ImpulseResponse α) : IsListing (writeTaps render h) h.numTaps
      (((List.range h.numTaps).map (tapFields render h)).map line).flatten := by
  have hrows : ∀ n ∈ List.range h.numTaps, IsRow (tapFields render h n) :=
    fun n _ => isRow_tapFields hrender n
  have hlisting := isListing_putAll (α := α) (List.forall_mem_map.mpr hrows)
  rwa [← writeTaps_eq, List.length_map, List.length_range] at hlisting

theorem isListing_writeResponse (hrender : ∀ x, ∀ c ∈ (render x).toList, IsPlain c)
    {reference : Option (Array α)} (hsize : ∀ values ∈ reference, values.size = r.size) :
    IsListing (writeResponse render r reference) r.size
      (((List.range r.size).map (pointFields render r reference)).map line).flatten := by
  have hrows : ∀ index ∈ List.range r.size, IsRow (pointFields render r reference index) :=
    fun index _ => isRow_pointFields hrender index
  have hlisting := isListing_putAll (α := α) (List.forall_mem_map.mpr hrows)
  rwa [← writeResponse_of_size hsize, List.length_map, List.length_range] at hlisting

theorem getD_mem {xs : Array α} {index : ℕ} (hindex : index < xs.size) : xs.getD index 0 ∈ xs := by
  rw [Array.getD_eq_getD_getElem?, Array.getElem?_eq_getElem hindex]
  exact Array.getElem_mem hindex

end Writing

/-- Listings are decodable and fail cleanly: whatever the sink, one text is written up to its limit,
and from that text all entries can be read back in order if each number can. A reference of another
size is refused with nothing written. -/
theorem listings_read_back (read? : String → Option Float) :
    (∀ h : ImpulseResponse Float, ∃ text,
      IsListing (writeTaps displayDouble h) h.numTaps text ∧
      ((∀ x ∈ h.taps, ReadsBack displayDouble read? x) →
        entries? (readTap? read?) text = some ((List.range h.numTaps).map (tapEntry h)))) ∧
    (∀ (r : MagnitudeResponse Float) (reference : Option (Array Float)),
      (∀ values ∈ reference, values.size = r.size) → ∃ text,
      IsListing (writeResponse displayDouble r reference) r.size text ∧
      ((∀ index < r.size, ReadsBack displayDouble read? (r.frequency index)) →
        (∀ x ∈ r.values, ReadsBack displayDouble read? x) →
        (∀ values ∈ reference, ∀ x ∈ values, ReadsBack displayDouble read? x) →
        entries? (readPoint? read?) text =
          some ((List.range r.size).map (pointEntry r reference)))) ∧
    ∀ (r : MagnitudeResponse Float) (values : Array Float) (sink : Sink), values.size ≠ r.size →
      writeResponse displayDouble r (some values) sink =
        (.error (.invalidParameter (.referenceSize values.size r.size)), sink) := by
  have hplain : ∀ x, ∀ c ∈ (displayDouble x).toList, IsPlain c :=
    fun _ _ => isPlain_of_mem_displayDouble
  refine ⟨?taps, ?responses, ?refused⟩
  case taps =>
    intro h
    refine ⟨_, isListing_writeTaps hplain h, fun hread => ?_⟩
    refine entries?_lines (fun n _ => isRow_tapFields hplain n) fun n hn => ?_
    exact readTap?_tapFields (hread _ (getD_mem (List.mem_range.mp hn)))
  case responses =>
    intro r reference hsize
    refine ⟨_, isListing_writeResponse hplain hsize, fun hfrequencies hvalues hreference => ?_⟩
    refine entries?_lines (fun index _ => isRow_pointFields hplain index) fun index hindex => ?_
    have hindex := List.mem_range.mp hindex
    refine readPoint?_pointFields (hfrequencies index hindex) (hvalues _ (getD_mem hindex)) ?_
    intro values hmem
    exact hreference values hmem _ (getD_mem (hsize values hmem ▸ hindex))
  case refused =>
    intro r values sink hsize
    exact writeResponse_of_ne hsize sink

/-- Reads one of some numbers. -/
def readAmong (numbers : List Float) (text : String) : Option Float :=
  numbers.find? fun x => displayDouble x == text

/-- Three taps, two points with a reference, and a reference that is too short. -/
theorem listings_read_back_of_halves :
    (∃ text, IsListing (writeTaps displayDouble ⟨#[0.25, 0.5, 0.25], .typeI⟩) 3 text ∧
      entries? (readTap? (readAmong [0, 0.25, 0.5, -6, 1])) text =
        some [(0, 0.25), (1, 0.5), (2, 0.25)]) ∧
    (∃ text, IsListing (writeResponse displayDouble ⟨#[0, -6], .decibel⟩ (some #[1, 1])) 2 text ∧
      entries? (readPoint? (readAmong [0, 0.25, 0.5, -6, 1])) text =
        some [(0, 0, some 1), (0.5, -6, some 1)]) ∧
    writeResponse displayDouble ⟨#[0, -6], .decibel⟩ (some #[1]) (Sink.ofLimit none) =
      (.error (.invalidParameter (.referenceSize 1 2)), Sink.ofLimit none) := by
  obtain ⟨htaps, hresponses, hrefused⟩ := listings_read_back (readAmong [0, 0.25, 0.5, -6, 1])
  obtain ⟨taps, htaps, hentries⟩ := htaps ⟨#[0.25, 0.5, 0.25], .typeI⟩
  obtain ⟨points, hpoints, hrows⟩ := hresponses ⟨#[0, -6], .decibel⟩ (some #[1, 1]) (by
    rintro values ⟨rfl⟩
    rfl)
  have hfrequencies : ∀ index < 2, ReadsBack displayDouble (readAmong [0, 0.25, 0.5, -6, 1])
      (MagnitudeResponse.frequency ⟨#[0, -6], .decibel⟩ index) := by
    unfold ReadsBack
    decide +kernel
  refine ⟨⟨taps, htaps, ?_⟩, ⟨points, hpoints, ?_⟩,
    hrefused ⟨#[0, -6], .decibel⟩ #[1] (Sink.ofLimit none) (by decide)⟩
  · rw [hentries (by unfold ReadsBack; decide +kernel)]
    decide +kernel
  · rw [hrows hfrequencies (by unfold ReadsBack; decide +kernel) (by
      rintro values ⟨rfl⟩
      unfold ReadsBack
      decide +kernel)]
    decide +kernel

end Listing
end FrequencySampling
