import FrequencySampling.Listing

/-!
Sinks that run full. Writing a text in pieces comes to the same as writing it at once: what is taken
is the text up to the limit, and the refusal does not depend on where in a piece the limit falls.
-/

namespace FrequencySampling.Sink

theorem put_nil (sink : Sink) : sink.put [] = (true, sink) := by
  obtain ⟨room, taken⟩ := sink
  cases room <;> simp [put]

theorem put_append (sink : Sink) (text rest : List Char) :
    sink.put (text ++ rest) =
      if (sink.put text).1 then (sink.put text).2.put rest else sink.put text := by
  obtain ⟨room, taken⟩ := sink
  cases room with
  | none => simp [put]
  | some n =>
      simp only [put, List.length_append, List.take_append, decide_eq_true_eq, List.append_assoc]
      by_cases hfits : text.length ≤ n
      · rw [if_pos hfits, Nat.sub_add_eq]
        congr 2
        exact propext (by omega)
      · have hfull : n - text.length = 0 := by omega
        have hrefused : ¬ text.length + rest.length ≤ n := by omega
        simp [hfits, hfull, hrefused, Nat.sub_add_eq]

/-- Only the concatenation of the pieces matters. -/
theorem putAll_eq {α : Type} (sink : Sink) (pieces : List (List Char)) :
    (sink.putAll pieces : Outcome α Unit × Sink) =
      (if (sink.put pieces.flatten).1 then .ok () else .error (.io refusal),
        (sink.put pieces.flatten).2) := by
  -- What is left of the sink after one piece is the sink of the next.
  induction pieces generalizing sink with
  | nil =>
      rw [List.flatten_nil, put_nil]
      rfl
  | cons piece pieces ih =>
      rw [List.flatten_cons, put_append, putAll]
      cases hput : sink.put piece with
      | mk accepted left =>
          cases accepted with
          | true => exact ih left
          | false => rfl

/-- A writer of a text: an unlimited sink takes all of it, a limited one what comes before its
limit, and it does not matter in which pieces the text comes. -/
structure Writes {α : Type} (write : Sink → Outcome α Unit × Sink) (text : List Char) : Prop where
  unlimited : write (ofLimit none) = (.ok (), ⟨none, text⟩)
  taken : ∀ limit,
    (write (ofLimit (some limit))).2.taken = text.take (min limit text.length)
  ok_iff : ∀ limit, (write (ofLimit (some limit))).1 = .ok () ↔ text.length ≤ limit
  refused : ∀ limit < text.length, (write (ofLimit (some limit))).1 = .error (.io refusal)
  pieces : ∀ pieces : List (List Char), pieces.flatten = text →
    ∀ sink, write sink = sink.putAll pieces

theorem putAll_ofLimit {α : Type} (limit : Nat) (pieces : List (List Char)) :
    ((ofLimit (some limit)).putAll pieces : Outcome α Unit × Sink) =
      (if pieces.flatten.length ≤ limit then .ok () else .error (.io refusal),
        ⟨some (limit - pieces.flatten.length), pieces.flatten.take limit⟩) := by
  rw [putAll_eq]
  simp only [put, ofLimit, decide_eq_true_eq, List.nil_append]

theorem writes_putAll {α : Type} (lines : List (List Char)) :
    Writes (α := α) (fun sink => sink.putAll lines) lines.flatten where
  unlimited := by
    rw [putAll_eq]
    rfl
  taken limit := by
    rw [putAll_ofLimit]
    exact List.take_eq_take_min
  ok_iff limit := by
    rw [putAll_ofLimit]
    simp only [ite_eq_left_iff, reduceCtorEq, imp_false, Decidable.not_not]
  refused limit hlimit := by
    rw [putAll_ofLimit]
    exact if_neg (Nat.not_le.mpr hlimit)
  pieces pieces hpieces sink := by rw [putAll_eq, putAll_eq, hpieces]

end FrequencySampling.Sink
