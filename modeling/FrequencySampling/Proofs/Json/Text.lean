import FrequencySampling.Json.Parser
import FrequencySampling.Json.Printer

/-!
Texts are read as they were written. Every unit has one written form: itself, a letter behind a
backslash, or four hexadecimal digits; each form is read back as the unit, whatever follows.
-/

namespace FrequencySampling.Json

theorem hexDigit?_hexChar : ∀ n : Fin 16, hexDigit? (hexChar n.val) = some n := by
  decide

theorem stringBody_codeEscape {code : Nat} (hcode : code < 65536) (rest : List Char) :
    stringBody (codeEscape code ++ rest) =
      (stringBody rest).map fun read => (unitOfCode code :: read.1, read.2) := by
  have hdigit : ∀ n, hexDigit? (hexChar (n % 16)) = some ⟨n % 16, Nat.mod_lt n (by decide)⟩ :=
    fun n => hexDigit?_hexChar ⟨n % 16, Nat.mod_lt n (by decide)⟩
  have hvalue : ((code / 4096 % 16 * 16 + code / 256 % 16) * 16 + code / 16 % 16) * 16 +
      code % 16 = code := by omega
  simp only [codeEscape, List.cons_append, List.nil_append, stringBody, hdigit,
    Option.bind_eq_bind, Option.bind_some, hvalue]
  cases stringBody rest <;> rfl

theorem unitOfCode_char (c : Char) (hc : c.toNat < 32) : unitOfCode c.toNat = .char c := by
  rw [unitOfCode, dif_neg (by omega), Char.ofNat_toNat]

theorem unitOfCode_half (h : Fin 2048) : unitOfCode (0xD800 + h.val) = .half h := by
  have hrange : 0xD800 ≤ 0xD800 + h.val ∧ 0xD800 + h.val < 0xE000 := by omega
  rw [unitOfCode, dif_pos hrange]
  exact congrArg _ (Fin.ext (Nat.add_sub_cancel_left ..))

theorem stringBody_letter {c e : Char} (hc : escaped? c = some e) (hletter : c ≠ 'u')
    (rest : List Char) : stringBody ('\\' :: c :: rest) =
      (stringBody rest).map fun read => (.char e :: read.1, read.2) := by
  rw [stringBody.eq_def]
  split
  · rename_i heq
    cases heq
  · rename_i heq
    cases heq
  · rename_i heq
    obtain ⟨rfl, -⟩ := List.cons.inj (List.cons.inj heq).2
    exact absurd rfl hletter
  · rename_i heq
    obtain ⟨rfl, rfl⟩ := List.cons.inj (List.cons.inj heq).2
    simp only [hc, Option.bind_eq_bind, Option.bind_some]
    cases stringBody rest <;> rfl
  · rename_i hnot heq
    obtain ⟨rfl, rfl⟩ := List.cons.inj heq
    exact absurd rfl (hnot c rest rfl)

theorem stringBody_plain {c : Char} (hquote : c ≠ '"') (hbackslash : c ≠ '\\')
    (hcode : ¬ c.toNat < 32) (rest : List Char) : stringBody (c :: rest) =
      (stringBody rest).map fun read => (.char c :: read.1, read.2) := by
  rw [stringBody.eq_def]
  split
  · rename_i heq
    cases heq
  · rename_i heq
    exact absurd (List.cons.inj heq).1 hquote
  · rename_i heq
    exact absurd (List.cons.inj heq).1 hbackslash
  · rename_i heq
    exact absurd (List.cons.inj heq).1 hbackslash
  · rename_i heq
    obtain ⟨rfl, rfl⟩ := List.cons.inj heq
    simp only [hcode, if_false, Option.bind_eq_bind]
    cases stringBody rest <;> rfl

theorem stringBody_unitChars (u : TextUnit) (rest : List Char) :
    stringBody (unitChars u ++ rest) =
      (stringBody rest).map fun read => (u :: read.1, read.2) := by
  unfold unitChars
  split
  case h_8 c hquote hbackslash _ _ _ _ _ =>
    by_cases hcode : c.toNat < 32
    · rw [if_pos hcode, stringBody_codeEscape (by omega), unitOfCode_char c hcode]
    · rw [if_neg hcode]
      exact stringBody_plain hquote hbackslash hcode rest
  case h_9 h =>
    rw [stringBody_codeEscape (by omega), unitOfCode_half]
  all_goals exact stringBody_letter (by decide) (by decide) rest

theorem stringBody_textChars (t : JsonText) (rest : List Char) :
    stringBody (t.flatMap unitChars ++ '"' :: rest) = some (t, rest) := by
  induction t with
  | nil => simp only [List.flatMap_nil, List.nil_append, stringBody]
  | cons u t ih =>
      rw [List.flatMap_cons, List.append_assoc, stringBody_unitChars, ih]
      rfl

end FrequencySampling.Json
