import FrequencySampling.Decimal.Numeral

/-!
Values of the interchange format. Numbers are kept as numerals and the members of an object in
their written order, repeated names included: what a value means is settled by whoever decodes it.
-/

namespace FrequencySampling

/-- A unit of text. An escape may name half of a surrogate pair, which is no character. -/
inductive TextUnit where
  | char (c : Char)
  | half (code : Fin 2048)
deriving DecidableEq

/-- Text as the format writes it, possibly with halves of pairs that nothing completes. -/
abbrev JsonText := List TextUnit

inductive Json where
  | null
  | bool (value : Bool)
  | number (value : Numeral)
  | string (value : JsonText)
  | array (items : List Json)
  | object (members : List (JsonText × Json))
deriving Inhabited

namespace JsonText

def ofString (s : String) : JsonText :=
  s.toList.map .char

/-- The character that an upper and a lower half form together. -/
def join (upper lower : Fin 2048) : Char :=
  Char.ofNat (0x10000 + upper.val * 1024 + (lower.val - 1024))

/-- The characters of a text in which every half has its partner. -/
def toChars? : JsonText → Option (List Char)
  | [] => some []
  | .char c :: rest => (toChars? rest).map (c :: ·)
  | .half upper :: .half lower :: rest =>
    if upper.val < 1024 ∧ 1024 ≤ lower.val then (toChars? rest).map (join upper lower :: ·)
    else none
  | .half _ :: _ => none

def toString? (t : JsonText) : Option String :=
  (toChars? t).map String.ofList

theorem toChars?_map_char (cs : List Char) : toChars? (cs.map .char) = some cs := by
  induction cs with
  | nil => rfl
  | cons c cs ih => simp [toChars?, ih]

theorem toString?_ofString (s : String) : toString? (ofString s) = some s := by
  simp [toString?, ofString, toChars?_map_char]

end JsonText

namespace Json

def str (s : String) : Json :=
  .string (JsonText.ofString s)

def nat (n : Nat) : Json :=
  .number (Numeral.ofNat n)

/-- An object from names and values. -/
def record (members : List (String × Json)) : Json :=
  .object (members.map fun m => (JsonText.ofString m.1, m.2))

end Json
end FrequencySampling
