import FrequencySampling.Json.Value

/-!
Writing the interchange format, either on one line without blanks or with one member a line and two
blanks of indentation a level.
-/

namespace FrequencySampling.Json

def hexChar (n : Nat) : Char :=
  if n < 10 then Char.ofNat (48 + n) else Char.ofNat (87 + n)

/-- The escape that names a unit by four hexadecimal digits. -/
def codeEscape (code : Nat) : List Char :=
  ['\\', 'u', hexChar (code / 4096 % 16), hexChar (code / 256 % 16), hexChar (code / 16 % 16),
    hexChar (code % 16)]

/-- Quotes, backslashes and control characters are escaped, the commonest by a letter. -/
def unitChars : TextUnit → List Char
  | .char '"' => ['\\', '"']
  | .char '\\' => ['\\', '\\']
  | .char '\x08' => ['\\', 'b']
  | .char '\x0c' => ['\\', 'f']
  | .char '\n' => ['\\', 'n']
  | .char '\r' => ['\\', 'r']
  | .char '\t' => ['\\', 't']
  | .char c => if c.toNat < 32 then codeEscape c.toNat else [c]
  | .half h => codeEscape (0xD800 + h.val)

def textChars (t : JsonText) : List Char :=
  '"' :: t.flatMap unitChars ++ ['"']

mutual

def compactChars : Json → List Char
  | .null => "null".toList
  | .bool true => "true".toList
  | .bool false => "false".toList
  | .number n => n.toChars
  | .string t => textChars t
  | .array [] => ['[', ']']
  | .array (v :: vs) => '[' :: compactChars v ++ compactItems vs
  | .object [] => ['{', '}']
  | .object (m :: ms) => '{' :: textChars m.1 ++ ':' :: compactChars m.2 ++ compactMembers ms

/-- The items after the first, with the closing bracket. -/
def compactItems : List Json → List Char
  | [] => [']']
  | v :: vs => ',' :: compactChars v ++ compactItems vs

def compactMembers : List (JsonText × Json) → List Char
  | [] => ['}']
  | m :: ms => ',' :: textChars m.1 ++ ':' :: compactChars m.2 ++ compactMembers ms

end

/-- A line end and the indentation of a level. -/
def lineStart (level : Nat) : List Char :=
  '\n' :: List.replicate (2 * level) ' '

mutual

/-- The indented form of a value inside the given number of brackets. -/
def prettyChars (level : Nat) : Json → List Char
  | .array (v :: vs) =>
    '[' :: lineStart (level + 1) ++ prettyChars (level + 1) v ++ prettyItems level vs
  | .object (m :: ms) =>
    '{' :: lineStart (level + 1) ++ textChars m.1 ++ ':' :: ' ' :: prettyChars (level + 1) m.2
      ++ prettyMembers level ms
  | .array [] => ['[', ']']
  | .object [] => ['{', '}']
  | .null => "null".toList
  | .bool true => "true".toList
  | .bool false => "false".toList
  | .number n => n.toChars
  | .string t => textChars t

def prettyItems (level : Nat) : List Json → List Char
  | [] => lineStart level ++ [']']
  | v :: vs => ',' :: lineStart (level + 1) ++ prettyChars (level + 1) v ++ prettyItems level vs

def prettyMembers (level : Nat) : List (JsonText × Json) → List Char
  | [] => lineStart level ++ ['}']
  | m :: ms =>
    ',' :: lineStart (level + 1) ++ textChars m.1 ++ ':' :: ' ' :: prettyChars (level + 1) m.2
      ++ prettyMembers level ms

end

def compact (v : Json) : String :=
  String.ofList (compactChars v)

def pretty (v : Json) : String :=
  String.ofList (prettyChars 0 v)

end FrequencySampling.Json
