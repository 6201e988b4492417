import FrequencySampling.Json.Value

/-!
Reading the interchange format. Blanks may stand around every value and mark; a text holds one value
and nothing else. The readers of parts take the characters ahead and give back those they leave.
-/

namespace FrequencySampling.Json

/-- The blanks of the format. -/
def isBlank (c : Char) : Bool :=
  c == ' ' || c == '\n' || c == '\t' || c == '\r'

def skipBlanks (cs : List Char) : List Char :=
  cs.dropWhile isBlank

/-- The digits at the front. -/
def digitRun : List Char → Digits × List Char
  | [] => ([], [])
  | c :: cs =>
    match Digits.ofChar? c with
    | some d =>
      let (ds, rest) := digitRun cs
      (d :: ds, rest)
    | none => ([], c :: cs)

/-- At least one digit. -/
def someDigits (cs : List Char) : Option (Digits × List Char) :=
  match digitRun cs with
  | ([], _) => none
  | (ds, rest) => some (ds, rest)

/-- A whole part: a zero that no digit follows, or digits that do not start with a zero. -/
def wholePart (cs : List Char) : Option (Digits × List Char) :=
  match someDigits cs with
  | some (d :: e :: ds, rest) => if d.val = 0 then none else some (d :: e :: ds, rest)
  | other => other

def fractionPart : List Char → Option (Option Digits × List Char)
  | '.' :: cs => (someDigits cs).map fun (ds, rest) => (some ds, rest)
  | cs => some (none, cs)

def signedDigits : List Char → Option (TenPower × List Char)
  | '-' :: cs => (someDigits cs).map fun (ds, rest) => (⟨true, ds⟩, rest)
  | '+' :: cs => (someDigits cs).map fun (ds, rest) => (⟨false, ds⟩, rest)
  | cs => (someDigits cs).map fun (ds, rest) => (⟨false, ds⟩, rest)

def powerPart : List Char → Option (Option TenPower × List Char)
  | 'e' :: cs => (signedDigits cs).map fun (p, rest) => (some p, rest)
  | 'E' :: cs => (signedDigits cs).map fun (p, rest) => (some p, rest)
  | cs => some (none, cs)

/-- A numeral without its sign. -/
def unsigned (negative : Bool) (cs : List Char) : Option (Numeral × List Char) := do
  let (whole, cs) ← wholePart cs
  let (fraction, cs) ← fractionPart cs
  let (power, cs) ← powerPart cs
  return (⟨negative, whole, fraction, power⟩, cs)

def numeral : List Char → Option (Numeral × List Char)
  | '-' :: cs => unsigned true cs
  | cs => unsigned false cs

def hexDigit? (c : Char) : Option (Fin 16) :=
  let n := c.toNat
  if h : 48 ≤ n ∧ n < 58 then some ⟨n - 48, by omega⟩
  else if h : 97 ≤ n ∧ n < 103 then some ⟨n - 87, by omega⟩
  else if h : 65 ≤ n ∧ n < 71 then some ⟨n - 55, by omega⟩
  else none

/-- The unit that four hexadecimal digits name. -/
def unitOfCode (code : Nat) : TextUnit :=
  if h : 0xD800 ≤ code ∧ code < 0xE000 then .half ⟨code - 0xD800, by omega⟩
  else .char (Char.ofNat code)

/-- The character that a one-letter escape names. -/
def escaped? : Char → Option Char
  | '"' => some '"'
  | '\\' => some '\\'
  | '/' => some '/'
  | 'b' => some '\x08'
  | 'f' => some '\x0c'
  | 'n' => some '\n'
  | 'r' => some '\r'
  | 't' => some '\t'
  | _ => none

/-- The units of a string after its opening quote. Control characters must be escaped. -/
def stringBody : List Char → Option (JsonText × List Char)
  | [] => none
  | '"' :: rest => some ([], rest)
  | '\\' :: 'u' :: a :: b :: c :: d :: rest => do
    let a ← hexDigit? a
    let b ← hexDigit? b
    let c ← hexDigit? c
    let d ← hexDigit? d
    let (units, rest) ← stringBody rest
    return (unitOfCode (((a.val * 16 + b.val) * 16 + c.val) * 16 + d.val) :: units, rest)
  | '\\' :: c :: rest => do
    let e ← escaped? c
    let (units, rest) ← stringBody rest
    return (.char e :: units, rest)
  | c :: rest =>
    if c.toNat < 32 then none
    else do
      let (units, rest) ← stringBody rest
      return (.char c :: units, rest)

/-- A name with the colon that follows it. -/
def memberName (cs : List Char) : Option (JsonText × List Char) :=
  match skipBlanks cs with
  | '"' :: rest => do
    let (name, rest) ← stringBody rest
    match skipBlanks rest with
    | ':' :: rest => return (name, rest)
    | _ => none
  | _ => none

mutual

/-- A value with the blanks before it. The first argument bounds the calls still to come. -/
def value : Nat → List Char → Option (Json × List Char)
  | 0, _ => none
  | fuel + 1, cs =>
    match skipBlanks cs with
    | 'n' :: 'u' :: 'l' :: 'l' :: rest => some (.null, rest)
    | 't' :: 'r' :: 'u' :: 'e' :: rest => some (.bool true, rest)
    | 'f' :: 'a' :: 'l' :: 's' :: 'e' :: rest => some (.bool false, rest)
    | '"' :: rest => (stringBody rest).map fun (units, rest) => (.string units, rest)
    | '[' :: rest =>
      match skipBlanks rest with
      | ']' :: rest => some (.array [], rest)
      | rest => (items fuel rest).map fun (vs, rest) => (.array vs, rest)
    | '{' :: rest =>
      match skipBlanks rest with
      | '}' :: rest => some (.object [], rest)
      | rest => (members fuel rest).map fun (ms, rest) => (.object ms, rest)
    | cs => (numeral cs).map fun (n, rest) => (.number n, rest)

/-- One or more values up to the closing bracket. -/
def items : Nat → List Char → Option (List Json × List Char)
  | 0, _ => none
  | fuel + 1, cs => do
    let (v, cs) ← value fuel cs
    match skipBlanks cs with
    | ',' :: rest =>
      let (vs, rest) ← items fuel rest
      return (v :: vs, rest)
    | ']' :: rest => return ([v], rest)
    | _ => none

/-- One or more members up to the closing brace. -/
def members : Nat → List Char → Option (List (JsonText × Json) × List Char)
  | 0, _ => none
  | fuel + 1, cs => do
    let (name, cs) ← memberName cs
    let (v, cs) ← value fuel cs
    match skipBlanks cs with
    | ',' :: rest =>
      let (ms, rest) ← members fuel rest
      return ((name, v) :: ms, rest)
    | '}' :: rest => return ([(name, v)], rest)
    | _ => none

end

/-- The value that a whole text holds. Each call reads a character or is followed by one that does,
so twice the length bounds their number. -/
def parse? (s : String) : Option Json := do
  let cs := s.toList
  let (v, rest) ← value (2 * cs.length + 2) cs
  if (skipBlanks rest).isEmpty then return v else none

end FrequencySampling.Json
