import FrequencySampling.Json.Value

/-!
Decoding values that stand for records and for one of several names. A record is an object whose
known members occur at most once, in any order and among any others, or an array of its members in
their own order.
-/

namespace FrequencySampling.Json

/-- The values of the members that bear a name. -/
def valuesOf (name : String) (members : List (JsonText × Json)) : List Json :=
  (members.filter fun m => m.1.toString? == some name).map (·.2)

/-- The member of a name: absent or present once. -/
def memberOf? (members : List (JsonText × Json)) (name : String) : Option (Option Json) :=
  match valuesOf name members with
  | [] => some none
  | [v] => some (some v)
  | _ => none

/-- The members of a record in the order of the given names; the inner option tells which are there.
Every name in the object must be a text, known or not. -/
def fields? (names : List String) : Json → Option (List (Option Json))
  | .object members =>
    if members.all fun m => m.1.toString?.isSome then names.mapM (memberOf? members) else none
  | .array items =>
    if items.length ≤ names.length then
      some (items.map some ++ List.replicate (names.length - items.length) none)
    else none
  | _ => none

/-- A member with a default: absent, or decoded. -/
def orDefault {β : Type} (default : β) (decode : Json → Option β) : Option Json → Option β
  | none => some default
  | some v => decode v

/-- A member that has to be there. -/
def required {β : Type} (decode : Json → Option β) : Option Json → Option β
  | none => none
  | some v => decode v

/-- A value that may be null instead. -/
def nullable {β : Type} (decode : Json → Option β) : Json → Option (Option β)
  | .null => some none
  | v => (decode v).map some

/-- The choice that a value names: by a string, or by an object of one member whose value is
null. -/
def choice? {β : Type} (choices : List (String × β)) : Json → Option β
  | .string t => do choices.lookup (← t.toString?)
  | .object [(t, .null)] => do choices.lookup (← t.toString?)
  | _ => none

end FrequencySampling.Json
