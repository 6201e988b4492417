import FrequencySampling.ImpulseResponse.Basic
import FrequencySampling.MagnitudeResponse.Basic

/-!
Listings of taps and responses: one entry a line, its fields separated by a comma and a blank. A
listing is written line by line into a sink, which may run full in the middle of a line.
-/

namespace FrequencySampling

/-- A place for text that takes at most a given number of further characters, if a limit is set.
Listings are ASCII, so that a character is a byte. -/
structure Sink where
  room : Option Nat
  taken : List Char

namespace Sink

def ofLimit (limit : Option Nat) : Sink :=
  ⟨limit, []⟩

/-- Writes what fits; refuses if something is left over. -/
def put (sink : Sink) (text : List Char) : Bool × Sink :=
  match sink.room with
  | none => (true, { sink with taken := sink.taken ++ text })
  | some n =>
    (decide (text.length ≤ n), ⟨some (n - text.length), sink.taken ++ text.take n⟩)

/-- What a full sink answers. -/
def refusal : String := "sink closed"

/-- Writes lines until the sink refuses. -/
def putAll {α : Type} (sink : Sink) : List (List Char) → Outcome α Unit × Sink
  | [] => (.ok (), sink)
  | line :: lines =>
    match sink.put line with
    | (true, sink) => putAll sink lines
    | (false, sink) => (.error (.io refusal), sink)

end Sink

namespace Listing

/-- A line from its fields. -/
def line (fields : List (List Char)) : List Char :=
  [',', ' '].intercalate fields ++ ['\n']

variable {α : Type} [Scalar α]

/-- The index and the value of every tap; `render` writes a number. -/
def ofTaps (render : α → String) (h : ImpulseResponse α) : List (List Char) :=
  (List.range h.numTaps).map fun n => line [(toString n).toList, (render (h.tap n)).toList]

/-- The fields of a response point: frequency, value and, if there is a reference, its value. -/
def pointFields (render : α → String) (r : MagnitudeResponse α) (reference : Option (Array α))
    (index : Nat) : List (List Char) :=
  [(render (r.frequency index)).toList, (render (r.values.getD index 0)).toList]
    ++ (match reference with
      | some values => [(render (values.getD index 0)).toList]
      | none => [])

/-- A reference has to cover the response exactly. -/
def ofResponse (render : α → String) (r : MagnitudeResponse α) (reference : Option (Array α)) :
    Outcome α (List (List Char)) := do
  if let some values := reference then
    if values.size ≠ r.size then
      throw (.invalidParameter (.referenceSize values.size r.size))
  return (List.range r.size).map fun index => line (pointFields render r reference index)

def writeTaps (render : α → String) (h : ImpulseResponse α) (sink : Sink) :
    Outcome α Unit × Sink :=
  sink.putAll (ofTaps render h)

/-- Nothing is written if the reference does not fit. -/
def writeResponse (render : α → String) (r : MagnitudeResponse α) (reference : Option (Array α))
    (sink : Sink) : Outcome α Unit × Sink :=
  match ofResponse render r reference with
  | .ok lines => sink.putAll lines
  | .error e => (.error e, sink)

end Listing
end FrequencySampling
