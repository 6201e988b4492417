import FrequencySampling.DesignError
import FrequencySampling.Search.Notice

/-!
Searches as strategies. A search knows its objective only by asking for values at points, one at a
time, and what it asks next depends on the answers alone; on the way it may post notices. So a
search is a tree, and running it against any objective, stateful or failing, is one recursion.
-/

namespace FrequencySampling

/-- A strategy that asks for values of type `α` at points of type `π` and ends with a `ρ`. -/
inductive Search (α π ρ : Type) where
  | done (result : Outcome α ρ)
  | ask (point : π) (next : α → Search α π ρ)
  | tell (notice : Notice α) (next : Search α π ρ)

namespace Search

variable {α π ρ : Type}

def bind {τ : Type} : Search α π ρ → (ρ → Search α π τ) → Search α π τ
  | .done (.ok r), k => k r
  | .done (.error e), _ => .done (.error e)
  | .ask p next, k => .ask p fun v => (next v).bind k
  | .tell n next, k => .tell n (next.bind k)

instance : Monad (Search α π) where
  pure r := .done (.ok r)
  bind := bind

/-- Ends a search without a result. -/
def fail (e : DesignError α) : Search α π ρ :=
  .done (.error e)

/-- The value at a point. -/
def value (p : π) : Search α π α :=
  .ask p fun v => .done (.ok v)

def post (n : Notice α) : Search α π Unit :=
  .tell n (.done (.ok ()))

def ofOutcome (r : Outcome α ρ) : Search α π ρ :=
  .done r

/-- The same strategy over other points. -/
def mapPoints {κ : Type} (place : π → κ) : Search α π ρ → Search α κ ρ
  | .done r => .done r
  | .ask p next => .ask (place p) fun v => (next v).mapPoints place
  | .tell n next => .tell n (next.mapPoints place)

/-- Runs a strategy. `answer` evaluates the objective, which may change the state and may fail, and
ends the run if it does; `hear` takes the notices. -/
def run {σ : Type} (answer : π → σ → Outcome α α × σ) (hear : Notice α → σ → σ) :
    Search α π ρ → σ → Outcome α ρ × σ
  | .done r, s => (r, s)
  | .ask p next, s =>
    match answer p s with
    | (.ok v, s) => run answer hear (next v) s
    | (.error e, s) => (.error e, s)
  | .tell n next, s => run answer hear next (hear n s)

end Search
end FrequencySampling
