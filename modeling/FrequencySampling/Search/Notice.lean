/-!
What a search reports while it runs, in order: the trials it makes, the line searches it finishes
and the points at which it gives up or changes course. Each notice has a level and a text for a log.
-/

namespace FrequencySampling

/-- One evaluation of the objective. -/
structure Trial (α : Type) where
  /-- The coordinate of the search: a transition value or a parameter along a line. -/
  x : α
  /-- The transition samples that were evaluated. -/
  transitions : List α
  objective : α

/-- The result of a line search. -/
structure LineMinimum (α : Type) where
  x : α
  f : α
  converged : Bool
  iterations : Nat
  evaluations : Nat

inductive Notice (α : Type) where
  | trial (trial : Trial α)
  | lineSearchFinished (minimum : LineMinimum α)
  | bracketingExhausted
  | narrowingCapped
  | lineClipped
  | planeIterated (outer : Nat)
  | planeCapped
  | designFinished

inductive LogLevel where
  | trace
  | debug
  | info
  | warn
deriving DecidableEq, Repr

namespace LogLevel

def text : LogLevel → String
  | .trace => "TRACE"
  | .debug => "DEBUG"
  | .info => "INFO"
  | .warn => "WARN"

end LogLevel

namespace Notice

variable {α : Type}

def level : Notice α → LogLevel
  | .trial _ => .trace
  | .lineSearchFinished _ | .lineClipped | .planeIterated _ => .debug
  | .bracketingExhausted | .narrowingCapped | .planeCapped => .warn
  | .designFinished => .info

def text : Notice α → String
  | .trial _ => "objective evaluated"
  | .lineSearchFinished _ => "line search finished"
  | .bracketingExhausted => "bracketing exhausted, continuing from the last trial point"
  | .narrowingCapped => "line search hit its iteration cap"
  | .lineClipped => "search line clipped to the unit square"
  | .planeIterated _ => "direction search iteration"
  | .planeCapped => "direction search stopped at its iteration cap"
  | .designFinished => "filter design finished"

/-- The trial that a notice reports, if it does. -/
def trial? : Notice α → Option (Trial α)
  | .trial t => some t
  | _ => none

/-- The line search that a notice reports as finished, if it does. -/
def lineMinimum? : Notice α → Option (LineMinimum α)
  | .lineSearchFinished m => some m
  | _ => none

end Notice
end FrequencySampling
