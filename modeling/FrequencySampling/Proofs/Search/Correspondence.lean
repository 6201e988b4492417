import FrequencySampling.Proofs.Search.Questions

/-!
Searches that take the same course over other points and on another scale. What the second search
hears, the first hears on a scale of its own; it asks at points whose places the second asks about,
posts the same notices, and the two results correspond. Related parts make related searches, and
related searches have related runs, question by question.
-/

namespace FrequencySampling.Search

variable {α π κ ρ τ : Type}

/-- The first search does over its points, hearing values on the given scale, what the second does
at their places. -/
inductive Corresponds (place : π → κ) (scale : α → α) (ends : ρ → τ → Prop) :
    Search α π ρ → Search α κ τ → Prop
  | ended {r r'} (h : ends r r') : Corresponds place scale ends (.done (.ok r)) (.done (.ok r'))
  | failed (e) : Corresponds place scale ends (.done (.error e)) (.done (.error e))
  | asks {p next next'} (h : ∀ v, Corresponds place scale ends (next (scale v)) (next' v)) :
      Corresponds place scale ends (.ask p next) (.ask (place p) next')
  | tells {n next next'} (h : Corresponds place scale ends next next') :
      Corresponds place scale ends (.tell n next) (.tell n next')

/-- An objective at the places of other points, its values on another scale. -/
def rescaled {σ : Type} (place : π → κ) (scale : α → α) (answer : κ → σ → Outcome α α × σ) (p : π)
    (s : σ) : Outcome α α × σ :=
  ((answer (place p) s).1.map scale, (answer (place p) s).2)

/-- The same event with its value on another scale. -/
def Event.onScale (scale : α → α) : Event α π → Event α π
  | .asked p a => .asked p (a.map scale)
  | .told n => .told n

theorem points_map_mapPoint (place : π → κ) (es : List (Event α π)) :
    points (es.map (Event.mapPoint place)) = (points es).map place := by
  induction es with
  | nil => rfl
  | cons e es ih =>
      cases e with
      | asked p a => exact congrArg (place p :: ·) ih
      | told n => exact ih

theorem points_map_onScale (scale : α → α) (es : List (Event α π)) :
    points (es.map (Event.onScale scale)) = points es := by
  induction es with
  | nil => rfl
  | cons e es ih =>
      cases e with
      | asked p a => exact congrArg (p :: ·) ih
      | told n => exact ih

namespace Corresponds

variable {place : π → κ} {scale : α → α} {ends : ρ → τ → Prop} {m : Search α π ρ}
  {m' : Search α κ τ}

theorem pure {r : ρ} {r' : τ} (h : ends r r') :
    Corresponds place scale ends (Pure.pure r) (Pure.pure r') :=
  .ended h

theorem ofOutcome (o : Outcome α Unit) :
    Corresponds place scale (fun _ _ => True) (Search.ofOutcome o : Search α π Unit)
      (Search.ofOutcome o : Search α κ Unit) := by
  cases o with
  | ok u => exact .ended trivial
  | error e => exact .failed e

/-- The first search hears on its scale what the second hears. -/
theorem value {p : π} {q : κ} (h : place p = q) :
    Corresponds place scale (fun v v' => v = scale v') (Search.value p) (Search.value q) := by
  subst h
  exact .asks fun v => .ended rfl

theorem bind {ρ' τ' : Type} {ends' : ρ' → τ' → Prop} {k : ρ → Search α π ρ'}
    {k' : τ → Search α κ τ'} (hm : Corresponds place scale ends m m')
    (hk : ∀ r r', ends r r' → Corresponds place scale ends' (k r) (k' r')) :
    Corresponds place scale ends' (m >>= k) (m' >>= k') := by
  induction hm with
  | ended h => exact hk _ _ h
  | failed e => exact .failed e
  | asks _ ih => exact .asks ih
  | tells _ ih => exact .tells ih

/-- Both searches post the notice or neither does. -/
theorem postIf {c c' : Prop} [Decidable c] [Decidable c'] {n : Notice α}
    {k : PUnit → Search α π ρ} {k' : PUnit → Search α κ τ} (hc : c ↔ c')
    (hk : Corresponds place scale ends (k ⟨⟩) (k' ⟨⟩)) :
    Corresponds place scale ends (if c then Search.post n >>= k else k ⟨⟩)
      (if c' then Search.post n >>= k' else k' ⟨⟩) := by
  by_cases h : c
  · rw [if_pos h, if_pos (hc.mp h)]
    exact .tells hk
  · rw [if_neg h, if_neg fun h' => h (hc.mpr h')]
    exact hk

section Run

variable {σ : Type} (answer : κ → σ → Outcome α α × σ) (hear : Notice α → σ → σ)

/-- Both runs end well or both fail for the same reason, and they leave the same state. -/
theorem run (h : Corresponds place scale ends m m') (s : σ) :
    ∃ s', (∃ r r', ends r r' ∧ m.run (rescaled place scale answer) hear s = (.ok r, s') ∧
        m'.run answer hear s = (.ok r', s')) ∨
      ∃ e, m.run (rescaled place scale answer) hear s = (.error e, s') ∧
        m'.run answer hear s = (.error e, s') := by
  induction h generalizing s with
  | ended h => exact ⟨s, .inl ⟨_, _, h, rfl, rfl⟩⟩
  | failed e => exact ⟨s, .inr ⟨e, rfl, rfl⟩⟩
  | @asks p next next' _ ih =>
      simp only [Search.run, rescaled]
      cases answer (place p) s with
      | mk a s'' =>
          cases a with
          | ok v => exact ih v s''
          | error e => exact ⟨s'', .inr ⟨e, rfl, rfl⟩⟩
  | @tells n _ _ _ ih => exact ih (hear n s)

/-- The events are the same ones, up to the places of their points and the scale of their values. -/
theorem events_eq (h : Corresponds place scale ends m m') (s : σ) :
    (m.events (rescaled place scale answer) hear s).map (Event.mapPoint place) =
      (m'.events answer hear s).map (Event.onScale scale) := by
  induction h generalizing s with
  | ended | failed => rfl
  | @asks p next next' _ ih =>
      simp only [Search.events, rescaled]
      cases answer (place p) s with
      | mk a s'' =>
          cases a with
          | ok v => exact congrArg (_ :: ·) (ih v s'')
          | error e => rfl
  | @tells n _ _ _ ih => exact congrArg (_ :: ·) (ih (hear n s))

/-- The second search asks at the places of the points of the first. -/
theorem map_points (h : Corresponds place scale ends m m') (s : σ) :
    (points (m.events (rescaled place scale answer) hear s)).map place =
      points (m'.events answer hear s) := by
  rw [← points_map_mapPoint, h.events_eq answer hear s, points_map_onScale]

end Run
end Corresponds
end FrequencySampling.Search
