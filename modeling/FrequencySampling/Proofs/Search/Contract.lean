import FrequencySampling.Proofs.Search.Ensures

/-!
Contracts for searches that may fail. The terms bind both sides: the search keeps to certain points,
notices and errors as long as the answers it hears are of a certain kind. A contract says nothing of
whether the search ends well; where it may not fail at all it gives the stronger promise as well.
-/

namespace FrequencySampling.Search

variable {α π κ ρ τ : Type}

/-- What may pass between a search and its surroundings; by default, anything. -/
structure Terms (α π : Type) where
  asks : π → Prop := fun _ => True
  answers : π → α → Prop := fun _ _ => True
  tells : Notice α → Prop := fun _ => True
  fails : DesignError α → Prop := fun _ => True

/-- The terms that a search over other points has to keep for its image to keep these. -/
def Terms.comap (t : Terms α κ) (place : π → κ) : Terms α π where
  asks p := t.asks (place p)
  answers p := t.answers (place p)
  tells := t.tells
  fails := t.fails

/-- The search keeps to the terms, and every result is as promised. -/
def Obeys (t : Terms α π) (gives : ρ → Prop) : Search α π ρ → Prop
  | .done (.ok r) => gives r
  | .done (.error e) => t.fails e
  | .ask p next => t.asks p ∧ ∀ v, t.answers p v → (next v).Obeys t gives
  | .tell n next => t.tells n ∧ next.Obeys t gives

namespace Obeys

variable {t : Terms α π} {gives gives' : ρ → Prop} {m : Search α π ρ}

theorem pure {r : ρ} (h : gives r) : (Pure.pure r : Search α π ρ).Obeys t gives :=
  h

theorem fail {e : DesignError α} (h : t.fails e) : (Search.fail e : Search α π ρ).Obeys t gives :=
  h

theorem ofOutcome {r : Outcome α ρ} (hfails : ∀ e, r = .error e → t.fails e) :
    (Search.ofOutcome r : Search α π ρ).Obeys t fun x => r = .ok x := by
  cases r with
  | ok x => exact rfl
  | error e => exact hfails e rfl

theorem value {p : π} (h : t.asks p) : (Search.value p).Obeys t (t.answers p) :=
  ⟨h, fun _ hv => hv⟩

theorem post_notice {n : Notice α} (h : t.tells n) :
    (Search.post n : Search α π Unit).Obeys t fun _ => True :=
  ⟨h, trivial⟩

theorem mono (hm : m.Obeys t gives) (h : ∀ r, gives r → gives' r) : m.Obeys t gives' := by
  induction m with
  | done r =>
      cases r with
      | ok r => exact h r hm
      | error e => exact hm
  | ask p next ih => exact ⟨hm.1, fun v hv => ih v (hm.2 v hv)⟩
  | tell n next ih => exact ⟨hm.1, ih hm.2⟩

/-- Terms that allow more and may assume as much. -/
theorem weaken {t' : Terms α π} (hm : m.Obeys t gives) (hasks : ∀ p, t.asks p → t'.asks p)
    (hanswers : ∀ p v, t'.answers p v → t.answers p v) (htells : ∀ n, t.tells n → t'.tells n)
    (hfails : ∀ e, t.fails e → t'.fails e) : m.Obeys t' gives := by
  induction m with
  | done r =>
      cases r with
      | ok r => exact hm
      | error e => exact hfails e hm
  | ask p next ih => exact ⟨hasks p hm.1, fun v hv => ih v (hm.2 v (hanswers p v hv))⟩
  | tell n next ih => exact ⟨htells n hm.1, ih hm.2⟩

theorem bind {promised : τ → Prop} {k : ρ → Search α π τ} (hm : m.Obeys t gives)
    (hk : ∀ r, gives r → (k r).Obeys t promised) : (m >>= k).Obeys t promised := by
  induction m with
  | done r =>
      cases r with
      | ok r => exact hk r hm
      | error e => exact hm
  | ask p next ih => exact ⟨hm.1, fun v hv => ih v (hm.2 v hv)⟩
  | tell n next ih => exact ⟨hm.1, ih hm.2⟩

/-- Ending the search on a condition, before the rest of it. -/
theorem guard {c : Prop} [Decidable c] {e : DesignError α} {k : PUnit → Search α π ρ}
    (h : c → t.fails e) (hk : ¬ c → (k ⟨⟩).Obeys t gives) :
    (if c then Search.fail e >>= k else k ⟨⟩).Obeys t gives := by
  split
  · rename_i hc
    exact h hc
  · rename_i hc
    exact hk hc

/-- Posting a notice on a condition, before the rest of the search. -/
theorem postIf {c : Prop} [Decidable c] {n : Notice α} {k : PUnit → Search α π ρ}
    (h : t.tells n) (hk : (k ⟨⟩).Obeys t gives) :
    (if c then Search.post n >>= k else k ⟨⟩).Obeys t gives := by
  split
  · exact ⟨h, hk⟩
  · exact hk

theorem mapPoints {t : Terms α κ} {place : π → κ} (hm : m.Obeys (t.comap place) gives) :
    (m.mapPoints place).Obeys t gives := by
  induction m with
  | done r =>
      cases r with
      | ok r => exact hm
      | error e => exact hm
  | ask p next ih => exact ⟨hm.1, fun v hv => ih v (hm.2 v hv)⟩
  | tell n next ih => exact ⟨hm.1, ih hm.2⟩

/-- A run that ends well keeps the promise, and any invariant of its state under which the answers
are as agreed. -/
theorem run {σ : Type} {answer : π → σ → Outcome α α × σ} {hear : Notice α → σ → σ}
    (hm : m.Obeys t gives) (keeps : σ → Prop)
    (hanswer : ∀ p v s s', keeps s → answer p s = (.ok v, s') → t.answers p v ∧ keeps s')
    (hhear : ∀ n s, keeps s → t.tells n → keeps (hear n s)) {s s' : σ} {r : ρ} (hs : keeps s)
    (h : m.run answer hear s = (.ok r, s')) : gives r ∧ keeps s' := by
  induction m generalizing s with
  | done o =>
      cases h
      exact ⟨hm, hs⟩
  | ask p next ih =>
      rw [Search.run] at h
      cases hp : answer p s with
      | mk a s'' =>
          rw [hp] at h
          cases a with
          | error e => cases h
          | ok v =>
              obtain ⟨hv, hs''⟩ := hanswer p v s s'' hs hp
              exact ih v (hm.2 v hv) hs'' h
  | tell n next ih => exact ih hm.2 (hhear n s hs hm.1) h

/-- Where the terms leave no error, no failure is reached. -/
theorem ensures (hm : m.Obeys t gives) (hfails : ∀ e, ¬ t.fails e) :
    m.Ensures t.answers gives := by
  induction m with
  | done r =>
      cases r with
      | ok r => exact hm
      | error e => exact hfails e hm
  | ask p next ih => exact fun v hv => ih v (hm.2 v hv)
  | tell n next ih => exact ih hm.2

end Obeys
end FrequencySampling.Search
