import FrequencySampling.Search.Basic

/-!
What a search is bound to do, whatever it hears. A contract names the answers a point may get and
what holds of the result; it speaks of the tree alone, and transfers to every run whose objective
gives such answers. The laws of the monad let two searches be compared before either is run.
-/

namespace FrequencySampling.Search

variable {α π ρ τ : Type}

private theorem bind_done (m : Search α π ρ) : (m.bind fun r => .done (.ok r)) = m := by
  induction m with
  | done r => cases r <;> rfl
  | ask p next ih => exact congrArg (ask p) (funext ih)
  | tell n next ih => exact congrArg (tell n) ih

private theorem bind_bind {κ : Type} (m : Search α π ρ) (f : ρ → Search α π τ)
    (g : τ → Search α π κ) : (m.bind f).bind g = m.bind fun r => (f r).bind g := by
  induction m with
  | done r => cases r <;> rfl
  | ask p next ih => exact congrArg (ask p) (funext ih)
  | tell n next ih => exact congrArg (tell n) ih

instance : LawfulMonad (Search α π) :=
  LawfulMonad.mk' _ bind_done (fun _ _ => rfl) bind_bind

section Run

variable {σ : Type} (answer : π → σ → Outcome α α × σ) (hear : Notice α → σ → σ)

theorem run_bind (m : Search α π ρ) (k : ρ → Search α π τ) (s : σ) :
    (m >>= k).run answer hear s =
      match m.run answer hear s with
      | (.ok r, s) => (k r).run answer hear s
      | (.error e, s) => (.error e, s) := by
  induction m generalizing s with
  | done r => cases r <;> rfl
  | ask p next ih =>
      have hbind : ask p next >>= k = ask p fun v => next v >>= k := rfl
      rw [hbind]
      simp only [run]
      cases answer p s with
      | mk v s =>
          cases v with
          | ok v => exact ih v s
          | error e => rfl
  | tell n next ih => exact ih (hear n s)

theorem run_map {f : ρ → τ} {m : Search α π ρ} {s s' : σ} {r : ρ}
    (h : m.run answer hear s = (.ok r, s')) :
    (f <$> m).run answer hear s = (.ok (f r), s') := by
  rw [map_eq_pure_bind, run_bind, h]
  rfl

end Run

/-- No failure is reached on such answers, and every result is as promised. -/
def Ensures (answers : π → α → Prop) (post : ρ → Prop) : Search α π ρ → Prop
  | .done (.ok r) => post r
  | .done (.error _) => False
  | .ask p next => ∀ v, answers p v → (next v).Ensures answers post
  | .tell _ next => next.Ensures answers post

namespace Ensures

variable {answers : π → α → Prop} {post : ρ → Prop} {post' : τ → Prop} {m : Search α π ρ}

theorem pure {r : ρ} (h : post r) : (Pure.pure r : Search α π ρ).Ensures answers post :=
  h

theorem value {p : π} : (Search.value p).Ensures answers (answers p) :=
  fun _ h => h

theorem bind {k : ρ → Search α π τ} (hm : m.Ensures answers post)
    (hk : ∀ r, post r → (k r).Ensures answers post') : (m >>= k).Ensures answers post' := by
  induction m with
  | done r =>
      cases r with
      | ok r => exact hk r hm
      | error e => exact hm.elim
  | ask p next ih =>
      intro v hv
      exact ih v (hm v hv)
  | tell n next ih => exact ih hm

/-- A contract holds of every run whose objective answers within it. -/
theorem run {σ : Type} {answer : π → σ → Outcome α α × σ} (h : m.Ensures answers post)
    (hear : Notice α → σ → σ)
    (hanswer : ∀ p s, ∃ v s', answer p s = (.ok v, s') ∧ answers p v) (s : σ) :
    ∃ r s', m.run answer hear s = (.ok r, s') ∧ post r := by
  induction m generalizing s with
  | done r =>
      cases r with
      | ok r => exact ⟨r, s, rfl, h⟩
      | error e => exact h.elim
  | ask p next ih =>
      obtain ⟨v, s', hv, hp⟩ := hanswer p s
      simp only [Search.run, hv]
      exact ih v (h v hp) s'
  | tell n next ih => exact ih h (hear n s)

end Ensures
end FrequencySampling.Search
