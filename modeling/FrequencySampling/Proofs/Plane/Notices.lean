import FrequencySampling.Proofs.GoldenSection.Contract
import FrequencySampling.Search.Plane

/-!
Searches do not report trials. They post what they find and where they give up; a trial is reported
by the objective alone, once it was evaluated.
-/

namespace FrequencySampling

variable {α π κ ρ τ : Type}

namespace Search

/-- Anything may be asked and any notice posted, except a trial. -/
def silentTerms (α π : Type) : Terms α π where
  tells n := n.trial? = none

/-- The search leaves it to its objective to report trials. -/
def Silent (m : Search α π ρ) : Prop :=
  m.Obeys (silentTerms α π) fun _ => True

namespace Silent

theorem pure (r : ρ) : (Pure.pure r : Search α π ρ).Silent :=
  trivial

theorem fail (e : DesignError α) : (Search.fail e : Search α π ρ).Silent :=
  trivial

theorem ofOutcome (r : Outcome α ρ) : (Search.ofOutcome r : Search α π ρ).Silent := by
  cases r <;> trivial

theorem post_notice {n : Notice α} (h : n.trial? = none) :
    (Search.post n : Search α π Unit).Silent :=
  Obeys.post_notice h

theorem bind {m : Search α π ρ} {k : ρ → Search α π τ} (hm : m.Silent) (hk : ∀ r, (k r).Silent) :
    (m >>= k).Silent :=
  Obeys.bind hm fun r _ => hk r

theorem mapPoints {m : Search α π ρ} (hm : m.Silent) (place : π → κ) :
    (m.mapPoints place).Silent :=
  Obeys.mapPoints (t := silentTerms α κ) hm

end Silent
end Search

variable [Scalar α]

theorem GoldenSection.minimize_silent (params : LineSearchParams α) (lo hi : α) :
    (minimize params lo hi).Silent := by
  refine ((minimize_answered (fun _ _ => True) params lo hi).weaken (fun _ _ => trivial)
    (fun _ _ _ => trivial) (fun n hn => ?_) fun _ _ => trivial).mono fun _ _ => trivial
  rcases hn with rfl | rfl <;> rfl

namespace PlaneSearch

theorem along_silent (params : LineSearchParams α) (line : SlotLine α) (lo hi : α) :
    (along params line lo hi).Silent := by
  refine ((GoldenSection.minimize_silent params lo hi).mapPoints _).bind fun m => ?_
  exact (Search.Silent.post_notice rfl).bind fun _ => Search.Silent.pure m

theorem iterate_silent (params : LineSearchParams α) (direction : PlaneSearchParams α)
    (outer : Nat) (y : α) : (iterate params direction outer y).Silent := by
  unfold iterate
  refine (along_silent params _ 0 1).bind fun m1 => ?_
  refine (along_silent params _ 0 1).bind fun m2 => ?_
  refine Search.Obeys.guard (fun _ => trivial) fun _ => ?_
  dsimp only
  split
  · exact Search.Silent.fail _
  · refine Search.Obeys.postIf rfl ?_
    refine (along_silent params _ _ _).bind fun third => ?_
    exact (Search.Silent.post_notice rfl).bind fun _ => Search.Silent.pure _

theorem descend_silent (params : LineSearchParams α) (direction : PlaneSearchParams α)
    (rippleTol : α) (remaining outer : Nat) (y previous : α) (best : Option (Vertex α)) :
    (descend params direction rippleTol remaining outer y previous best).Silent := by
  induction remaining generalizing outer y previous best with
  | zero => exact (iterate_silent params direction outer y).bind fun v => Search.Silent.pure _
  | succ remaining ih =>
      refine (iterate_silent params direction outer y).bind fun v => ?_
      split
      · exact Search.Silent.pure _
      · exact ih (outer + 1) v.y v.objective (some (better best v))

theorem search_silent (params : LineSearchParams α) (direction : PlaneSearchParams α)
    (transitions : Nat) : (search params direction transitions).Silent := by
  unfold search
  refine (Search.Silent.ofOutcome _).bind fun _ => ?_
  refine (Search.Silent.ofOutcome _).bind fun _ => ?_
  refine Search.Obeys.guard (fun _ => trivial) fun _ => ?_
  refine (descend_silent params direction _ _ 1 _ _ none).bind fun d => ?_
  exact Search.Obeys.postIf rfl (Search.Silent.pure d)

end PlaneSearch
end FrequencySampling
