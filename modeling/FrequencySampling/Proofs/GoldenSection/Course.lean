import FrequencySampling.Search.GoldenSection
import FrequencySampling.Proofs.Search.Ensures
import Mathlib.Data.List.Chain

/-!
The frames that a line search goes through. The search itself gives back only the best point of its
last frame, so a variant that also lists the frames stands beside it, equal to it once the list is
dropped. A course relates the frame at which narrowing starts to those that follow; a property of
all of them needs one look at a single step. Nothing here depends on the arithmetic.
-/

namespace FrequencySampling.GoldenSection

variable {α : Type} [Scalar α]

/-- `narrow`, listing the frames after the given one. -/
def narrowFrames (tol : α) : (remaining : Nat) → (made : Nat) → (fr : Frame α) →
    Search α α (Narrowing α × List (Frame α))
  | 0, made, fr => return (⟨fr, made, decide (fr.width ≤ tol)⟩, [])
  | remaining + 1, made, fr =>
    if fr.width ≤ tol then return (⟨fr, made, true⟩, [])
    else do
      let f ← Search.value fr.nextPoint
      let (n, later) ← narrowFrames tol remaining (made + 1) (fr.narrowed f)
      return (n, fr.narrowed f :: later)

/-- `minimize`, listing the frames from the one that narrowing starts from. -/
def minimizeFrames (params : LineSearchParams α) (lo hi : α) :
    Search α α (LineMinimum α × List (Frame α)) := do
  let o ← opening params lo hi
  let (n, later) ← narrowFrames params.tol params.maxIterations 0 o.frame
  let minimum ← conclude o.trials n
  return (minimum, o.frame :: later)

theorem fst_narrowFrames (tol : α) (remaining made : Nat) (fr : Frame α) :
    Prod.fst <$> narrowFrames tol remaining made fr = narrow tol remaining made fr := by
  induction remaining generalizing made fr with
  | zero => rfl
  | succ remaining ih =>
      simp only [narrowFrames, narrow]
      split
      · rfl
      · simp only [← ih, map_bind, bind_pure_comp, Functor.map_map]

theorem fst_minimizeFrames (params : LineSearchParams α) (lo hi : α) :
    Prod.fst <$> minimizeFrames params lo hi = minimize params lo hi := by
  simp only [minimizeFrames, minimize, ← fst_narrowFrames, map_bind, map_pure, bind_map_left,
    bind_pure]

/-- Narrowing from `fr` may end as `n` after going through `later`. -/
inductive Course (answers : α → α → Prop) (tol : α) :
    (remaining made : Nat) → (fr : Frame α) → Narrowing α → List (Frame α) → Prop
  | settled {remaining made fr} (h : fr.width ≤ tol) :
      Course answers tol remaining made fr ⟨fr, made, true⟩ []
  | capped {made fr} (h : ¬ fr.width ≤ tol) : Course answers tol 0 made fr ⟨fr, made, false⟩ []
  | step {remaining made fr f n later} (h : ¬ fr.width ≤ tol) (hf : answers fr.nextPoint f)
      (rest : Course answers tol remaining (made + 1) (fr.narrowed f) n later) :
      Course answers tol (remaining + 1) made fr n (fr.narrowed f :: later)

variable {answers : α → α → Prop} {tol : α} {remaining made : Nat} {fr : Frame α}
  {n : Narrowing α} {later : List (Frame α)}

theorem narrowFrames_ensures (tol : α) (remaining made : Nat) (fr : Frame α) :
    (narrowFrames tol remaining made fr).Ensures answers fun r =>
      Course answers tol remaining made fr r.1 r.2 := by
  induction remaining generalizing made fr with
  | zero =>
      refine Search.Ensures.pure ?_
      by_cases h : fr.width ≤ tol
      · simp only [h, decide_true]
        exact .settled h
      · simp only [h, decide_false]
        exact .capped h
  | succ remaining ih =>
      simp only [narrowFrames]
      split
      · rename_i h
        exact Search.Ensures.pure (.settled h)
      · rename_i h
        refine Search.Ensures.value.bind fun f hf => ?_
        refine (ih (made + 1) (fr.narrowed f)).bind fun r hr => ?_
        exact Search.Ensures.pure (.step h hf hr)

namespace Course

theorem iterations_eq (h : Course answers tol remaining made fr n later) :
    n.iterations = made + later.length := by
  induction h with
  | settled | capped => rfl
  | step _ _ _ ih =>
      rw [ih, List.length_cons]
      omega

theorem converged_iff (h : Course answers tol remaining made fr n later) :
    n.converged = true ↔ n.frame.width ≤ tol := by
  induction h with
  | settled h => simp [h]
  | capped h => simp [h]
  | step _ _ _ ih => exact ih

theorem capped_of_not_converged (h : Course answers tol remaining made fr n later)
    (hn : n.converged = false) : n.iterations = made + remaining := by
  induction h with
  | settled => cases hn
  | capped => rfl
  | step _ _ _ ih =>
      rw [ih hn]
      omega

theorem getElem?_length (h : Course answers tol remaining made fr n later) :
    (fr :: later)[later.length]? = some n.frame := by
  induction h with
  | settled | capped => rfl
  | step _ _ _ ih => exact ih

theorem getLast?_eq (h : Course answers tol remaining made fr n later) :
    (fr :: later).getLast? = some n.frame := by
  rw [List.getLast?_eq_getElem?]
  exact h.getElem?_length

/-- Narrowing goes on from every frame but the last, so none of them is within the tolerance. -/
theorem wide (h : Course answers tol remaining made fr n later) :
    ∀ (k : Nat) (visited : Frame α), (fr :: later)[k]? = some visited → k < later.length →
      ¬ visited.width ≤ tol := by
  induction h with
  | settled | capped =>
      intro k visited _ hk
      exact absurd hk (Nat.not_lt_zero k)
  | step hw _ _ ih =>
      intro k visited hat hk
      cases k with
      | zero =>
          cases hat
          exact hw
      | succ k => exact ih k visited hat (Nat.lt_of_succ_lt_succ hk)

theorem length_le_of_width_le (h : Course answers tol remaining made fr n later) {k : Nat}
    (hk : ∀ visited, (fr :: later)[k]? = some visited → visited.width ≤ tol) :
    later.length ≤ k := by
  refine Nat.le_of_not_lt fun hlt => ?_
  have hin : k < (fr :: later).length := Nat.lt_succ_of_lt hlt
  have hat : (fr :: later)[k]? = some (fr :: later)[k] := List.getElem?_eq_getElem hin
  exact h.wide k _ hat hlt (hk _ hat)

/-- What one step carries from a frame to the next holds of the frame at every position. -/
theorem invariant {I : Nat → Frame α → Prop}
    (carries : ∀ k fr f, I k fr → answers fr.nextPoint f → I (k + 1) (fr.narrowed f))
    (h : Course answers tol remaining made fr n later) {k : Nat} (h0 : I k fr) :
    ∀ (i : Nat) (visited : Frame α), (fr :: later)[i]? = some visited → I (k + i) visited := by
  induction h generalizing k with
  | settled | capped =>
      intro i visited hat
      cases i with
      | zero =>
          cases hat
          exact h0
      | succ i => cases hat
  | step _ hf _ ih =>
      intro i visited hat
      cases i with
      | zero =>
          cases hat
          exact h0
      | succ i =>
          have hi := ih (carries k _ _ h0 hf) i visited hat
          rwa [Nat.add_assoc, Nat.add_comm 1 i] at hi

theorem invariant_mem {I : Frame α → Prop}
    (carries : ∀ fr f, I fr → answers fr.nextPoint f → I (fr.narrowed f))
    (h : Course answers tol remaining made fr n later) (h0 : I fr) :
    ∀ visited ∈ fr :: later, I visited := by
  intro visited hmem
  obtain ⟨i, hi⟩ := List.getElem?_of_mem hmem
  exact h.invariant (I := fun _ => I) (k := 0) (fun _ => carries) h0 i visited hi

/-- What one step does between a frame and the next holds between neighbours. -/
theorem isChain {I : Frame α → Prop} {R : Frame α → Frame α → Prop}
    (carries : ∀ fr f, I fr → answers fr.nextPoint f → I (fr.narrowed f) ∧ R fr (fr.narrowed f))
    (h : Course answers tol remaining made fr n later) (h0 : I fr) :
    (fr :: later).IsChain R := by
  induction h with
  | settled | capped => exact List.isChain_singleton _
  | step _ hf _ ih =>
      obtain ⟨hI, hR⟩ := carries _ _ h0 hf
      exact List.isChain_cons_cons.mpr ⟨hR, ih hI⟩

end Course

/-- The inner values of a frame are answers at its inner points. -/
structure Frame.Answered (answers : α → α → Prop) (fr : Frame α) : Prop where
  first : answers fr.x1 fr.f1
  second : answers fr.x2 fr.f2

theorem Frame.Answered.narrowed {f : α} (h : fr.Answered answers) (hf : answers fr.nextPoint f) :
    (fr.narrowed f).Answered answers := by
  unfold Frame.narrowed
  split
  · exact ⟨hf, h.first⟩
  · exact ⟨h.second, hf⟩

/-- What is returned once narrowing has ended. -/
def Narrowing.minimum (trials : Nat) (n : Narrowing α) : LineMinimum α :=
  ⟨n.frame.best.1, n.frame.best.2, n.converged, n.iterations, 3 + trials + n.iterations⟩

theorem conclude_ensures (trials : Nat) (n : Narrowing α) :
    (conclude trials n).Ensures answers fun minimum => minimum = n.minimum trials := by
  unfold conclude Narrowing.minimum
  cases n.converged with
  | true => exact rfl
  | false => exact rfl

/-- What holds of the opening, and the course that follows it, in every run without failures. -/
theorem run_minimizeFrames {params : LineSearchParams α} {lo hi : α} {start : Opening α → Prop}
    (hstart : (opening params lo hi).Ensures answers start) {σ : Type}
    {answer : α → σ → Outcome α α × σ} (hear : Notice α → σ → σ)
    (hanswer : ∀ p s, ∃ v s', answer p s = (.ok v, s') ∧ answers p v) (s : σ) :
    ∃ o n later s', start o ∧
      Course answers params.tol params.maxIterations 0 o.frame n later ∧
      (minimizeFrames params lo hi).run answer hear s =
        (.ok (n.minimum o.trials, o.frame :: later), s') ∧
      (minimize params lo hi).run answer hear s = (.ok (n.minimum o.trials), s') := by
  have hframes : (minimizeFrames params lo hi).Ensures answers fun r => ∃ o n later, start o ∧
      Course answers params.tol params.maxIterations 0 o.frame n later ∧
      r = (n.minimum o.trials, o.frame :: later) := by
    refine hstart.bind fun o ho => ?_
    refine (narrowFrames_ensures params.tol params.maxIterations 0 o.frame).bind fun r hr => ?_
    refine (conclude_ensures o.trials r.1).bind fun minimum hm => ?_
    exact Search.Ensures.pure ⟨o, r.1, r.2, ho, hr, by rw [hm]⟩
  obtain ⟨r, s', hrun, o, n, later, ho, hcourse, rfl⟩ := hframes.run hear hanswer s
  refine ⟨o, n, later, s', ho, hcourse, hrun, ?_⟩
  rw [← fst_minimizeFrames]
  exact Search.run_map answer hear hrun

end FrequencySampling.GoldenSection
