import FrequencySampling.Proofs.GoldenSection.Ends
import FrequencySampling.Proofs.Search.Questions

/-!
What a line search brings back is the best of its frame. The minimum was heard at the point that is
reported, and nothing heard from the last bracketing trial on is below it. Earlier values are not
compared with later ones; where that trial beats both ends they need not be, since it then beats
every trial before it as well.
-/

namespace FrequencySampling.GoldenSection

variable {α : Type} [Scalar α]

/-- Once the accepted trial beats both ends, no value that is heard is below a value that is not
above the accepted one. -/
theorem Hears.not_lt_of_le [Scalar.ComparesNumbers α] {params : LineSearchParams α} {lo hi : α}
    {es : List (Search.Event α α)} {left right f : α} {missed : List (α × α)} {accepted : α × α}
    {later : List (α × α)} (h : Hears params lo hi es left right missed accepted later)
    (hbeats : accepted.2 < left ∧ accepted.2 < right) (hf : Scalar.isNaN f = false)
    (hleast : ∀ e ∈ accepted :: later, f ≤ e.2)
    (hnumbers : ∀ e ∈ Search.heard es, Scalar.isNaN e.2 = false) :
    (∀ e ∈ Search.heard es, f ≤ e.2) ∧ f < left ∧ f < right := by
  have haccepted := hleast accepted List.mem_cons_self
  have hleft := Scalar.ComparesNumbers.lt_of_le_of_lt hf haccepted hbeats.1
  have hright := Scalar.ComparesNumbers.lt_of_le_of_lt hf haccepted hbeats.2
  refine ⟨fun e he => ?_, hleft, hright⟩
  have hnumber := hnumbers e he
  rw [h.heard_eq, List.mem_cons, List.mem_cons, List.mem_append] at he
  rcases he with rfl | rfl | hmissed | hkept
  · exact Scalar.ComparesNumbers.le_of_lt hleft
  · exact Scalar.ComparesNumbers.le_of_lt hright
  · refine Scalar.ComparesNumbers.le_of_not_lt hf hnumber fun hlt => ?_
    exact h.missed_trials e hmissed
      ⟨Scalar.OrdersNumbers.lt_trans hlt hleft, Scalar.OrdersNumbers.lt_trans hlt hright⟩
  · exact hleast e hkept

/-- A line search for an objective that never fails and always gives a number. Bracketing accepts
the first trial that beats both ends, or the last one allowed. The minimum was heard at its point
and is the least value from that trial on, and where the trial beats both ends, the least of all. -/
theorem minimize_least [Scalar.ComparesNumbers α] {params : LineSearchParams α} {lo hi : α}
    (hparams : params.check = .ok ()) (hlo : Scalar.isFinite lo = true)
    (hhi : Scalar.isFinite hi = true) (hdomain : ¬ hi ≤ lo) {σ : Type}
    {answer : α → σ → Outcome α α × σ} (hear : Notice α → σ → σ)
    (hanswer : ∀ x s, ∃ v s', answer x s = (.ok v, s') ∧ Scalar.isNaN v = false) (s : σ) :
    ∃ m s' left right missed accepted later,
      (minimize params lo hi).run answer hear s = (.ok m, s') ∧
      Hears params lo hi ((minimize params lo hi).events answer hear s) left right missed accepted
        later ∧
      (m.x, m.f) ∈ accepted :: later ∧ (∀ e ∈ accepted :: later, m.f ≤ e.2) ∧
      (accepted.2 < left ∧ accepted.2 < right →
        (∀ e ∈ Search.heard ((minimize params lo hi).events answer hear s), m.f ≤ e.2) ∧
          m.f < left ∧ m.f < right) := by
  obtain ⟨m, s', hrun, -⟩ := (minimize_ensures hparams hlo hhi hdomain
    fun _ v => Scalar.isNaN v = false).run hear hanswer s
  have htranscript := Search.transcript_events answer hear (minimize params lo hi) s
  rw [hrun] at htranscript
  have hnumbers : ∀ e ∈ Search.heard ((minimize params lo hi).events answer hear s),
      Scalar.isNaN e.2 = false :=
    Search.forall_heard hanswer hear (minimize params lo hi) s
  obtain ⟨left, right, missed, accepted, later, hhears, hmem, hleast⟩ :=
    minimize_hears htranscript hnumbers
  have hheard : (m.x, m.f) ∈ Search.heard ((minimize params lo hi).events answer hear s) := by
    rw [hhears.heard_eq]
    exact List.mem_cons_of_mem _ (List.mem_cons_of_mem _ (List.mem_append_right _ hmem))
  exact ⟨m, s', left, right, missed, accepted, later, hrun, hhears, hmem, hleast, fun hbeats =>
    hhears.not_lt_of_le hbeats (hnumbers _ hheard) hleast hnumbers⟩

/-- A parabola that rises by a hundredth from each call to the next. -/
def risingParabola (x : ℚ) (calls : Nat) : Outcome ℚ ℚ × Nat :=
  (.ok (x * (x - 1) + mkRat calls 100), calls + 1)

/-- The accepted trial beats both ends, so that the minimum is the least value of all. -/
theorem minimize_least_risingParabola :
    ∃ m, ((minimize (⟨mkRat 1 100, 20, 5⟩ : LineSearchParams ℚ) 0 1).run risingParabola
        (fun _ n => n) 0).1 = .ok m ∧
      ∀ e ∈ Search.heard ((minimize (⟨mkRat 1 100, 20, 5⟩ : LineSearchParams ℚ) 0 1).events
        risingParabola (fun _ n => n) 0), m.f ≤ e.2 := by
  have hquiet : ((minimize (⟨mkRat 1 100, 20, 5⟩ : LineSearchParams ℚ) 0 1).events risingParabola
      (fun _ n => n) 0).all Search.Event.isAsked = true := by
    decide +kernel
  obtain ⟨m, s', left, right, missed, accepted, later, hrun, hhears, -, -, hall⟩ :=
    @minimize_least ℚ _ _ ⟨mkRat 1 100, 20, 5⟩ 0 1
      (LineSearchParams.accepts_iff.mpr (by decide +kernel)) rfl rfl (by decide +kernel) Nat
      risingParabola (fun _ n => n) (fun x n => ⟨_, n + 1, rfl, rfl⟩) 0
  have hbeats := not_not.mp (mt hhears.warned_iff.mpr fun htold => by
    cases List.all_eq_true.mp hquiet _ htold)
  exact ⟨m, by rw [hrun], (hall hbeats).1⟩

end FrequencySampling.GoldenSection
