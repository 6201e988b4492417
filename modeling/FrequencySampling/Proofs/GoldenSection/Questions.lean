import FrequencySampling.Proofs.GoldenSection.Ends
import FrequencySampling.Proofs.GoldenSection.Frames
import FrequencySampling.Proofs.Search.Questions

/-!
Where a line search asks and how often. Its parameters and its interval are looked at before the
first question. After the two ends come the trials, each closer to the end they approach, then the
second inner point of the frame and one point for each narrowing; the result counts them all. In
exact arithmetic all but the ends are between the ends.
-/

namespace FrequencySampling

theorem LineSearchParams.fault_of_check {α : Type} [Scalar α] {params : LineSearchParams α}
    {e : DesignError α} (h : params.check = .error e) : ∃ fault, e = .invalidParameter fault := by
  unfold check at h
  split_ifs at h <;> cases h <;> exact ⟨_, rfl⟩

namespace GoldenSection

variable {α : Type} [Scalar α]

/-- The parameters pass their check, and the interval is finite and not empty. -/
structure Admissible (params : LineSearchParams α) (lo hi : α) : Prop where
  check_eq : params.check = .ok ()
  lo_finite : Scalar.isFinite lo = true
  hi_finite : Scalar.isFinite hi = true
  lo_lt : ¬ hi ≤ lo

theorem minimize_of_not_admissible {params : LineSearchParams α} {lo hi : α}
    (h : ¬ Admissible params lo hi) :
    ∃ fault, minimize params lo hi = .done (.error (.invalidParameter fault)) := by
  cases hcheck : params.check with
  | error e =>
      obtain ⟨fault, rfl⟩ := LineSearchParams.fault_of_check hcheck
      refine ⟨fault, ?_⟩
      unfold minimize opening
      rw [hcheck]
      rfl
  | ok u =>
      have hempty : !Scalar.isFinite lo ∨ !Scalar.isFinite hi ∨ hi ≤ lo := by
        by_contra hnot
        simp only [not_or, Bool.not_eq_true', Bool.not_eq_false] at hnot
        exact h ⟨hcheck, hnot.1, hnot.2.1, hnot.2.2⟩
      refine ⟨.emptyDomain lo hi, ?_⟩
      unfold minimize opening
      rw [hcheck, if_pos hempty]
      rfl

/-- How far a bracketing trial on an interval of the given length is from the end it approaches. -/
def trialDistance : Nat → α → α
  | 0, span => span * smallPart
  | k + 1, span => trialDistance k (span * smallPart)

/-- Where the bracketing trials are made, for the values at the ends. -/
def trialPoints (lo hi left right : α) (trials : Nat) : List α :=
  (List.range trials).map fun k =>
    if left < right then lo + trialDistance k (hi - lo) else hi - trialDistance k (hi - lo)

variable {es : List (Search.Event α α)} {params : LineSearchParams α} {lo hi : α}

theorem bracket_points {trialAt : α → α} {target : α} {remaining : Nat} {step : α}
    {last b : Bracket α}
    (h : Search.Transcript (bracket trialAt target remaining step last) es (.ok b)) :
    ∃ trials ≤ remaining, (remaining ≠ 0 → 1 ≤ trials) ∧
      Search.points es = (List.range trials).map fun k => trialAt (trialDistance k step) := by
  induction remaining generalizing es step last with
  | zero =>
      obtain ⟨rfl, -⟩ := h.of_pure
      exact ⟨0, le_rfl, fun h => absurd rfl h, rfl⟩
  | succ remaining ih =>
      obtain ⟨_, f, rest, hvalue, hrest, rfl⟩ := Search.Transcript.of_bind h
      rw [hvalue.of_value]
      split at hrest
      · obtain ⟨rfl, -⟩ := hrest.of_pure
        exact ⟨1, by omega, fun _ => le_rfl, rfl⟩
      · obtain ⟨trials, hle, -, hpoints⟩ := ih hrest
        refine ⟨trials + 1, by omega, fun _ => by omega, ?_⟩
        rw [Search.points_append, hpoints, List.range_succ_eq_map, List.map_cons, List.map_map]
        rfl

theorem narrow_iterations_le {tol : α} {remaining made : Nat} {fr : Frame α} {n : Narrowing α}
    (h : Search.Transcript (narrow tol remaining made fr) es (.ok n)) :
    n.iterations ≤ made + remaining := by
  induction remaining generalizing es made fr with
  | zero =>
      obtain ⟨-, hn⟩ := h.of_pure
      cases hn
      exact le_rfl
  | succ remaining ih =>
      simp only [narrow] at h
      split at h
      · obtain ⟨-, hn⟩ := h.of_pure
        cases hn
        exact Nat.le_add_right _ _
      · obtain ⟨_, f, rest, -, hrest, -⟩ := Search.Transcript.of_bind h
        have hle := ih hrest
        omega

theorem opening_questions {o : Opening α}
    (h : Search.Transcript (opening params lo hi) es (.ok o)) :
    ∃ left right trials b inner, params.maxBracketSteps ≠ 0 ∧
      Search.Transcript (bracket
        (fun step => if decide (left < right) then lo + step else hi - step)
        (if decide (left < right) then left else right) params.maxBracketSteps (hi - lo)
        ⟨lo, left, 0, false⟩) trials (.ok b) ∧
      o = ⟨⟨lo, b.point, b.point + smallPart * (hi - b.point), hi, b.value, inner⟩, b.trials⟩ ∧
      Search.questions es = (lo, .ok left) :: (hi, .ok right) :: (Search.questions trials ++
        [(b.point + smallPart * (hi - b.point), .ok inner)]) := by
  obtain ⟨left, right, trials, b, inner, hsteps, hb, hes, ho⟩ := opening_events h
  refine ⟨left, right, trials, b, inner, hsteps, hb, ho, ?_⟩
  rw [hes]
  simp only [Search.questions_asked, Search.questions_append, Search.questions_told_if]
  rfl

theorem minimize_parts {m : LineMinimum α}
    (h : Search.Transcript (minimize params lo hi) es (.ok m)) :
    ∃ opened o narrowed n, Search.Transcript (opening params lo hi) opened (.ok o) ∧
      Search.Transcript (narrow params.tol params.maxIterations 0 o.frame) narrowed (.ok n) ∧
      m = n.minimum o.trials ∧
      Search.questions es = Search.questions opened ++ Search.questions narrowed := by
  obtain ⟨opened, o, narrowed, n, ho, hn, hm, hes⟩ := minimize_events h
  refine ⟨opened, o, narrowed, n, ho, hn, hm, ?_⟩
  rw [hes, Search.questions_append, Search.questions_append, Search.questions_told_if,
    List.append_nil]

/-- The questions of a line search that ends well. Those after the ends are in the given region. -/
structure Counted (inside : α → Prop) (params : LineSearchParams α) (lo hi : α)
    (es : List (Search.Event α α)) (m : LineMinimum α) (trials : Nat) : Prop where
  trials_pos : 1 ≤ trials
  trials_le : trials ≤ params.maxBracketSteps
  iterations_le : m.iterations ≤ params.maxIterations
  evaluations_eq : m.evaluations = 3 + trials + m.iterations
  length_eq : (Search.questions es).length = m.evaluations
  points_eq : ∃ left right inner later,
    (Search.questions es).take 2 = [(lo, .ok left), (hi, .ok right)] ∧
    Search.points es = lo :: hi :: (trialPoints lo hi left right trials ++ inner :: later)
  inside_later : ∀ q ∈ (Search.questions es).drop 2, inside q.1

theorem minimize_counted {m : LineMinimum α} {inside : α → Prop}
    (h : Search.Transcript (minimize params lo hi) es (.ok m))
    (hinside : ∀ q ∈ (Search.questions es).drop 2, inside q.1) :
    ∃ trials, Counted inside params lo hi es m trials := by
  have hevaluations := minimize_count h
  obtain ⟨opened, o, narrowed, n, ho, hn, hm, hes⟩ := minimize_parts h
  obtain ⟨left, right, trials, b, inner, hsteps, hb, hopening, hopened⟩ := opening_questions ho
  obtain ⟨count, hle, hpos, hpoints⟩ := bracket_points hb
  have htrials : o.trials = count := by
    have hasked : b.trials = 0 + _ := bracket_count hb
    rw [hopening, hasked, Nat.zero_add, ← Search.length_questions, ← List.length_map Prod.fst]
    exact (congrArg List.length hpoints).trans (by simp)
  have hall : Search.points es = lo :: hi :: (trialPoints lo hi left right count ++
      (b.point + smallPart * (hi - b.point)) :: Search.points narrowed) := by
    have hpoints : Search.points trials = trialPoints lo hi left right count := by
      simpa only [trialPoints, decide_eq_true_eq] using hpoints
    rw [Search.points, hes, hopened, ← hpoints]
    simp [Search.points]
  refine ⟨count, hpos hsteps, hle, ?_, ?_, ?_, ⟨left, right, _, _, ?_, hall⟩, hinside⟩
  · have hiterations := narrow_iterations_le hn
    rw [hm]
    exact hiterations.trans (by omega)
  · rw [hm, Narrowing.minimum, htrials]
  · rw [Search.length_questions, hevaluations]
  · rw [hes, hopened]
    rfl

theorem admissible_of_transcript {m : LineMinimum α}
    (h : Search.Transcript (minimize params lo hi) es (.ok m)) : Admissible params lo hi := by
  by_contra hnot
  obtain ⟨fault, hfails⟩ := minimize_of_not_admissible hnot
  rw [hfails] at h
  cases h

section Exact

variable {params : LineSearchParams ℝ} {lo hi : ℝ} {es : List (Search.Event ℝ ℝ)}

/-- Only points between the ends are asked about. -/
def betweenEnds (lo hi : ℝ) : Search.Terms ℝ ℝ where
  asks x := lo < x ∧ x < hi

theorem bracket_asks_between (hlt : lo < hi) {fromLeft : Bool} {target : ℝ} {remaining : ℕ}
    (hremaining : remaining ≠ 0) {last : Bracket ℝ} {r : Outcome ℝ (Bracket ℝ)}
    (h : Search.Transcript (bracket (fun step => if fromLeft then lo + step else hi - step)
      target remaining (hi - lo) last) es r) :
    ∀ q ∈ Search.questions es, lo < q.1 ∧ q.1 < hi := by
  obtain ⟨steps, hspan, hsteps⟩ := (covers_interval hlt).trial
  have hnext : ∀ d, steps d → steps (d * smallPart) ∧
      (betweenEnds lo hi).asks
        (if fromLeft then lo + d * smallPart else hi - d * smallPart) := by
    intro d hd
    obtain ⟨hnext, hlo, hhi⟩ := hsteps d hd
    refine ⟨hnext, ?_⟩
    split
    · exact hlo
    · exact hhi
  have hobeys : (bracket (fun step => if fromLeft then lo + step else hi - step) target remaining
      (hi - lo) last).Obeys (betweenEnds lo hi) fun b => (betweenEnds lo hi).asks b.point ∧ True :=
    bracket_obeys target hnext (fun _ h => h) hspan (.inl hremaining)
  intro q hq
  exact (hobeys.transcript h fun _ _ _ => trivial).1 q.1 q.2 (Search.mem_questions.mp hq)

theorem narrow_asks_between {tol : ℝ} {remaining made : ℕ} {fr : Frame ℝ} (hfr : fr.Within lo hi)
    {r : Outcome ℝ (Narrowing ℝ)} (h : Search.Transcript (narrow tol remaining made fr) es r) :
    ∀ q ∈ Search.questions es, lo < q.1 ∧ q.1 < hi := by
  have hobeys : (narrow tol remaining made fr).Obeys (betweenEnds lo hi) _ :=
    narrow_obeys (I := fun fr => fr.Within lo hi) (fun fr h => h.nextPoint_mem_Ioo)
      (fun fr f h _ => h.narrowed f) tol hfr
  intro q hq
  exact (hobeys.transcript h fun _ _ _ => trivial).1 q.1 q.2 (Search.mem_questions.mp hq)

theorem minimize_asks_between {m : LineMinimum ℝ}
    (h : Search.Transcript (minimize params lo hi) es (.ok m)) :
    ∀ q ∈ (Search.questions es).drop 2, lo < q.1 ∧ q.1 < hi := by
  obtain ⟨hparams, -, -, hlt⟩ := admissible_of_transcript h
  have hlt : lo < hi := not_le.mp hlt
  obtain ⟨opened, o, narrowed, n, ho, hn, -, hes⟩ := minimize_parts h
  obtain ⟨left, right, trials, b, inner, hsteps, hb, hframe, hopened⟩ := opening_questions ho
  have hopening := opening_spans (t := {}) hparams hlt (fun _ _ => trivial) trivial
  have hwithin := ((hopening.transcript ho fun _ _ _ => trivial).2.2 o rfl).1.within
  have hinner : lo < b.point + smallPart * (hi - b.point) ∧
      b.point + smallPart * (hi - b.point) < hi := by
    obtain ⟨h0, h1, h2, h3, h4⟩ := hwithin
    rw [hframe] at h0 h1 h2 h3 h4
    exact ⟨h0.trans_lt (h1.trans h2), h3.trans_le h4⟩
  rw [hes, hopened]
  intro q hq
  have hq : q ∈ Search.questions trials ∨ q = (b.point + smallPart * (hi - b.point), .ok inner) ∨
      q ∈ Search.questions narrowed := by
    simpa using hq
  rcases hq with hq | rfl | hq
  · exact bracket_asks_between hlt hsteps hb q hq
  · exact hinner
  · exact narrow_asks_between hwithin hn q hq

end Exact

/-- What a run tells about the questions of a line search. There are none if it may not start, and
they are counted if it ends well. One that fails is the last, its error is the outcome, and up to it
the same is asked whenever the same was heard before it. -/
structure QuestionAccount (inside : α → Prop) (params : LineSearchParams α) (lo hi : α) {σ : Type}
    (answer : α → σ → Outcome α α × σ) (hear : Notice α → σ → σ) (s : σ) : Prop where
  refused : ¬ Admissible params lo hi → (minimize params lo hi).events answer hear s = [] ∧
    ∃ fault, (minimize params lo hi).run answer hear s = (.error (.invalidParameter fault), s)
  counted : ∀ m, ((minimize params lo hi).run answer hear s).1 = .ok m →
    ∃ trials, Counted inside params lo hi ((minimize params lo hi).events answer hear s) m trials
  failed : ∀ (j : Nat) (p : α) (e : DesignError α),
    (Search.questions ((minimize params lo hi).events answer hear s))[j]? = some (p, .error e) →
    ((minimize params lo hi).run answer hear s).1 = .error e ∧
    (Search.questions ((minimize params lo hi).events answer hear s)).length = j + 1 ∧
    ∀ {τ : Type} (answer' : α → τ → Outcome α α × τ) (hear' : Notice α → τ → τ) (t : τ),
      (Search.answers ((minimize params lo hi).events answer' hear' t)).take j =
        (Search.answers ((minimize params lo hi).events answer hear s)).take j →
      (Search.points ((minimize params lo hi).events answer' hear' t)).take (j + 1) =
        Search.points ((minimize params lo hi).events answer hear s)

theorem questionAccount {inside : α → Prop} {params : LineSearchParams α} {lo hi : α}
    (hinside : ∀ es m, Search.Transcript (minimize params lo hi) es (.ok m) →
      ∀ q ∈ (Search.questions es).drop 2, inside q.1)
    {σ : Type} (answer : α → σ → Outcome α α × σ) (hear : Notice α → σ → σ) (s : σ) :
    QuestionAccount inside params lo hi answer hear s := by
  have htranscript := Search.transcript_events answer hear (minimize params lo hi) s
  refine ⟨fun hnot => ?_, fun m hm => ?_, fun j p e hj => ?_⟩
  · obtain ⟨fault, hfails⟩ := minimize_of_not_admissible hnot
    rw [hfails]
    exact ⟨rfl, fault, rfl⟩
  · rw [hm] at htranscript
    exact minimize_counted htranscript (hinside _ m htranscript)
  · obtain ⟨hrun, hlength⟩ := htranscript.of_refused_question hj
    refine ⟨hrun, hlength, fun answer' hear' t hagree => ?_⟩
    rw [htranscript.points_take_eq (Search.transcript_events answer' hear' _ t) hagree]
    exact List.take_of_length_le (by rw [Search.points, List.length_map, hlength])

/-- Every question of a line search is accounted for, in any arithmetic and for any objective; in
exact arithmetic those after the ends are between the ends. -/
theorem minimize_accounts_for_questions :
    (∀ {α : Type} [Scalar α] (params : LineSearchParams α) (lo hi : α) {σ : Type}
      (answer : α → σ → Outcome α α × σ) (hear : Notice α → σ → σ) (s : σ),
      QuestionAccount (fun _ => True) params lo hi answer hear s) ∧
    ∀ (params : LineSearchParams ℝ) (lo hi : ℝ) {σ : Type} (answer : ℝ → σ → Outcome ℝ ℝ × σ)
      (hear : Notice ℝ → σ → σ) (s : σ),
      QuestionAccount (fun x => lo < x ∧ x < hi) params lo hi answer hear s :=
  ⟨fun _ _ _ _ answer hear s => questionAccount (fun _ _ _ _ _ => trivial) answer hear s,
    fun _ _ _ _ answer hear s => questionAccount (fun _ _ => minimize_asks_between) answer hear s⟩

/-- An objective that fails from its fourth call on. -/
def failingFourth (x : ℚ) (calls : Nat) : Outcome ℚ ℚ × Nat :=
  (if calls < 3 then .ok (x * x) else .error (.degenerateResponse .silentResponse), calls + 1)

/-- The parabola is searched between the ends, asked the same whether its fourth call fails or not,
and not asked at all on an empty interval. -/
theorem minimize_accounts_for_parabola :
    (∃ m, ((minimize (⟨1 / 2, 5, 5⟩ : LineSearchParams ℝ) 0 1).run
      (fun x u => (.ok (x * x), u)) (fun _ u => u) ()).1 = .ok m ∧
      ∀ q ∈ (Search.questions ((minimize (⟨1 / 2, 5, 5⟩ : LineSearchParams ℝ) 0 1).events
        (fun x u => (.ok (x * x), u)) (fun _ u => u) ())).drop 2, 0 < q.1 ∧ q.1 < 1) ∧
    (let failing := (minimize (⟨mkRat 1 2, 5, 5⟩ : LineSearchParams ℚ) 0 1).events failingFourth
      (fun _ n => n) 0
    let whole := (minimize (⟨mkRat 1 2, 5, 5⟩ : LineSearchParams ℚ) 0 1).events
      (fun x u => (.ok (x * x), u)) (fun _ u => u) ()
    (Search.questions failing).length = 4 ∧
      (Search.points whole).take 4 = Search.points failing) ∧
    (minimize (⟨mkRat 1 2, 5, 5⟩ : LineSearchParams ℚ) 1 1).events failingFourth (fun _ n => n) 0 =
      [] := by
  have hrational := minimize_accounts_for_questions.1 (⟨mkRat 1 2, 5, 5⟩ : LineSearchParams ℚ)
  refine ⟨?_, ?_, ?_⟩
  · have hparams : (⟨1 / 2, 5, 5⟩ : LineSearchParams ℝ).check = .ok () :=
      LineSearchParams.check_eq_ok_iff.mpr ⟨by norm_num, by norm_num, by norm_num⟩
    obtain ⟨m, _, hrun, -⟩ := (minimize_ensures hparams rfl rfl (not_le.mpr one_pos)
      fun _ _ => True).run (fun _ u => u) (fun x u => ⟨x * x, u, rfl, trivial⟩) ()
    have hok := congrArg Prod.fst hrun
    obtain ⟨trials, hcounted⟩ := (minimize_accounts_for_questions.2 ⟨1 / 2, 5, 5⟩ 0 1
      (fun x u => (.ok (x * x), u)) (fun _ u => u) ()).counted m hok
    exact ⟨m, hok, hcounted.inside_later⟩
  · intro failing whole
    have hfails : ((Search.questions failing)[3]?.any fun q => !q.2.isOk) = true := by
      decide +kernel
    obtain ⟨⟨p, a⟩, hq, ha⟩ := (Option.any_eq_true _ _).mp hfails
    cases a with
    | ok v => cases ha
    | error e =>
        obtain ⟨-, hlength, hsame⟩ := (hrational 0 1 failingFourth (fun _ n => n) 0).failed 3 p e hq
        exact ⟨hlength, hsame (fun x u => (.ok (x * x), u)) (fun _ u => u) () rfl⟩
  · refine ((hrational 1 1 failingFourth (fun _ n => n) 0).refused fun h => h.lo_lt ?_).1
    decide +kernel

end GoldenSection
end FrequencySampling
