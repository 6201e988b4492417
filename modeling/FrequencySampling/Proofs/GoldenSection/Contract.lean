import FrequencySampling.Proofs.GoldenSection.Course
import FrequencySampling.Proofs.Search.Params
import FrequencySampling.Proofs.Search.Transcript

/-!
What a line search asks for and what it gives back, in any arithmetic. The trials stay in any region
closed under its first two steps, narrowing carries any invariant of its frames, and the value
reported is always one that was heard at the point reported. As many evaluations are reported as
were made.
-/

namespace FrequencySampling.GoldenSection

variable {α : Type} [Scalar α] {t : Search.Terms α α} {near : α → Prop} {lo hi : α}

theorem bracket_obeys {steps : α → Prop} {trialAt : α → α} (target : α)
    (hsteps : ∀ d, steps d → steps (d * smallPart) ∧ near (trialAt (d * smallPart)))
    (hnear : ∀ x, near x → t.asks x) {remaining : Nat} {step : α} {last : Bracket α}
    (hstep : steps step)
    (hlast : remaining ≠ 0 ∨ near last.point ∧ t.answers last.point last.value) :
    (bracket trialAt target remaining step last).Obeys t fun b =>
      near b.point ∧ t.answers b.point b.value := by
  induction remaining generalizing step last with
  | zero => exact hlast.resolve_left fun h => h rfl
  | succ remaining ih =>
      obtain ⟨hnext, hpoint⟩ := hsteps step hstep
      refine (Search.Obeys.value (hnear _ hpoint)).bind fun f hf => ?_
      split
      · exact ⟨hpoint, hf⟩
      · exact ih hnext (.inr ⟨hpoint, hf⟩)

/-- A region that holds every trial of a bracketing on the interval, with what may be asked about
it. -/
structure Covers (near asks : α → Prop) (lo hi : α) : Prop where
  left : asks lo
  right : asks hi
  trial : ∃ steps : α → Prop, steps (hi - lo) ∧ ∀ d, steps d →
    steps (d * smallPart) ∧ near (lo + d * smallPart) ∧ near (hi - d * smallPart)
  inner : ∀ x, near x → asks x ∧ asks (x + smallPart * (hi - x))

theorem Covers.everywhere : Covers (fun _ : α => True) (fun _ => True) lo hi where
  left := trivial
  right := trivial
  trial := ⟨fun _ => True, trivial, fun _ _ => ⟨trivial, trivial, trivial⟩⟩
  inner _ _ := ⟨trivial, trivial⟩

/-- The frame that narrowing starts from, around a first inner point in the region. -/
structure Frame.Opens (near : α → Prop) (lo hi : α) (fr : Frame α) : Prop where
  x0_eq : fr.x0 = lo
  near_x1 : near fr.x1
  x2_eq : fr.x2 = fr.x1 + smallPart * (hi - fr.x1)
  x3_eq : fr.x3 = hi

theorem surround_obeys {b : Bracket α} (hb : near b.point ∧ t.answers b.point b.value)
    (hcovers : Covers near t.asks lo hi) :
    (surround lo hi b).Obeys t fun o =>
      o.frame.Opens near lo hi ∧ o.frame.Answered t.answers := by
  refine (Search.Obeys.value (hcovers.inner _ hb.1).2).bind fun v hv => ?_
  exact Search.Obeys.pure ⟨⟨rfl, hb.1, rfl, rfl⟩, hb.2, hv⟩

theorem opening_obeys {params : LineSearchParams α} (hcovers : Covers near t.asks lo hi)
    (hexhausted : t.tells .bracketingExhausted) (hcheck : ∀ e, params.check = .error e → t.fails e)
    (hdomain : !Scalar.isFinite lo ∨ !Scalar.isFinite hi ∨ hi ≤ lo →
      t.fails (.invalidParameter (.emptyDomain lo hi))) :
    (opening params lo hi).Obeys t fun o =>
      o.frame.Opens near lo hi ∧ o.frame.Answered t.answers := by
  obtain ⟨steps, hspan, hsteps⟩ := hcovers.trial
  unfold opening
  refine (Search.Obeys.ofOutcome hcheck).bind fun u hp => ?_
  obtain ⟨-, -, hbracket⟩ := LineSearchParams.accepts_iff.mp hp
  refine Search.Obeys.guard hdomain fun _ => ?_
  refine (Search.Obeys.value hcovers.left).bind fun left _ => ?_
  refine (Search.Obeys.value hcovers.right).bind fun right _ => ?_
  have htrial : ∀ d, steps d → steps (d * smallPart) ∧
      near (if decide (left < right) then lo + d * smallPart else hi - d * smallPart) := by
    intro d hd
    obtain ⟨hnext, hlo, hhi⟩ := hsteps d hd
    refine ⟨hnext, ?_⟩
    split
    · exact hlo
    · exact hhi
  refine (bracket_obeys _ htrial (fun x hx => (hcovers.inner x hx).1) hspan
    (.inl hbracket)).bind fun b hb => ?_
  exact Search.Obeys.postIf hexhausted (surround_obeys hb hcovers)

/-- What one step carries from a frame to the next holds of the frame that narrowing ends with. -/
theorem narrow_obeys {I : Frame α → Prop} (hnext : ∀ fr, I fr → t.asks fr.nextPoint)
    (hkeep : ∀ fr f, I fr → t.answers fr.nextPoint f → I (fr.narrowed f)) (tol : α)
    {remaining made : Nat} {fr : Frame α} (h : I fr) :
    (narrow tol remaining made fr).Obeys t fun n => I n.frame := by
  induction remaining generalizing made fr with
  | zero => exact h
  | succ remaining ih =>
      simp only [narrow]
      split
      · exact h
      · refine (Search.Obeys.value (hnext fr h)).bind fun f hf => ?_
        exact ih (hkeep fr f h hf)

theorem conclude_obeys (hcapped : t.tells .narrowingCapped) (trials : Nat) (n : Narrowing α) :
    (conclude trials n).Obeys t fun minimum => minimum = n.minimum trials := by
  unfold conclude
  exact Search.Obeys.postIf hcapped (Search.Obeys.pure rfl)

theorem minimize_obeys {params : LineSearchParams α} {I : Frame α → Prop}
    (hstart : (opening params lo hi).Obeys t fun o => I o.frame)
    (hnext : ∀ fr, I fr → t.asks fr.nextPoint)
    (hkeep : ∀ fr f, I fr → t.answers fr.nextPoint f → I (fr.narrowed f))
    (hcapped : t.tells .narrowingCapped) :
    (minimize params lo hi).Obeys t fun m => ∃ fr, I fr ∧ fr.best = (m.x, m.f) := by
  refine hstart.bind fun o ho => ?_
  refine (narrow_obeys hnext hkeep params.tol ho).bind fun n hn => ?_
  refine (conclude_obeys hcapped o.trials n).mono fun m hm => ?_
  exact ⟨n.frame, hn, by rw [hm]; rfl⟩

theorem Frame.Answered.best {answers : α → α → Prop} {fr : Frame α} (h : fr.Answered answers) :
    answers fr.best.1 fr.best.2 := by
  unfold Frame.best
  split
  · exact h.first
  · exact h.second

/-- Anything may be asked, and of the notices only the two warnings are posted. -/
def openTerms (answers : α → α → Prop) : Search.Terms α α where
  answers := answers
  tells n := n = .bracketingExhausted ∨ n = .narrowingCapped

theorem minimize_answered (answers : α → α → Prop) (params : LineSearchParams α) (lo hi : α) :
    (minimize params lo hi).Obeys (openTerms answers) fun m => answers m.x m.f := by
  have hopening : (opening params lo hi).Obeys (openTerms answers) fun o =>
      o.frame.Opens (fun _ => True) lo hi ∧ o.frame.Answered answers :=
    opening_obeys Covers.everywhere (Or.inl rfl) (fun _ _ => trivial) fun _ => trivial
  refine (minimize_obeys (hopening.mono fun o ho => ho.2) (fun _ _ => trivial)
    (fun fr f h hf => h.narrowed hf) (Or.inr rfl)).mono fun m hm => ?_
  obtain ⟨fr, hfr, hbest⟩ := hm
  have hanswered := hfr.best
  rwa [hbest] at hanswered

section Events

variable {params : LineSearchParams α} {es : List (Search.Event α α)}

/-- The events of the opening: both ends, the bracketing trials, perhaps a warning, and the second
inner point of the frame around the last trial. -/
theorem opening_events {o : Opening α}
    (h : Search.Transcript (opening params lo hi) es (.ok o)) :
    ∃ left right trials b inner, params.maxBracketSteps ≠ 0 ∧
      Search.Transcript (bracket
        (fun step => if decide (left < right) then lo + step else hi - step)
        (if decide (left < right) then left else right) params.maxBracketSteps (hi - lo)
        ⟨lo, left, 0, false⟩) trials (.ok b) ∧
      es = .asked lo (.ok left) :: .asked hi (.ok right) :: (trials ++
        ((if !b.found then [.told .bracketingExhausted] else []) ++
          [.asked (b.point + smallPart * (hi - b.point)) (.ok inner)])) ∧
      o = ⟨⟨lo, b.point, b.point + smallPart * (hi - b.point), hi, b.value, inner⟩, b.trials⟩ := by
  unfold opening at h
  obtain ⟨_, _, _, hcheck, h, hes⟩ := Search.Transcript.of_bind h
  obtain ⟨hes', hparams⟩ := hcheck.of_ofOutcome
  obtain ⟨-, -, hsteps⟩ := LineSearchParams.accepts_iff.mp hparams.symm
  obtain ⟨-, h⟩ := Search.Transcript.of_guard h
  obtain ⟨_, left, _, hleft, h, hes1⟩ := Search.Transcript.of_bind h
  obtain ⟨_, right, _, hright, h, hes2⟩ := Search.Transcript.of_bind h
  obtain ⟨trials, b, _, hb, h, hes3⟩ := Search.Transcript.of_bind h
  obtain ⟨_, h, hes4⟩ := Search.Transcript.of_postIf_eq h
  obtain ⟨_, inner, _, hinner, h, hes5⟩ := Search.Transcript.of_bind h
  obtain ⟨hes6, ho⟩ := h.of_pure
  cases ho
  refine ⟨left, right, trials, b, inner, hsteps, hb, ?_, rfl⟩
  rw [hes, hes1, hes2, hes3, hes4, hes5, hes6, hes', hleft.of_value, hright.of_value,
    hinner.of_value]
  rfl

/-- The events of a line search: those of its opening, those of its narrowing, perhaps a warning. -/
theorem minimize_events {m : LineMinimum α}
    (h : Search.Transcript (minimize params lo hi) es (.ok m)) :
    ∃ opened o narrowed n, Search.Transcript (opening params lo hi) opened (.ok o) ∧
      Search.Transcript (narrow params.tol params.maxIterations 0 o.frame) narrowed (.ok n) ∧
      m = n.minimum o.trials ∧
      es = opened ++ (narrowed ++ if !n.converged then [.told .narrowingCapped] else []) := by
  obtain ⟨opened, o, _, ho, h, hes⟩ := Search.Transcript.of_bind h
  obtain ⟨narrowed, n, _, hn, h, hes1⟩ := Search.Transcript.of_bind h
  unfold conclude at h
  obtain ⟨_, h, hes2⟩ := Search.Transcript.of_postIf_eq h
  obtain ⟨hes3, hm⟩ := h.of_pure
  cases hm
  refine ⟨opened, o, narrowed, n, ho, hn, rfl, ?_⟩
  rw [hes, hes1, hes2, hes3]
  exact congrArg _ (congrArg _ (List.append_nil _))

theorem bracket_count {trialAt : α → α} {target : α} {remaining : Nat} {step : α}
    {last b : Bracket α}
    (h : Search.Transcript (bracket trialAt target remaining step last) es (.ok b)) :
    b.trials = last.trials + es.countP Search.Event.isAsked := by
  induction remaining generalizing es step last with
  | zero =>
      obtain ⟨rfl, hb⟩ := h.of_pure
      cases hb
      rfl
  | succ remaining ih =>
      obtain ⟨_, f, rest, hvalue, hrest, rfl⟩ := Search.Transcript.of_bind h
      rw [hvalue.of_value, List.countP_append]
      split at hrest
      · obtain ⟨rfl, hb⟩ := hrest.of_pure
        cases hb
        rfl
      · rw [ih hrest]
        change last.trials + 1 + _ = last.trials + (1 + _)
        omega

theorem narrow_count {tol : α} {remaining made : Nat} {fr : Frame α} {n : Narrowing α}
    (h : Search.Transcript (narrow tol remaining made fr) es (.ok n)) :
    n.iterations = made + es.countP Search.Event.isAsked := by
  induction remaining generalizing es made fr with
  | zero =>
      obtain ⟨rfl, hn⟩ := h.of_pure
      cases hn
      rfl
  | succ remaining ih =>
      simp only [narrow] at h
      split at h
      · obtain ⟨rfl, hn⟩ := h.of_pure
        cases hn
        rfl
      · obtain ⟨_, f, rest, hvalue, hrest, rfl⟩ := Search.Transcript.of_bind h
        rw [hvalue.of_value, List.countP_append, ih hrest]
        change made + 1 + _ = made + (1 + _)
        omega

theorem opening_count {o : Opening α}
    (h : Search.Transcript (opening params lo hi) es (.ok o)) :
    es.countP Search.Event.isAsked = 3 + o.trials := by
  obtain ⟨left, right, trials, b, inner, -, hb, hes, ho⟩ := opening_events h
  have htrials : b.trials = 0 + _ := bracket_count hb
  rw [hes, ho]
  simp only [List.countP_cons, List.countP_append, Search.countP_isAsked_told_if,
    Search.Event.isAsked, List.countP_nil, if_true]
  omega

theorem minimize_count {m : LineMinimum α}
    (h : Search.Transcript (minimize params lo hi) es (.ok m)) :
    m.evaluations = es.countP Search.Event.isAsked := by
  obtain ⟨opened, o, narrowed, n, ho, hn, hm, hes⟩ := minimize_events h
  have hopened := opening_count ho
  have hnarrowed := narrow_count hn
  rw [hm, hes, Narrowing.minimum]
  simp only [List.countP_append, Search.countP_isAsked_told_if, hopened]
  omega

end Events
end FrequencySampling.GoldenSection
