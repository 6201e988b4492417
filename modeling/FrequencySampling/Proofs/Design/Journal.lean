import FrequencySampling.Proofs.Design.Coherence
import FrequencySampling.Proofs.Plane.Journal

/-!
The journal of a design run tells the run. It is the logs of the line searches that were made, with
what the direction search and the driver say between them and at the end. So every evaluation, every
line search, every iteration and every cap can be counted in it, wherever the run is cut short.
-/

namespace FrequencySampling

variable {α : Type}

namespace Notice

def reads (level : LogLevel) (text : String) (n : Notice α) : Bool :=
  n.level = level ∧ n.text = text

theorem reads_evaluated :
    reads (α := α) .trace "objective evaluated" = fun n => n.trial?.isSome := by
  funext n
  cases n <;> simp [reads, level, text, trial?]

theorem reads_finished :
    reads (α := α) .debug "line search finished" = fun n => n.lineMinimum?.isSome := by
  funext n
  cases n <;> simp [reads, level, text, lineMinimum?]

end Notice

/-- How often a message was logged. -/
def Session.count (level : LogLevel) (text : String) (s : Session α) : Nat :=
  s.journal.toList.countP (Notice.reads level text)

variable [Scalar α] {s : Session α}

namespace Session

open PlaneSearch (Makes roundsLog closing)

theorem journal_searchScalar (params : LineSearchParams α) (hs : s.spectrum.WellFormed)
    (hone : s.spectrum.numTransitions = 1) :
    (searchScalar params s).2.journal.toList =
      s.journal.toList ++ LineRun.log ⟨none, 0, 1, s⟩ params := by
  have hfits : LineRun.Fits ⟨none, 0, 1, s⟩ s := ⟨hs, fun _ => hone⟩
  have hjournal := LineRun.journal_after params hfits
  have hagrees := (accounts_conduct attemptsTransitions_tryScalar
    (GoldenSection.minimize_silent params 0 1) s).agrees
  rw [← hjournal, searchScalar, get_bind_eq, if_neg (not_not.mpr hone), LineRun.after,
    LineRun.minimum?, LineRun.outcome, show LineRun.answer ⟨none, 0, 1, s⟩ = tryScalar from rfl]
  dsimp only
  rw [bind_eq]
  generalize conduct tryScalar (GoldenSection.minimize params 0 1) s = run at hagrees ⊢
  obtain ⟨e | minimum, s'⟩ := run
  · rfl
  · have hlength : [minimum.x].length = s'.spectrum.numTransitions :=
      (hagrees.numTransitions_eq.trans hone).symm
    dsimp only
    rw [bind_eq, leaveAt_eq_ok_iff (u := ()) |>.mpr ⟨hlength, rfl⟩]
    rfl

theorem logs_searchPlane (params : LineSearchParams α) (direction : PlaneSearchParams α)
    (hs : s.spectrum.WellFormed) (htwo : s.spectrum.numTransitions = 2) :
    ∃ searches out,
      Makes params (PlaneSearch.search params direction s.spectrum.numTransitions) s searches out ∧
      (searchPlane params direction s).2.journal.toList = s.journal.toList ++
        (roundsLog params 1 searches ++
          closing ((searchPlane params direction s).1.toOption.map (·.converged))) := by
  obtain ⟨searches, out, hlogs⟩ :=
    PlaneSearch.search_logs params direction s.spectrum.numTransitions hs
  have hagrees := (conducted_conduct
    (PlaneSearch.search params direction s.spectrum.numTransitions) hs).agrees
  refine ⟨searches, out, hlogs.makes, ?_⟩
  rw [journal_searchPlane, hlogs.makes.conduct_eq, hlogs.journal_eq]
  congr 2
  rw [searchPlane_eq]
  rw [hlogs.makes.conduct_eq] at hagrees ⊢
  obtain ⟨e | d, s'⟩ := out
  · rfl
  · have hlength : [d.best.x, d.best.y].length = s'.spectrum.numTransitions :=
      (hagrees.numTransitions_eq.trans htwo).symm
    dsimp only
    rw [HalfSpectrum.setTransitions_eq_ok_iff.mpr ⟨hlength, rfl⟩]
    rfl

end Session

namespace FilterDesign

open Session
open PlaneSearch (Makes roundsLog closing)

variable {params : DesignParams α} {choice : TransitionChoice α} {searches : List (LineRun α)}
  {plane : Option (PlaneMinimum α)}

/-- The line searches that a design run makes, and the result of its direction search if there is
one that ends well. -/
inductive Searches (params : DesignParams α) (s : Session α) :
    TransitionChoice α → List (LineRun α) → Option (PlaneMinimum α) → Prop
  | unchecked {choice e} (hcheck : params.check = .error e) : Searches params s choice [] none
  | manual {values} : Searches params s (.manual values) [] none
  | none (hone : s.spectrum.numTransitions ≠ 1) (htwo : s.spectrum.numTransitions ≠ 2) :
      Searches params s .optimal [] none
  | scalar (hcheck : params.check = .ok ()) (hone : s.spectrum.numTransitions = 1) :
      Searches params s .optimal [⟨Option.none, 0, 1, s⟩] none
  | plane {searches out} (hcheck : params.check = .ok ()) (htwo : s.spectrum.numTransitions = 2)
      (hmakes : Makes params.line (PlaneSearch.search params.line params.direction
        s.spectrum.numTransitions) s searches out) :
      Searches params s .optimal searches (searchPlane params.line params.direction s).1.toOption

/-- The journal of a design run that makes these line searches. -/
def log (params : DesignParams α) (searches : List (LineRun α)) (plane : Option (PlaneMinimum α))
    (ok : Bool) : List (Notice α) :=
  roundsLog params.line 1 searches ++
    (closing (plane.map (·.converged)) ++ if ok then [.designFinished] else [])

/-- What a design run leaves is what its search leaves. -/
theorem snd_optimize (params : DesignParams α) (s : Session α) :
    (optimize params s).2 = match s.spectrum.numTransitions with
      | 1 => (searchScalar params.line s).2
      | 2 => (searchPlane params.line params.direction s).2
      | _ => s := by
  rw [optimize, get_bind_eq]
  generalize s.spectrum.numTransitions = count
  obtain _ | _ | _ | count := count
  · rfl
  · change ((searchScalar params.line >>= _) s).2 = (searchScalar params.line s).2
    rw [bind_eq]
    cases searchScalar params.line s with
    | mk r s' => cases r <;> rfl
  · change ((searchPlane params.line params.direction >>= _) s).2 = (searchPlane _ _ s).2
    rw [bind_eq]
    cases searchPlane params.line params.direction s with
    | mk r s' => cases r <;> rfl
  · rfl

/-- A run is refused before it begins, fails and leaves what the choice of transition samples left,
or ends well and says so. -/
theorem inSession_cases (params : DesignParams α) (choice : TransitionChoice α) (s : Session α) :
    (∃ e, params.check = .error e ∧ inSession params choice s = (.error e, s)) ∨
    (params.check = .ok () ∧ ∃ e,
      inSession params choice s = (.error e, (choose params choice s).2)) ∨
    (params.check = .ok () ∧ ∃ d,
      inSession params choice s = (.ok d, hear .designFinished (choose params choice s).2)) := by
  simp only [inSession, bind_eq, ofOutcome_eq, get_eq]
  cases params.check with
  | error e => exact .inl ⟨e, rfl, rfl⟩
  | ok u =>
      dsimp only
      generalize choose params choice s = run
      obtain ⟨e | ⟨settled, taken⟩, s'⟩ := run
      · exact .inr (.inl ⟨rfl, e, rfl⟩)
      · dsimp only
        cases finish params s'.spectrum settled taken with
        | error e => exact .inr (.inl ⟨rfl, e, rfl⟩)
        | ok d => exact .inr (.inr ⟨rfl, d, rfl⟩)

theorem snd_choose_manual (params : DesignParams α) (values : List α) (s : Session α) :
    (choose params (.manual values) s).2 = s ∨
      (choose params (.manual values) s).2 = (leaveAt values s).2 := by
  unfold choose
  cases hfind : values.find? (fun v => !Scalar.isFinite v) with
  | some bad => exact .inl (by simp only [hfind]; rfl)
  | none =>
      refine .inr ?_
      simp only [hfind]
      rw [bind_eq]
      cases leaveAt values s with
      | mk r s' => cases r <;> rfl

/-- Manual values are written without a word. -/
theorem journal_choose_manual (params : DesignParams α) (values : List α) (s : Session α) :
    (choose params (.manual values) s).2.journal = s.journal := by
  obtain h | h := snd_choose_manual params values s
  · rw [h]
  · rw [h, leaveAt, amend_eq]
    cases s.spectrum.setTransitions values <;> rfl

theorem logs_choose (choice : TransitionChoice α) (hcheck : params.check = .ok ())
    (hs : s.spectrum.WellFormed) :
    ∃ searches plane, Searches params s choice searches plane ∧
      (choose params choice s).2.journal.toList = s.journal.toList ++
        (roundsLog params.line 1 searches ++ closing (plane.map (·.converged))) := by
  cases choice with
  | manual values =>
      refine ⟨[], none, .manual, ?_⟩
      rw [journal_choose_manual]
      exact (List.append_nil _).symm
  | optimal =>
      rw [choose, snd_optimize]
      split
      · rename_i hone
        refine ⟨_, none, .scalar hcheck hone, ?_⟩
        rw [journal_searchScalar params.line hs hone, PlaneSearch.roundsLog_one]
        exact congrArg _ (List.append_nil _).symm
      · rename_i htwo
        obtain ⟨searches, out, hmakes, hjournal⟩ :=
          logs_searchPlane params.line params.direction hs htwo
        exact ⟨_, _, .plane hcheck htwo hmakes, hjournal⟩
      · rename_i hone htwo
        exact ⟨[], none, .none hone htwo, (List.append_nil _).symm⟩

theorem logs_inSession (params : DesignParams α) (choice : TransitionChoice α)
    (hs : s.spectrum.WellFormed) :
    ∃ searches plane, Searches params s choice searches plane ∧
      (inSession params choice s).2.journal.toList =
        s.journal.toList ++ log params searches plane (inSession params choice s).1.isOk := by
  obtain ⟨e, hcheck, hrun⟩ | ⟨hcheck, hrun⟩ | ⟨hcheck, hrun⟩ := inSession_cases params choice s
  · refine ⟨[], none, .unchecked hcheck, ?_⟩
    rw [hrun]
    exact (List.append_nil _).symm
  · obtain ⟨e, hrun⟩ := hrun
    obtain ⟨searches, plane, hmade, hjournal⟩ := logs_choose choice hcheck hs
    refine ⟨searches, plane, hmade, ?_⟩
    rw [hrun]
    refine hjournal.trans (congrArg _ (congrArg _ ?_))
    exact (List.append_nil _).symm
  · obtain ⟨d, hrun⟩ := hrun
    obtain ⟨searches, plane, hmade, hjournal⟩ := logs_choose choice hcheck hs
    refine ⟨searches, plane, hmade, ?_⟩
    rw [hrun, hear, Array.toList_push, hjournal, List.append_assoc, List.append_assoc]
    rfl

theorem accounts_choose (params : DesignParams α) (choice : TransitionChoice α) (s : Session α) :
    ∃ evaluated, Accounts s evaluated (choose params choice s).2 := by
  cases choice with
  | manual values =>
      obtain h | h := snd_choose_manual params values s
      · rw [h]
        exact ⟨[], .refl s⟩
      · rw [h]
        exact ⟨[], accounts_leaveAt values s⟩
  | optimal =>
      rw [choose, snd_optimize]
      split
      · exact ⟨_, Call.accounts_searchScalar params.line s⟩
      · exact ⟨_, Call.accounts_searchPlane params.line params.direction s⟩
      · exact ⟨[], .refl s⟩

theorem accounts_inSession (params : DesignParams α) (choice : TransitionChoice α)
    (s : Session α) : ∃ evaluated, Accounts s evaluated (inSession params choice s).2 := by
  obtain ⟨evaluated, haccounts⟩ := accounts_choose params choice s
  obtain ⟨e, -, hrun⟩ | ⟨-, e, hrun⟩ | ⟨-, d, hrun⟩ := inSession_cases params choice s
  · rw [hrun]
    exact ⟨[], .refl s⟩
  · rw [hrun]
    exact ⟨evaluated, haccounts⟩
  · rw [hrun]
    exact ⟨_, haccounts.append (.hear rfl _)⟩

/-- What is read off the logs of the line searches is all that is read off the journal. -/
theorem filterMap_log {β : Type} {f : Notice α → Option β} (hclipped : f .lineClipped = none)
    (hiterated : ∀ outer, f (.planeIterated outer) = none) (hcapped : f .planeCapped = none)
    (hdesigned : f .designFinished = none) (params : DesignParams α) (searches : List (LineRun α))
    (plane : Option (PlaneMinimum α)) (ok : Bool) :
    (log params searches plane ok).filterMap f =
      searches.flatMap fun r => (r.log params.line).filterMap f := by
  rw [log, closing, List.filterMap_append, List.filterMap_append, Notice.filterMap_ite hcapped,
    Notice.filterMap_ite hdesigned, PlaneSearch.filterMap_roundsLog hclipped hiterated]
  exact List.append_nil _

/-- What is logged apart from trials and finished line searches. -/
theorem countP_log {p : Notice α → Bool} (htrial : ∀ t, p (.trial t) = false)
    (hfinished : ∀ m, p (.lineSearchFinished m) = false) (hclipped : p .lineClipped = false)
    (hiterated : ∀ outer, p (.planeIterated outer) = p (.planeIterated 0))
    (params : DesignParams α) (searches : List (LineRun α)) (plane : Option (PlaneMinimum α))
    (ok : Bool) :
    (log params searches plane ok).countP p =
      (searches.countP fun r => p .bracketingExhausted &&
        GoldenSection.Exhausted params.line.maxBracketSteps (r.trials params.line)) +
      (searches.countP fun r => p .narrowingCapped &&
        (r.minimum? params.line).map (·.converged) = some false) +
      ((everyThird searches).countP fun r => p (.planeIterated 0) &&
        (r.minimum? params.line).isSome) +
      (if p .planeCapped && plane.map (·.converged) = some false then 1 else 0) +
      (if p .designFinished && ok then 1 else 0) := by
  rw [log, List.countP_append, List.countP_append, closing, Notice.countP_ite, Notice.countP_ite,
    PlaneSearch.countP_roundsLog htrial hfinished hclipped hiterated, Bool.decide_eq_true]
  omega

/-- The journal tells the run: the logs of its line searches in order, with what is said between and
after them, and so each message as often as what it tells of took place. -/
structure Tells (params : DesignParams α) (choice : TransitionChoice α) (before : Session α)
    (searches : List (LineRun α)) (plane : Option (PlaneMinimum α))
    (ended : Outcome α (FilterDesign α) × Session α) : Prop where
  made : Searches params before choice searches plane
  log_eq : ended.2.journal.toList = log params searches plane ended.1.isOk
  trials_eq : ended.2.trials = searches.flatMap (·.trials params.line)
  minima_eq : ended.2.minima = searches.filterMap (·.minimum? params.line)
  evaluations_eq : ended.2.evaluations = ended.2.trials.length
  evaluated : ended.2.count .trace "objective evaluated" = ended.2.trials.length
  finished : ended.2.count .debug "line search finished" = ended.2.minima.length
  exhausted : ended.2.count .warn "bracketing exhausted, continuing from the last trial point" =
    searches.countP fun r =>
      GoldenSection.Exhausted params.line.maxBracketSteps (r.trials params.line)
  capped : ended.2.count .warn "line search hit its iteration cap" =
    searches.countP fun r => (r.minimum? params.line).map (·.converged) = some false
  iterated : ended.2.count .debug "direction search iteration" =
    (everyThird searches).countP fun r => (r.minimum? params.line).isSome
  planeCapped : ended.2.count .warn "direction search stopped at its iteration cap" =
    if plane.map (·.converged) = some false then 1 else 0
  designed : ended.2.count .info "filter design finished" = if ended.1.isOk then 1 else 0
  settled : ∀ d, ended.1 = .ok d → choice = .optimal → before.spectrum.numTransitions = 2 →
    plane.map (·.converged) = some d.converged

/-- A two-sample run that ends well reports whether its direction search has settled. -/
theorem Searches.settled {d : FilterDesign α} {s' : Session α}
    (h : Searches params s .optimal searches plane)
    (hrun : inSession params .optimal s = (.ok d, s')) (htwo : s.spectrum.numTransitions = 2) :
    plane.map (·.converged) = some d.converged := by
  obtain ⟨hcheck, settled, taken, s'', hchoose, hfinish, -⟩ := inSession_eq_ok_iff.mp hrun
  obtain ⟨-, hsettled, -⟩ := finish_eq_ok_iff.mp hfinish
  rw [hsettled]
  cases optimized hchoose with
  | none hnone => omega
  | scalar hone => omega
  | plane _ hsearch =>
      cases h with
      | unchecked herror => cases hcheck.symm.trans herror
      | none _ hnone => exact absurd htwo hnone
      | scalar _ hone => omega
      | plane => rw [hsearch]; rfl

/-- The journal of a design run tells the run, however it ends. -/
theorem journal_tells_run {spectrum : HalfSpectrum α} (hs : spectrum.WellFormed)
    (params : DesignParams α) (choice : TransitionChoice α) (context : RunContext α) :
    ∃ searches plane, Tells params choice (start spectrum params.objectiveGrid context) searches
      plane (run spectrum params choice context) := by
  obtain ⟨searches, plane, hmade, hjournal⟩ :=
    logs_inSession (s := start spectrum params.objectiveGrid context) params choice hs
  obtain ⟨evaluated, haccounts⟩ :=
    accounts_inSession params choice (start spectrum params.objectiveGrid context)
  obtain ⟨news, hnews, htrials⟩ := haccounts.journal_eq
  have hlog : (run spectrum params choice context).2.journal.toList =
      log params searches plane (run spectrum params choice context).1.isOk :=
    hjournal.trans (List.nil_append _)
  have hreported : (run spectrum params choice context).2.trials = news.filterMap Notice.trial? :=
    congrArg _ (hnews.trans (List.nil_append _))
  refine ⟨searches, plane, ?_⟩
  exact {
    made := hmade
    log_eq := hlog
    trials_eq := by
      rw [trials, hlog, filterMap_log rfl (fun _ => rfl) rfl rfl]
      simp only [LineRun.trials_log]
    minima_eq := by
      rw [minima, hlog, filterMap_log rfl (fun _ => rfl) rfl rfl]
      simp only [LineRun.minima_log]
      exact (List.filterMap_eq_flatMap_toList _ _).symm
    evaluations_eq := by
      rw [hreported, ← htrials.length_eq]
      exact haccounts.evaluations_eq.trans (Nat.zero_add _)
    evaluated := by
      rw [count, Notice.reads_evaluated, ← List.length_filterMap_eq_countP]
      rfl
    finished := by
      rw [count, Notice.reads_finished, ← List.length_filterMap_eq_countP]
      rfl
    exhausted := by
      rw [count, hlog, countP_log (fun _ => rfl) (fun _ => rfl) rfl fun _ => rfl]
      simp [Notice.reads, Notice.level, Notice.text]
    capped := by
      rw [count, hlog, countP_log (fun _ => rfl) (fun _ => rfl) rfl fun _ => rfl]
      simp [Notice.reads, Notice.level, Notice.text]
    iterated := by
      rw [count, hlog, countP_log (fun _ => rfl) (fun _ => rfl) rfl fun _ => rfl]
      simp [Notice.reads, Notice.level, Notice.text]
    planeCapped := by
      rw [count, hlog, countP_log (fun _ => rfl) (fun _ => rfl) rfl fun _ => rfl]
      simp [Notice.reads, Notice.level, Notice.text]
    designed := by
      rw [count, hlog, countP_log (fun _ => rfl) (fun _ => rfl) rfl fun _ => rfl]
      simp [Notice.reads, Notice.level, Notice.text]
    settled := by
      rintro d hd rfl htwo
      exact hmade.settled (Prod.ext hd rfl) htwo }

open RationalArithmetic in
/-- A design with two transition samples, in two iterations. -/
theorem journal_tells_run_rational :
    (session .unbounded).spectrum.WellFormed ∧ ∃ searches plane,
      Tells designParams .optimal (session .unbounded) searches plane
        (run (session .unbounded).spectrum designParams .optimal .unbounded) ∧
      ((everyThird searches).countP fun r => (r.minimum? line).isSome) = 2 := by
  have hiterations : (run (session .unbounded).spectrum designParams .optimal .unbounded).2.count
      .debug "direction search iteration" = 2 := by
    decide +kernel
  have hs : (session .unbounded).spectrum.WellFormed := ⟨rfl, rfl⟩
  obtain ⟨searches, plane, htells⟩ := journal_tells_run hs designParams .optimal .unbounded
  exact ⟨hs, searches, plane, htells, htells.iterated.symm.trans hiterations⟩

open RationalArithmetic in
/-- A run that is cut short by its deadline is logged up to there. -/
example :
    let context : RunContext ℚ := ⟨false, fun checks => checks == 5, fun _ _ => false⟩
    let after := (run (session .unbounded).spectrum designParams .optimal context).2
    after.count .trace "objective evaluated" = 5 ∧
      after.count .info "filter design finished" = 0 := by
  decide +kernel

end FilterDesign
end FrequencySampling
