import FrequencySampling.Proofs.Plane.LineSearches
import FrequencySampling.Proofs.Search.Ensures
import FrequencySampling.Proofs.Session.LineRuns

/-!
What a direction search enters into the journal of its session. The run is a sequence of line
searches, each begun in the session that the one before it left, and the last of them may be cut
short. The journal is the logs of these line searches, with what is said between them: before a
third line search that its line was clipped, after it that the iteration is done.
-/

namespace FrequencySampling.PlaneSearch

open Session (conduct hear tryLine)

variable {α : Type} [Scalar α] {ρ τ : Type} {params : LineSearchParams α} {outer : Nat}
  {s : Session α} {m : Search α (LinePoint α) ρ} {searches searches' : List (LineRun α)}

/-- The line searches that a search makes from a session, and how it ends. -/
inductive Makes (params : LineSearchParams α) :
    Search α (LinePoint α) ρ → Session α → List (LineRun α) → Outcome α ρ × Session α → Prop
  | done {r s} : Makes params (.done r) s [] (r, s)
  | told {n next s searches out} (rest : Makes params next (hear n s) searches out) :
      Makes params (.tell n next) s searches out
  | completed {line lo hi k s searches out minimum}
      (h : LineRun.outcome ⟨some line, lo, hi, s⟩ params = .ok minimum)
      (rest : Makes params (k minimum) (LineRun.after ⟨some line, lo, hi, s⟩ params) searches out) :
      Makes params (along params line lo hi >>= k) s (⟨some line, lo, hi, s⟩ :: searches) out
  | cut {line lo hi k s e} (h : LineRun.outcome ⟨some line, lo, hi, s⟩ params = .error e) :
      Makes params (along params line lo hi >>= k) s [⟨some line, lo, hi, s⟩]
        (.error e, LineRun.after ⟨some line, lo, hi, s⟩ params)

theorem conduct_along (params : LineSearchParams α) (line : SlotLine α) (lo hi : α)
    (s : Session α) :
    conduct tryLine (along params line lo hi) s =
      (LineRun.outcome ⟨some line, lo, hi, s⟩ params,
        LineRun.after ⟨some line, lo, hi, s⟩ params) := by
  rw [conduct, along, Search.run_bind, Search.run_mapPoints, LineRun.after, LineRun.minimum?,
    LineRun.outcome, conduct, show LineRun.answer ⟨some line, lo, hi, s⟩ =
      fun x => tryLine ⟨line, x⟩ from rfl]
  generalize Search.run _ hear (GoldenSection.minimize params lo hi) s = run
  obtain ⟨r | r, s'⟩ := run <;> rfl

/-- The search does run so. -/
theorem Makes.conduct_eq {out : Outcome α ρ × Session α} (h : Makes params m s searches out) :
    conduct tryLine m s = out := by
  induction h with
  | done => rfl
  | told rest ih => exact ih
  | @completed line lo hi k s _ _ minimum h rest ih =>
      have halong := conduct_along params line lo hi s
      rw [conduct] at halong
      rw [conduct, Search.run_bind, halong, h]
      exact ih
  | @cut line lo hi k s e h =>
      have halong := conduct_along params line lo hi s
      rw [conduct] at halong
      rw [conduct, Search.run_bind, halong, h]

theorem Makes.bind {k : ρ → Search α (LinePoint α) τ} {x : ρ} {s' : Session α}
    {out : Outcome α τ × Session α} (h : Makes params m s searches (.ok x, s'))
    (h' : Makes params (k x) s' searches' out) :
    Makes params (m >>= k) s (searches ++ searches') out := by
  generalize hend : ((.ok x, s') : Outcome α ρ × Session α) = mid at h
  induction h with
  | done =>
      cases hend
      exact h'
  | told rest ih => exact .told (ih hend)
  | completed h rest ih =>
      rw [bind_assoc]
      exact .completed h (ih hend)
  | cut => cases hend

theorem Makes.bind_error {k : ρ → Search α (LinePoint α) τ} {e : DesignError α} {s' : Session α}
    (h : Makes params m s searches (.error e, s')) :
    Makes params (m >>= k) s searches (.error e, s') := by
  generalize hend : ((.error e, s') : Outcome α ρ × Session α) = mid at h
  induction h with
  | done =>
      cases hend
      exact .done
  | told rest ih => exact .told (ih hend)
  | completed h rest ih =>
      rw [bind_assoc]
      exact .completed h (ih hend)
  | cut h =>
      cases hend
      rw [bind_assoc]
      exact .cut h

/-- The line searches that a search makes, with what the run enters into the journal. -/
structure Logs (params : LineSearchParams α) (m : Search α (LinePoint α) ρ) (s : Session α)
    (searches : List (LineRun α)) (out : Outcome α ρ × Session α) (entries : List (Notice α)) :
    Prop where
  makes : Makes params m s searches out
  wellFormed : out.2.spectrum.WellFormed
  journal_eq : out.2.journal.toList = s.journal.toList ++ entries

namespace Logs

variable {out : Outcome α ρ × Session α} {entries entries' : List (Notice α)}

theorem done {r : Outcome α ρ} (hs : s.spectrum.WellFormed) :
    Logs params (.done r) s [] (r, s) [] :=
  ⟨.done, hs, (List.append_nil _).symm⟩

theorem told {n : Notice α} (h : Logs params m (hear n s) searches out entries) :
    Logs params (.tell n m) s searches out (n :: entries) := by
  refine ⟨.told h.makes, h.wellFormed, ?_⟩
  rw [h.journal_eq, hear, Array.toList_push, List.append_assoc]
  rfl

theorem toldIf {n : Notice α} {c : Prop} [Decidable c] {k : PUnit → Search α (LinePoint α) ρ}
    {P : List (LineRun α) → Outcome α ρ × Session α → List (Notice α) → Prop}
    (h : ∃ searches out entries,
      Logs params (k ⟨⟩) (if c then hear n s else s) searches out entries ∧
        P searches out ((if c then [n] else []) ++ entries)) :
    ∃ searches out entries, Logs params (if c then Search.post n >>= k else k ⟨⟩) s searches out
      entries ∧ P searches out entries := by
  obtain ⟨searches, out, entries, hlogs, hp⟩ := h
  by_cases hc : c
  · simp only [if_pos hc] at hlogs hp ⊢
    exact ⟨_, _, _, hlogs.told, hp⟩
  · simp only [if_neg hc] at hlogs hp ⊢
    exact ⟨_, _, _, hlogs, hp⟩

/-- A line search in front of others: it is cut short, or they follow it. -/
theorem along {k : LineMinimum α → Search α (LinePoint α) ρ}
    {P : List (LineRun α) → Outcome α ρ × Session α → List (Notice α) → Prop}
    (line : SlotLine α) (lo hi : α) (hs : s.spectrum.WellFormed)
    (hcut : ∀ e s', LineRun.outcome ⟨some line, lo, hi, s⟩ params = .error e →
      P [⟨some line, lo, hi, s⟩] (.error e, s') (LineRun.log ⟨some line, lo, hi, s⟩ params))
    (hrest : ∀ minimum s', LineRun.outcome ⟨some line, lo, hi, s⟩ params = .ok minimum →
      s'.spectrum.WellFormed → ∃ searches out entries,
        Logs params (k minimum) s' searches out entries ∧
          P (⟨some line, lo, hi, s⟩ :: searches) out
            (LineRun.log ⟨some line, lo, hi, s⟩ params ++ entries)) :
    ∃ searches out entries, Logs params (along params line lo hi >>= k) s searches out entries ∧
      P searches out entries := by
  have hfits : LineRun.Fits ⟨some line, lo, hi, s⟩ s := ⟨hs, nofun⟩
  have hwellFormed := (LineRun.fits_after params hfits).wellFormed
  have hjournal := LineRun.journal_after params hfits
  cases h : LineRun.outcome ⟨some line, lo, hi, s⟩ params with
  | error e => exact ⟨_, _, _, ⟨.cut h, hwellFormed, hjournal⟩, hcut e _ h⟩
  | ok minimum =>
      obtain ⟨searches, out, entries, hlogs, hp⟩ := hrest minimum _ h hwellFormed
      refine ⟨_, _, _, ⟨.completed h hlogs.makes, hlogs.wellFormed, ?_⟩, hp⟩
      rw [hlogs.journal_eq, hjournal, List.append_assoc]

theorem bind {k : ρ → Search α (LinePoint α) τ} {x : ρ} {s' : Session α}
    {out : Outcome α τ × Session α} (h : Logs params m s searches (.ok x, s') entries)
    (h' : Logs params (k x) s' searches' out entries') :
    Logs params (m >>= k) s (searches ++ searches') out (entries ++ entries') := by
  refine ⟨h.makes.bind h'.makes, h'.wellFormed, ?_⟩
  rw [h'.journal_eq, h.journal_eq, List.append_assoc]

/-- No line search follows. -/
theorem bind_quiet {k : ρ → Search α (LinePoint α) τ} {x : ρ} {s' : Session α}
    {out : Outcome α τ × Session α} (h : Logs params m s searches (.ok x, s') entries)
    (h' : Logs params (k x) s' [] out entries') :
    Logs params (m >>= k) s searches out (entries ++ entries') := by
  have hboth := h.bind h'
  rwa [List.append_nil] at hboth

theorem bind_error {k : ρ → Search α (LinePoint α) τ} {e : DesignError α} {s' : Session α}
    (h : Logs params m s searches (.error e, s') entries) :
    Logs params (m >>= k) s searches (.error e, s') entries :=
  ⟨h.makes.bind_error, h.wellFormed, h.journal_eq⟩

end Logs

/-- The log of the line searches of a direction search from an outer iteration on: three for each
iteration, fewer in one that is cut short. -/
def roundsLog (params : LineSearchParams α) : (outer : Nat) → List (LineRun α) → List (Notice α)
  | outer, first :: second :: third :: rest =>
    first.log params ++ (second.log params ++
      ((if 0 < third.lo ∨ third.hi < 1 then [.lineClipped] else []) ++ (third.log params ++
        ((if (third.minimum? params).isSome then [.planeIterated outer] else []) ++
          roundsLog params (outer + 1) rest))))
  | _, searches => searches.flatMap (·.log params)

theorem roundsLog_one (r : LineRun α) : roundsLog params outer [r] = r.log params :=
  List.append_nil _

theorem roundsLog_two (r r' : LineRun α) :
    roundsLog params outer [r, r'] = r.log params ++ r'.log params := by
  simp [roundsLog]

theorem roundsLog_append (first second third : LineRun α) (rest : List (LineRun α)) :
    roundsLog params outer ([first, second, third] ++ rest) =
      roundsLog params outer [first, second, third] ++ roundsLog params (outer + 1) rest := by
  simp [roundsLog]

/-- The line searches and entries of one outer iteration: three line searches, or fewer where it
fails. -/
structure IsRound (params : LineSearchParams α) (outer : Nat) (searches : List (LineRun α))
    (out : Outcome α ρ × Session α) (entries : List (Notice α)) : Prop where
  entries_eq : entries = roundsLog params outer searches
  three : ∀ v, out.1 = .ok v → ∃ first second third, searches = [first, second, third]

theorem IsRound.failed {e : DesignError α} {entries : List (Notice α)}
    (h : entries = roundsLog params outer searches) :
    IsRound params outer searches ((.error e, s) : Outcome α ρ × Session α) entries := by
  refine ⟨h, fun v hv => ?_⟩
  cases hv

theorem iterate_logs (params : LineSearchParams α) (direction : PlaneSearchParams α) (outer : Nat)
    (y : α) (hs : s.spectrum.WellFormed) :
    ∃ searches out entries, Logs params (iterate params direction outer y) s searches out entries ∧
      IsRound params outer searches out entries := by
  unfold iterate
  refine Logs.along _ 0 1 hs (fun _ _ _ => .failed (roundsLog_one _).symm) fun m1 s1 _ hs1 => ?_
  refine Logs.along _ 0 1 hs1 (fun _ _ _ => .failed (roundsLog_two _ _).symm) fun m2 s2 _ hs2 => ?_
  dsimp only
  split
  · refine ⟨_, _, _, .done hs2, .failed ?_⟩
    rw [List.append_nil, roundsLog_two]
  · generalize fittedSlot y _ _ = second
    split
    · refine ⟨_, _, _, .done hs2, .failed ?_⟩
      rw [List.append_nil, roundsLog_two]
    · rename_i lo hi _
      have hs2' : (if 0 < lo ∨ hi < 1 then hear .lineClipped s2 else s2).spectrum.WellFormed := by
        split <;> exact hs2
      refine Logs.toldIf (Logs.along _ lo hi hs2' (fun e _ h3 => .failed ?_)
        fun m3 s3 h3 hs3 => ?_)
      · simp [roundsLog, LineRun.minimum?, h3, Except.toOption]
      · refine ⟨_, _, _, .told (.done hs3), ?_, fun v _ => ⟨_, _, _, rfl⟩⟩
        simp [roundsLog, LineRun.minimum?, h3, Except.toOption]

/-- A search that goes on after an iteration. -/
theorem Logs.bind_round {k : ρ → Search α (LinePoint α) τ}
    (h : ∃ searches out entries, Logs params m s searches out entries ∧
      IsRound params outer searches out entries)
    (hrest : ∀ v s', s'.spectrum.WellFormed → ∃ searches out,
      Logs params (k v) s' searches out (roundsLog params (outer + 1) searches)) :
    ∃ searches out, Logs params (m >>= k) s searches out (roundsLog params outer searches) := by
  obtain ⟨searches, ⟨a, s'⟩, _, hlogs, rfl, hthree⟩ := h
  cases a with
  | error e => exact ⟨_, _, hlogs.bind_error⟩
  | ok v =>
      obtain ⟨first, second, third, rfl⟩ := hthree v rfl
      obtain ⟨rest, out, hrest⟩ := hrest v s' hlogs.wellFormed
      refine ⟨[first, second, third] ++ rest, out, ?_⟩
      rw [roundsLog_append]
      exact hlogs.bind hrest

theorem descend_logs (params : LineSearchParams α) (direction : PlaneSearchParams α)
    (rippleTol : α) (remaining outer : Nat) (y previous : α) (best : Option (Vertex α))
    (hs : s.spectrum.WellFormed) :
    ∃ searches out, Logs params
      (descend params direction rippleTol remaining outer y previous best) s searches out
      (roundsLog params outer searches) := by
  induction remaining generalizing outer y previous best s with
  | zero =>
      rw [descend]
      exact Logs.bind_round (iterate_logs params direction outer y hs) fun v s' hs' =>
        ⟨[], _, .done hs'⟩
  | succ remaining ih =>
      rw [descend]
      refine Logs.bind_round (iterate_logs params direction outer y hs) fun v s' hs' => ?_
      split
      · exact ⟨[], _, .done hs'⟩
      · exact ih (outer + 1) v.y v.objective _ hs'

/-- What is read off the logs of the line searches is not disturbed by what is said between them. -/
theorem filterMap_roundsLog {β : Type} {f : Notice α → Option β} (hclipped : f .lineClipped = none)
    (hiterated : ∀ outer, f (.planeIterated outer) = none) (outer : Nat)
    (searches : List (LineRun α)) :
    (roundsLog params outer searches).filterMap f =
      searches.flatMap fun r => (r.log params).filterMap f := by
  induction searches using everyThird.induct generalizing outer with
  | case1 first second third rest ih =>
      simp only [roundsLog, List.filterMap_append, ih, List.flatMap_cons,
        Notice.filterMap_ite hclipped, Notice.filterMap_ite (hiterated outer), List.nil_append]
  | case2 searches hshort =>
      rw [roundsLog.eq_2 params outer searches hshort, List.filterMap_flatMap]

/-- What is logged apart from trials and finished line searches: two warnings for each line search,
and the iterations. -/
theorem countP_roundsLog {p : Notice α → Bool} {b : Bool} (htrial : ∀ t, p (.trial t) = false)
    (hfinished : ∀ m, p (.lineSearchFinished m) = false) (hclipped : p .lineClipped = false)
    (hiterated : ∀ outer, p (.planeIterated outer) = b) (outer : Nat)
    (searches : List (LineRun α)) :
    (roundsLog params outer searches).countP p =
      (searches.countP fun r => p .bracketingExhausted &&
        GoldenSection.Exhausted params.maxBracketSteps (r.trials params)) +
      (searches.countP fun r => p .narrowingCapped &&
        (r.minimum? params).map (·.converged) = some false) +
      (everyThird searches).countP fun r => b && (r.minimum? params).isSome := by
  induction searches using everyThird.induct generalizing outer with
  | case1 first second third rest ih =>
      simp only [roundsLog, everyThird, List.countP_append, List.countP_cons, ih,
        Notice.countP_ite, hclipped, hiterated, LineRun.countP_log params htrial hfinished,
        Bool.false_and, Bool.false_eq_true, if_false, Bool.decide_eq_true]
      omega
  | case2 searches hshort =>
      rw [roundsLog.eq_2 params outer searches hshort, everyThird.eq_2 searches hshort]
      clear hshort
      induction searches with
      | nil => rfl
      | cons r rest ih =>
          rw [List.flatMap_cons, List.countP_append, ih, List.countP_cons, List.countP_cons,
            LineRun.countP_log params htrial hfinished]
          omega

/-- What a direction search says at its end, by whether it has settled if it ends well. -/
def closing (settled : Option Bool) : List (Notice α) :=
  if settled = some false then [.planeCapped] else []

theorem search_logs (params : LineSearchParams α) (direction : PlaneSearchParams α)
    (transitions : Nat) (hs : s.spectrum.WellFormed) :
    ∃ searches out, Logs params (search params direction transitions) s searches out
      (roundsLog params 1 searches ++ closing (out.1.toOption.map (·.converged))) := by
  unfold search
  cases direction.check with
  | error e => exact ⟨[], _, .done hs⟩
  | ok u =>
      cases params.check with
      | error e => exact ⟨[], _, .done hs⟩
      | ok u =>
          by_cases htwo : transitions ≠ 2
          · simp only [if_pos htwo]
            exact ⟨[], _, .done hs⟩
          · simp only [if_neg htwo]
            obtain ⟨searches, ⟨d, s'⟩, hlogs⟩ := descend_logs params direction
              (direction.rippleTolOr params.tol) (direction.maxOuterIterations - 1) 1
              direction.startLevel noEarlierMinimum none hs
            cases d with
            | error e =>
                refine ⟨searches, (.error e, s'), ?_⟩
                rw [show closing (Option.map _ _) = ([] : List (Notice α)) from rfl,
                  List.append_nil]
                exact hlogs.bind_error
            | ok d =>
                refine ⟨searches, (.ok d, if d.converged then s' else hear .planeCapped s'), ?_⟩
                rw [Except.toOption, Option.map_some]
                refine hlogs.bind_quiet ?_
                cases d.converged with
                | true => exact .done hlogs.wellFormed
                | false => exact .told (.done hlogs.wellFormed)

end FrequencySampling.PlaneSearch
