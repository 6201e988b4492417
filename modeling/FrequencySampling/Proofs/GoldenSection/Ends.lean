import FrequencySampling.Proofs.DoubleOrder
import FrequencySampling.Proofs.GoldenSection.Contract

/-!
What a line search is worth against the ends of its interval. From the trial at which bracketing
ends, no value that is heard is lost: the minimum is the least of them. The ends themselves are
heard before and are not kept, so the minimum beats them if that trial did, and can be worse than
both where no trial was good enough.
-/

namespace FrequencySampling.GoldenSection

variable {α : Type} [Scalar α]

section Trials

variable {es : List (Search.Event α α)}

theorem bracket_heard {trialAt : α → α} {target : α} {remaining : Nat} {step : α}
    {last b : Bracket α} (hremaining : remaining ≠ 0)
    (h : Search.Transcript (bracket trialAt target remaining step last) es (.ok b)) :
    ∃ missed, Search.heard es = missed ++ [(b.point, b.value)] ∧
      (∀ e ∈ missed, ¬ e.2 < target) ∧ missed.length < remaining ∧
      (b.found = true ↔ b.value < target) ∧ (b.found = false → missed.length + 1 = remaining) := by
  induction remaining generalizing es step last with
  | zero => exact absurd rfl hremaining
  | succ remaining ih =>
      obtain ⟨_, f, rest, hvalue, hrest, rfl⟩ := Search.Transcript.of_bind h
      rw [hvalue.of_value, Search.heard_append]
      split at hrest
      · rename_i hlt
        obtain ⟨rfl, hb⟩ := hrest.of_pure
        cases hb
        exact ⟨[], rfl, nofun, Nat.succ_pos _, iff_of_true rfl hlt, nofun⟩
      · rename_i hnot
        cases remaining with
        | zero =>
            obtain ⟨rfl, hb⟩ := hrest.of_pure
            cases hb
            exact ⟨[], rfl, nofun, Nat.succ_pos _, iff_of_false nofun hnot, fun _ => rfl⟩
        | succ remaining =>
            obtain ⟨missed, hheard, hmissed, hlength, hfound, hall⟩ := ih (Nat.succ_ne_zero _) hrest
            refine ⟨_ :: missed, by rw [hheard]; rfl, ?_, Nat.succ_lt_succ hlength, hfound, ?_⟩
            · exact List.forall_mem_cons.mpr ⟨hnot, hmissed⟩
            · exact fun hexhausted => congrArg (· + 1) (hall hexhausted)

/-- Bracketing posts nothing itself. -/
theorem not_told_of_bracket {trialAt : α → α} {target : α} {remaining : Nat} {step : α}
    {last : Bracket α} {r : Outcome α (Bracket α)} (hremaining : remaining ≠ 0)
    (h : Search.Transcript (bracket trialAt target remaining step last) es r) (n : Notice α) :
    .told n ∉ es := by
  have hobeys : (bracket trialAt target remaining step last).Obeys
      { tells := fun _ => False } fun _ => True ∧ True :=
    @bracket_obeys α _ _ (fun _ => True) (fun _ => True) trialAt target
      (fun _ _ => ⟨trivial, trivial⟩) (fun _ _ => trivial) remaining step last trivial
      (.inl hremaining)
  exact (hobeys.transcript h fun _ _ _ => trivial).2.1 n

theorem not_told_of_narrow {tol : α} {remaining made : Nat} {fr : Frame α}
    {r : Outcome α (Narrowing α)}
    (h : Search.Transcript (narrow tol remaining made fr) es r) (n : Notice α) :
    .told n ∉ es := by
  have hobeys : (narrow tol remaining made fr).Obeys { tells := fun _ => False } fun _ => True :=
    narrow_obeys (I := fun _ => True) (fun _ _ => trivial) (fun _ _ _ _ => trivial) tol trivial
  exact (hobeys.transcript h fun _ _ _ => trivial).2.1 n

end Trials

section Least

open Scalar (ComparesNumbers)

variable [ComparesNumbers α] {heard : List (α × α)} {fr : Frame α}

/-- Nothing that was heard is below both inner values, and these were heard themselves. -/
structure Frame.Leads (heard : List (α × α)) (fr : Frame α) : Prop where
  first_mem : (fr.x1, fr.f1) ∈ heard
  second_mem : (fr.x2, fr.f2) ∈ heard
  least : ∀ e ∈ heard, fr.f1 ≤ e.2 ∨ fr.f2 ≤ e.2

theorem Frame.Leads.narrowed {f : α} (h : fr.Leads heard)
    (hnumbers : ∀ e ∈ heard, Scalar.isNaN e.2 = false) (hf : Scalar.isNaN f = false) :
    (fr.narrowed f).Leads (heard ++ [(fr.nextPoint, f)]) := by
  have h1 := hnumbers _ h.first_mem
  have h2 := hnumbers _ h.second_mem
  have hnew : (fr.nextPoint, f) ∈ heard ++ [(fr.nextPoint, f)] :=
    List.mem_append_right _ (List.mem_singleton_self _)
  unfold Frame.narrowed
  by_cases hkeeps : fr.f1 ≤ fr.f2
  · have hleft : fr.keepsLeft = true := decide_eq_true hkeeps
    rw [if_pos hleft]
    refine ⟨hnew, List.mem_append_left _ h.first_mem, fun e he => ?_⟩
    rcases List.mem_append.mp he with he | he
    · rcases h.least e he with hle | hle
      · exact .inr hle
      · exact .inr (ComparesNumbers.le_trans h1 h2 (hnumbers e he) hkeeps hle)
    · obtain rfl := List.mem_singleton.mp he
      exact .inl (ComparesNumbers.le_refl hf)
  · have hright : ¬ fr.keepsLeft = true := fun hleft => hkeeps (of_decide_eq_true hleft)
    rw [if_neg hright]
    refine ⟨List.mem_append_left _ h.second_mem, hnew, fun e he => ?_⟩
    rcases List.mem_append.mp he with he | he
    · rcases h.least e he with hle | hle
      · have hlt := ComparesNumbers.lt_of_not_le h1 h2 hkeeps
        have hlt' := ComparesNumbers.lt_of_lt_of_le (hnumbers e he) hlt hle
        exact .inl (ComparesNumbers.le_of_lt hlt')
      · exact .inl hle
    · obtain rfl := List.mem_singleton.mp he
      exact .inr (ComparesNumbers.le_refl hf)

theorem Frame.Leads.best (h : fr.Leads heard) (hnumbers : ∀ e ∈ heard, Scalar.isNaN e.2 = false) :
    fr.best ∈ heard ∧ ∀ e ∈ heard, fr.best.2 ≤ e.2 := by
  have h1 := hnumbers _ h.first_mem
  have h2 := hnumbers _ h.second_mem
  unfold Frame.best
  split
  · rename_i hlt
    refine ⟨h.first_mem, fun e he => (h.least e he).elim id fun hle => ?_⟩
    exact ComparesNumbers.le_of_lt (ComparesNumbers.lt_of_lt_of_le (hnumbers e he) hlt hle)
  · rename_i hnot
    refine ⟨h.second_mem, fun e he => (h.least e he).elim (fun hle => ?_) id⟩
    have hle' := ComparesNumbers.le_of_not_lt h2 h1 hnot
    exact ComparesNumbers.le_trans h2 h1 (hnumbers e he) hle' hle

/-- Every step keeps the lead, so the frame that narrowing ends with has it. -/
theorem narrow_leads {tol : α} {remaining made : Nat} {n : Narrowing α}
    {es : List (Search.Event α α)}
    (h : Search.Transcript (narrow tol remaining made fr) es (.ok n)) (hfr : fr.Leads heard)
    (hnumbers : ∀ e ∈ heard ++ Search.heard es, Scalar.isNaN e.2 = false) :
    n.frame.Leads (heard ++ Search.heard es) := by
  induction remaining generalizing es made fr heard with
  | zero =>
      obtain ⟨rfl, hn⟩ := h.of_pure
      cases hn
      simpa [Search.heard] using hfr
  | succ remaining ih =>
      simp only [narrow] at h
      split at h
      · obtain ⟨rfl, hn⟩ := h.of_pure
        cases hn
        simpa [Search.heard] using hfr
      · obtain ⟨_, f, rest, hvalue, hrest, rfl⟩ := Search.Transcript.of_bind h
        rw [hvalue.of_value, Search.heard_append, ← List.append_assoc] at hnumbers ⊢
        have hbefore := fun e he => hnumbers e (List.mem_append_left _ he)
        have hf : Scalar.isNaN f = false :=
          hbefore (fr.nextPoint, f) (List.mem_append_right _ (List.mem_singleton_self _))
        have hnext := hfr.narrowed (fun e he => hbefore e (List.mem_append_left _ he)) hf
        exact ih hrest hnext hnumbers

theorem lt_target_iff {f left right : α} (hleft : Scalar.isNaN left = false) :
    (f < if decide (left < right) then left else right) ↔ f < left ∧ f < right := by
  by_cases hlt : left < right
  · simp only [hlt, decide_true, if_true]
    exact (and_iff_left_of_imp fun h => Scalar.OrdersNumbers.lt_trans h hlt).symm
  · simp only [hlt, decide_false, Bool.false_eq_true, if_false]
    exact (and_iff_right_of_imp fun h =>
      (Scalar.OrdersNumbers.lt_or_lt hleft h).resolve_right hlt).symm

/-- What a line search has heard: both ends, the trials that did not beat them, the trial that
narrowing starts from, and everything later. It warns if even that trial beats them not. -/
structure Hears (params : LineSearchParams α) (lo hi : α) (es : List (Search.Event α α))
    (left right : α) (missed : List (α × α)) (accepted : α × α) (later : List (α × α)) : Prop where
  heard_eq : Search.heard es = (lo, left) :: (hi, right) :: (missed ++ accepted :: later)
  missed_trials : ∀ e ∈ missed, ¬ (e.2 < left ∧ e.2 < right)
  length_lt : missed.length < params.maxBracketSteps
  warned_iff : .told .bracketingExhausted ∈ es ↔ ¬ (accepted.2 < left ∧ accepted.2 < right)
  exhausted : .told .bracketingExhausted ∈ es → missed.length + 1 = params.maxBracketSteps

theorem opening_hears {params : LineSearchParams α} {lo hi : α} {o : Opening α}
    {es : List (Search.Event α α)} (h : Search.Transcript (opening params lo hi) es (.ok o))
    (hnumbers : ∀ e ∈ Search.heard es, Scalar.isNaN e.2 = false) :
    ∃ left right missed accepted inner, Hears params lo hi es left right missed accepted [inner] ∧
      o.frame.Leads [accepted, inner] := by
  obtain ⟨left, right, trials, b, innerValue, hsteps, hb, hevents, hframe⟩ := opening_events h
  obtain ⟨missed, hheard, hmissed, hlength, hfound, hall⟩ := bracket_heard hsteps hb
  have htrials := not_told_of_bracket hsteps hb .bracketingExhausted
  have hes : Search.heard es = (lo, left) :: (hi, right) :: (missed ++
      (b.point, b.value) :: [(b.point + smallPart * (hi - b.point), innerValue)]) := by
    rw [hevents]
    change _ :: _ :: Search.heard (trials ++ _) = _
    rw [Search.heard_append, Search.heard_append, hheard, Search.heard_told_if, List.append_assoc]
    rfl
  have hnumber : ∀ {x v}, (x, v) ∈ Search.heard es → Scalar.isNaN v = false :=
    fun hin => hnumbers _ hin
  have hleftNumber : Scalar.isNaN left = false := hnumber (x := lo) (by simp [hes])
  have hvalueNumber : Scalar.isNaN b.value = false := hnumber (x := b.point) (by simp [hes])
  have hinnerNumber : Scalar.isNaN innerValue = false :=
    hnumber (x := b.point + smallPart * (hi - b.point)) (by simp [hes])
  have hbeats : (b.value < _) ↔ b.value < left ∧ b.value < right := lt_target_iff hleftNumber
  have hwarned : .told .bracketingExhausted ∈ es ↔ b.found = false := by
    rw [hevents]
    simp [htrials]
  refine ⟨left, right, missed, _, _, ⟨hes, fun e he hboth => ?_, hlength, ?_, fun htold => ?_⟩, ?_⟩
  · exact hmissed e he ((lt_target_iff hleftNumber).mpr hboth)
  · rw [hwarned, ← hbeats, ← hfound, Bool.not_eq_true]
  · exact hall (hwarned.mp htold)
  · rw [hframe]
    exact ⟨List.mem_cons_self, List.mem_cons_of_mem _ List.mem_cons_self,
      List.forall_mem_cons.mpr ⟨.inl (ComparesNumbers.le_refl hvalueNumber),
        List.forall_mem_singleton.mpr (.inr (ComparesNumbers.le_refl hinnerNumber))⟩⟩

theorem minimize_hears {params : LineSearchParams α} {lo hi : α} {m : LineMinimum α}
    {es : List (Search.Event α α)} (h : Search.Transcript (minimize params lo hi) es (.ok m))
    (hnumbers : ∀ e ∈ Search.heard es, Scalar.isNaN e.2 = false) :
    ∃ left right missed accepted later, Hears params lo hi es left right missed accepted later ∧
      (m.x, m.f) ∈ accepted :: later ∧ ∀ e ∈ accepted :: later, m.f ≤ e.2 := by
  obtain ⟨opened, o, narrowed, n, ho, hn, rfl, hes⟩ := minimize_events h
  have hheard : Search.heard es = Search.heard opened ++ Search.heard narrowed := by
    rw [hes, Search.heard_append, Search.heard_append, Search.heard_told_if, List.append_nil]
  rw [hheard] at hnumbers
  obtain ⟨left, right, missed, accepted, inner, hopened, hleads⟩ :=
    opening_hears ho fun e he => hnumbers e (List.mem_append_left _ he)
  have htold : .told .bracketingExhausted ∈ es ↔ .told .bracketingExhausted ∈ opened := by
    rw [hes]
    have hnarrowed := not_told_of_narrow hn .bracketingExhausted
    simp [hnarrowed]
  have hfrom : Search.heard es = (lo, left) :: (hi, right) :: (missed ++ accepted ::
      (inner :: Search.heard narrowed)) := by
    rw [hheard, hopened.heard_eq]
    simp
  have hlater : ∀ e ∈ [accepted, inner] ++ Search.heard narrowed,
      e ∈ Search.heard opened ++ Search.heard narrowed := by
    intro e he
    rw [hopened.heard_eq]
    grind
  have hlead := narrow_leads hn hleads fun e he => hnumbers e (hlater e he)
  exact ⟨left, right, missed, accepted, inner :: Search.heard narrowed,
    ⟨hfrom, hopened.missed_trials, hopened.length_lt, htold.trans hopened.warned_iff,
      fun h => hopened.exhausted (htold.mp h)⟩, hlead.best fun e he => hnumbers e (hlater e he)⟩

end Least

/-- Where its parameters and its interval pass, a line search fails only with its objective. -/
theorem minimize_ensures {params : LineSearchParams α} {lo hi : α} (hparams : params.check = .ok ())
    (hlo : Scalar.isFinite lo = true) (hhi : Scalar.isFinite hi = true) (hdomain : ¬ hi ≤ lo)
    (answers : α → α → Prop) : (minimize params lo hi).Ensures answers fun _ => True := by
  have hopening : (opening params lo hi).Obeys { answers := answers, fails := fun _ => False } _ :=
    opening_obeys Covers.everywhere trivial (fun e he => nomatch hparams.symm.trans he)
      fun hempty => by simp [hlo, hhi, hdomain] at hempty
  have hobeys := minimize_obeys (I := fun _ => True) (hopening.mono fun _ _ => trivial)
    (fun _ _ => trivial) (fun _ _ _ _ => trivial) trivial
  exact (hobeys.mono fun _ _ => trivial).ensures fun _ h => h

/-- A line search against the ends of its interval, for an objective that never fails and always
gives a number. The minimum is the least value from the accepted trial on. It is below both ends
unless bracketing was exhausted, and then it is as good as both exactly if one of these values
is. -/
theorem minimize_against_ends [Scalar.ComparesNumbers α] {params : LineSearchParams α} {lo hi : α}
    (hparams : params.check = .ok ()) (hlo : Scalar.isFinite lo = true)
    (hhi : Scalar.isFinite hi = true) (hdomain : ¬ hi ≤ lo) {σ : Type}
    {answer : α → σ → Outcome α α × σ} (hear : Notice α → σ → σ)
    (hanswer : ∀ x s, ∃ v s', answer x s = (.ok v, s') ∧ Scalar.isNaN v = false) (s : σ) :
    ∃ m s' left right missed accepted later,
      (minimize params lo hi).run answer hear s = (.ok m, s') ∧
      Hears params lo hi ((minimize params lo hi).events answer hear s) left right missed accepted
        later ∧
      (m.x, m.f) ∈ accepted :: later ∧ (∀ e ∈ accepted :: later, m.f ≤ e.2) ∧
      (.told .bracketingExhausted ∉ (minimize params lo hi).events answer hear s →
        m.f < left ∧ m.f < right) ∧
      (m.f ≤ left ∧ m.f ≤ right ↔ ∃ e ∈ accepted :: later, e.2 ≤ left ∧ e.2 ≤ right) := by
  obtain ⟨m, s', hrun, -⟩ := (minimize_ensures hparams hlo hhi hdomain
    fun _ v => Scalar.isNaN v = false).run hear hanswer s
  have htranscript := Search.transcript_events answer hear (minimize params lo hi) s
  rw [hrun] at htranscript
  have hnumbers : ∀ e ∈ Search.heard ((minimize params lo hi).events answer hear s),
      Scalar.isNaN e.2 = false := by
    rintro ⟨x, v⟩ he
    obtain ⟨t, ht⟩ := Search.answer_of_mem_events answer hear (Search.mem_heard.mp he)
    obtain ⟨w, t', hw, hnumber⟩ := hanswer x t
    rw [hw] at ht
    cases ht
    exact hnumber
  obtain ⟨left, right, missed, accepted, later, hhears, hmem, hleast⟩ :=
    minimize_hears htranscript hnumbers
  have hnumber : ∀ e ∈ (lo, left) :: (hi, right) :: (missed ++ accepted :: later),
      Scalar.isNaN e.2 = false := hhears.heard_eq ▸ hnumbers
  have hleft : Scalar.isNaN left = false := hnumber (lo, left) (by simp)
  have hright : Scalar.isNaN right = false := hnumber (hi, right) (by simp)
  have hlater : ∀ e ∈ accepted :: later, Scalar.isNaN e.2 = false :=
    fun e he => hnumber e (by simp at he ⊢; tauto)
  have hm : Scalar.isNaN m.f = false := hlater _ hmem
  refine ⟨m, s', left, right, missed, accepted, later, hrun, hhears, hmem, hleast, fun hquiet => ?_,
    fun hends => ⟨_, hmem, hends⟩, ?_⟩
  · obtain ⟨hbelow, hbelow'⟩ := not_not.mp (mt hhears.warned_iff.mpr hquiet)
    have hle := hleast accepted List.mem_cons_self
    exact ⟨Scalar.ComparesNumbers.lt_of_le_of_lt hm hle hbelow,
      Scalar.ComparesNumbers.lt_of_le_of_lt hm hle hbelow'⟩
  · rintro ⟨e, he, hbelow, hbelow'⟩
    have hle := hleast e he
    exact ⟨Scalar.ComparesNumbers.le_trans hm (hlater e he) hleft hle hbelow,
      Scalar.ComparesNumbers.le_trans hm (hlater e he) hright hle hbelow'⟩

/-- A parabola with its vertex in the middle, searched until the frame is half as wide. -/
theorem minimize_against_ends_parabola :
    ∃ m, ((minimize (⟨mkRat 1 2, 5, 5⟩ : LineSearchParams ℚ) 0 1).run
      (fun x u => (.ok ((x - mkRat 1 2) * (x - mkRat 1 2)), u)) (fun _ u => u) ()).1 = .ok m ∧
      m.f < mkRat 1 4 := by
  have hquiet : ((minimize (⟨mkRat 1 2, 5, 5⟩ : LineSearchParams ℚ) 0 1).events
      (fun x u => (.ok ((x - mkRat 1 2) * (x - mkRat 1 2)), u)) (fun _ u => u) ()).all
        Search.Event.isAsked = true := by
    decide +kernel
  obtain ⟨m, s', left, right, missed, accepted, later, hrun, hhears, -, -, hbelow, -⟩ :=
    @minimize_against_ends ℚ _ _ ⟨mkRat 1 2, 5, 5⟩ 0 1
      (LineSearchParams.accepts_iff.mpr (by decide +kernel)) rfl rfl (by decide +kernel) Unit
      (fun x u => (.ok ((x - mkRat 1 2) * (x - mkRat 1 2)), u)) (fun _ u => u)
      (fun x u => ⟨_, u, rfl, rfl⟩) ()
  have hbelow := hbelow fun htold => nomatch List.all_eq_true.mp hquiet _ htold
  refine ⟨m, by rw [hrun], ?_⟩
  obtain ⟨t, ht⟩ := Search.answer_of_mem_events _ _ (Search.mem_heard.mp
    (hhears.heard_eq ▸ List.mem_cons_self : ((0 : ℚ), left) ∈ _))
  have hleft : left = mkRat 1 4 := (Except.ok.inj ht).symm.trans (by decide +kernel)
  exact hleft ▸ hbelow.1

/-- A rising objective that is a number everywhere. -/
def rising (x : Float) : Float :=
  if x.isNaN then 1 else x

/-- Where the objective rises, no trial is below the left end, and the search ends above it. -/
theorem minimize_above_end :
    (∀ x, (rising x).isNaN = false) ∧
      ∃ m, ((minimize (⟨0.5, 1, 1⟩ : LineSearchParams Float) 0 1).run
        (fun x u => (.ok (rising x), u)) (fun _ u => u) ()).1.toOption = some m ∧
        rising 0 < m.f := by
  constructor
  · intro x
    unfold rising
    cases hx : x.isNaN with
    | true => exact show (1 : Float).isNaN = false by decide +kernel
    | false => exact hx
  · have habove : ((minimize (⟨0.5, 1, 1⟩ : LineSearchParams Float) 0 1).run
        (fun x u => (.ok (rising x), u)) (fun _ u => u) ()).1.toOption.map
          (fun m => decide (rising 0 < m.f)) = some true := by
      decide +kernel
    obtain ⟨m, hm, hlt⟩ := Option.map_eq_some_iff.mp habove
    exact ⟨m, hm, of_decide_eq_true hlt⟩

end FrequencySampling.GoldenSection
