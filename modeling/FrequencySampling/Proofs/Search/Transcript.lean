import FrequencySampling.Proofs.Search.Contract

/-!
The events of a run: the questions a search asks with what came back, and the notices it posts. A
transcript relates a search to the events after which it may end with a given outcome, whatever
the objective is; every run writes one. Transcripts of a search made of parts fall into
transcripts of the parts.
-/

namespace FrequencySampling.Search

variable {α π κ ρ τ : Type}

inductive Event (α π : Type) where
  | asked (point : π) (answer : Outcome α α)
  | told (notice : Notice α)

/-- The same event with its point moved. -/
def Event.mapPoint (place : π → κ) : Event α π → Event α κ
  | .asked p a => .asked (place p) a
  | .told n => .told n

/-- Whether the event is a question. -/
def Event.isAsked : Event α π → Bool
  | .asked .. => true
  | .told _ => false

/-- The point and the answer of a question that was answered. -/
def Event.heard? : Event α π → Option (π × α)
  | .asked p (.ok v) => some (p, v)
  | .asked _ (.error _) | .told _ => none

/-- What was heard, in order. -/
def heard (es : List (Event α π)) : List (π × α) :=
  es.filterMap Event.heard?

@[simp] theorem heard_append (es es' : List (Event α π)) :
    heard (es ++ es') = heard es ++ heard es' :=
  List.filterMap_append

theorem heard_told_if (c : Prop) [Decidable c] (n : Notice α) :
    heard (if c then [.told n] else [] : List (Event α π)) = [] := by
  split <;> rfl

theorem countP_isAsked_told_if (c : Prop) [Decidable c] (n : Notice α) :
    (if c then [.told n] else [] : List (Event α π)).countP Event.isAsked = 0 := by
  split <;> rfl

theorem mem_heard {es : List (Event α π)} {p : π} {v : α} :
    (p, v) ∈ heard es ↔ .asked p (.ok v) ∈ es := by
  rw [heard, List.mem_filterMap]
  constructor
  · rintro ⟨e, he, hheard⟩
    cases e with
    | told n => cases hheard
    | asked q a =>
        cases a with
        | error e => cases hheard
        | ok w =>
            cases hheard
            exact he
  · exact fun h => ⟨_, h, rfl⟩

/-- The events of a run, the failed question that ends it included. -/
def events {σ : Type} (answer : π → σ → Outcome α α × σ) (hear : Notice α → σ → σ) :
    Search α π ρ → σ → List (Event α π)
  | .done _, _ => []
  | .ask p next, s =>
    match answer p s with
    | (.ok v, s) => .asked p (.ok v) :: events answer hear (next v) s
    | (.error e, _) => [.asked p (.error e)]
  | .tell n next, s => .told n :: events answer hear next (hear n s)

/-- The search may end with the outcome after these events. -/
inductive Transcript : Search α π ρ → List (Event α π) → Outcome α ρ → Prop
  | done (r) : Transcript (.done r) [] r
  | answered {p v next es r} (rest : Transcript (next v) es r) :
      Transcript (.ask p next) (.asked p (.ok v) :: es) r
  | refused {p e next} : Transcript (.ask p next) [.asked p (.error e)] (.error e)
  | posted {n next es r} (rest : Transcript next es r) :
      Transcript (.tell n next) (.told n :: es) r

section Run

variable {σ : Type} (answer : π → σ → Outcome α α × σ) (hear : Notice α → σ → σ)

theorem transcript_events (m : Search α π ρ) (s : σ) :
    Transcript m (m.events answer hear s) (m.run answer hear s).1 := by
  induction m generalizing s with
  | done r => exact .done r
  | ask p next ih =>
      simp only [events, run]
      cases answer p s with
      | mk a s =>
          cases a with
          | ok v => exact .answered (ih v s)
          | error e => exact .refused
  | tell n next ih => exact .posted (ih (hear n s))

/-- Whatever came back to a question was given by the objective. -/
theorem answer_of_mem_events {m : Search α π ρ} {s : σ} {p : π} {a : Outcome α α}
    (h : .asked p a ∈ m.events answer hear s) : ∃ t, (answer p t).1 = a := by
  induction m generalizing s with
  | done r => cases h
  | ask q next ih =>
      simp only [events] at h
      cases hq : answer q s with
      | mk b t =>
          rw [hq] at h
          cases b with
          | ok v =>
              cases h with
              | head => exact ⟨s, by rw [hq]⟩
              | tail _ h => exact ih v h
          | error e =>
              cases h with
              | head => exact ⟨s, by rw [hq]⟩
              | tail _ h => cases h
  | tell n next ih =>
      cases h with
      | tail _ h => exact ih h

theorem run_mapPoints (place : κ → π) (m : Search α κ ρ) (s : σ) :
    (m.mapPoints place).run answer hear s = m.run (fun p => answer (place p)) hear s := by
  induction m generalizing s with
  | done r => rfl
  | ask p next ih =>
      simp only [mapPoints, run]
      cases answer (place p) s with
      | mk a s =>
          cases a with
          | ok v => exact ih v s
          | error e => rfl
  | tell n next ih => exact ih (hear n s)

theorem events_mapPoints (place : κ → π) (m : Search α κ ρ) (s : σ) :
    (m.mapPoints place).events answer hear s =
      (m.events (fun p => answer (place p)) hear s).map (Event.mapPoint place) := by
  induction m generalizing s with
  | done r => rfl
  | ask p next ih =>
      simp only [mapPoints, events]
      cases answer (place p) s with
      | mk a s =>
          cases a with
          | ok v => exact congrArg (List.cons _) (ih v s)
          | error e => rfl
  | tell n next ih => exact congrArg (List.cons _) (ih (hear n s))

end Run

theorem mapPoints_bind (place : π → κ) (m : Search α π ρ) (k : ρ → Search α π τ) :
    (m >>= k).mapPoints place = m.mapPoints place >>= fun r => (k r).mapPoints place := by
  induction m with
  | done r => cases r <;> rfl
  | ask p next ih => exact congrArg (ask (place p)) (funext ih)
  | tell n next ih => exact congrArg (tell n) ih

theorem mapPoints_mapPoints {ι : Type} (place : π → κ) (move : κ → ι) (m : Search α π ρ) :
    (m.mapPoints place).mapPoints move = m.mapPoints (move ∘ place) := by
  induction m with
  | done r => rfl
  | ask p next ih => exact congrArg (ask (move (place p))) (funext ih)
  | tell n next ih => exact congrArg (tell n) ih

theorem mapPoints_id (m : Search α π ρ) : m.mapPoints id = m := by
  induction m with
  | done r => rfl
  | ask p next ih => exact congrArg (ask p) (funext ih)
  | tell n next ih => exact congrArg (tell n) ih

/-- A contract binds every transcript whose answers are as agreed. -/
theorem Obeys.transcript {t : Terms α π} {gives : ρ → Prop} {m : Search α π ρ}
    {es : List (Event α π)} {r : Outcome α ρ} (hm : m.Obeys t gives) (h : Transcript m es r)
    (hanswers : ∀ p v, .asked p (.ok v) ∈ es → t.answers p v) :
    (∀ p a, .asked p a ∈ es → t.asks p) ∧ (∀ n, .told n ∈ es → t.tells n) ∧
      ∀ x, r = .ok x → gives x := by
  induction h with
  | done r =>
      refine ⟨fun q a hin => ?_, fun n hin => ?_, ?_⟩
      · cases hin
      · cases hin
      · rintro x rfl
        exact hm
  | @answered p v next es r rest ih =>
      have hv : t.answers p v := hanswers p v List.mem_cons_self
      obtain ⟨hasks, htells, hgives⟩ := ih (hm.2 v hv) fun q w hin =>
        hanswers q w (List.mem_cons_of_mem _ hin)
      refine ⟨fun q a hin => ?_, fun n hin => ?_, hgives⟩
      · cases hin with
        | head => exact hm.1
        | tail _ hin => exact hasks q a hin
      · cases hin with
        | tail _ hin => exact htells n hin
  | refused =>
      refine ⟨fun q a hin => ?_, fun n hin => ?_, fun x hx => nomatch hx⟩
      · cases hin with
        | head => exact hm.1
        | tail _ hin => cases hin
      · cases hin with
        | tail _ hin => cases hin
  | @posted n next es r rest ih =>
      obtain ⟨hasks, htells, hgives⟩ := ih hm.2 fun q w hin =>
        hanswers q w (List.mem_cons_of_mem _ hin)
      refine ⟨fun q a hin => ?_, fun k hin => ?_, hgives⟩
      · cases hin with
        | tail _ hin => exact hasks q a hin
      · cases hin with
        | head => exact hm.1
        | tail _ hin => exact htells k hin

/-- A failure is the objective's own, or one that the terms name. -/
theorem Obeys.transcript_error {t : Terms α π} {gives : ρ → Prop} {m : Search α π ρ}
    {es : List (Event α π)} {e : DesignError α} (hm : m.Obeys t gives)
    (h : Transcript m es (.error e)) (hanswers : ∀ p v, .asked p (.ok v) ∈ es → t.answers p v) :
    (∃ p, .asked p (.error e) ∈ es) ∨ t.fails e := by
  generalize hr : (Except.error e : Outcome α ρ) = r at h
  induction h with
  | done =>
      cases hr
      exact .inr hm
  | @answered p v next es r rest ih =>
      have hv : t.answers p v := hanswers p v List.mem_cons_self
      refine (ih (hm.2 v hv) (fun q w hin => ?_) hr).imp_left ?_
      · exact hanswers q w (List.mem_cons_of_mem _ hin)
      · rintro ⟨q, hq⟩
        exact ⟨q, List.mem_cons_of_mem _ hq⟩
  | @refused p =>
      cases hr
      exact .inl ⟨p, List.mem_cons_self⟩
  | posted rest ih =>
      refine (ih hm.2 (fun q w hin => ?_) hr).imp_left ?_
      · exact hanswers q w (List.mem_cons_of_mem _ hin)
      · rintro ⟨q, hq⟩
        exact ⟨q, List.mem_cons_of_mem _ hq⟩

namespace Transcript

variable {es : List (Event α π)}

theorem of_pure {r : ρ} {x : Outcome α ρ} (h : Transcript (Pure.pure r) es x) :
    es = [] ∧ x = .ok r := by
  cases h with
  | done => exact ⟨rfl, rfl⟩

theorem of_value {p : π} {v : α} (h : Transcript (Search.value p) es (.ok v)) :
    es = [.asked p (.ok v)] := by
  cases h with
  | answered rest =>
      cases rest
      rfl

theorem of_post {n : Notice α} {u : Unit} (h : Transcript (Search.post n) es (.ok u)) :
    es = [.told n] := by
  cases h with
  | posted rest =>
      cases rest
      rfl

theorem of_ofOutcome {o r : Outcome α ρ} (h : Transcript (Search.ofOutcome o) es r) :
    es = [] ∧ r = o := by
  cases h with
  | done => exact ⟨rfl, rfl⟩

/-- A search made of two parts fails within the first, or both were run. -/
theorem bind_cases {m : Search α π ρ} {k : ρ → Search α π τ} {r : Outcome α τ}
    (h : Transcript (m >>= k) es r) :
    (∃ e, r = .error e ∧ Transcript m es (.error e)) ∨
      ∃ before x after, Transcript m before (.ok x) ∧ Transcript (k x) after r ∧
        es = before ++ after := by
  induction m generalizing es with
  | done o =>
      cases o with
      | ok x => exact .inr ⟨[], x, es, .done _, h, rfl⟩
      | error e =>
          cases h
          exact .inl ⟨e, rfl, .done _⟩
  | ask p next ih =>
      cases h with
      | answered rest =>
          obtain ⟨e, hr, hm⟩ | ⟨before, x, after, hm, hk, rfl⟩ := ih _ rest
          · exact .inl ⟨e, hr, .answered hm⟩
          · exact .inr ⟨_ :: before, x, after, .answered hm, hk, rfl⟩
      | refused => exact .inl ⟨_, rfl, .refused⟩
  | tell n next ih =>
      cases h with
      | posted rest =>
          obtain ⟨e, hr, hm⟩ | ⟨before, x, after, hm, hk, rfl⟩ := ih rest
          · exact .inl ⟨e, hr, .posted hm⟩
          · exact .inr ⟨_ :: before, x, after, .posted hm, hk, rfl⟩

/-- A search that ends well after a first part ends that part well. -/
theorem of_bind {m : Search α π ρ} {k : ρ → Search α π τ} {x : τ}
    (h : Transcript (m >>= k) es (.ok x)) :
    ∃ before r after, Transcript m before (.ok r) ∧ Transcript (k r) after (.ok x) ∧
      es = before ++ after :=
  h.bind_cases.resolve_left fun ⟨_, hfailed, _⟩ => nomatch hfailed

theorem guard_cases {c : Prop} [Decidable c] {e : DesignError α} {k : PUnit → Search α π ρ}
    {r : Outcome α ρ}
    (h : Transcript (if c then Search.fail e >>= k else k ⟨⟩) es r) :
    (c ∧ es = [] ∧ r = .error e) ∨ ¬ c ∧ Transcript (k ⟨⟩) es r := by
  split at h
  · rename_i hc
    cases h
    exact .inl ⟨hc, rfl, rfl⟩
  · rename_i hc
    exact .inr ⟨hc, h⟩

theorem of_guard {c : Prop} [Decidable c] {e : DesignError α} {k : PUnit → Search α π ρ} {x : ρ}
    (h : Transcript (if c then Search.fail e >>= k else k ⟨⟩) es (.ok x)) :
    ¬ c ∧ Transcript (k ⟨⟩) es (.ok x) :=
  h.guard_cases.resolve_left fun ⟨_, _, hfailed⟩ => nomatch hfailed

theorem of_postIf_eq {c : Prop} [Decidable c] {n : Notice α} {k : PUnit → Search α π ρ}
    {r : Outcome α ρ}
    (h : Transcript (if c then Search.post n >>= k else k ⟨⟩) es r) :
    ∃ rest, Transcript (k ⟨⟩) rest r ∧ es = (if c then [.told n] else []) ++ rest := by
  split at h
  · rename_i hc
    cases h with
    | @posted _ _ rest _ h => exact ⟨rest, h, by rw [if_pos hc]; rfl⟩
  · rename_i hc
    exact ⟨es, h, by rw [if_neg hc]; rfl⟩

theorem of_postIf {c : Prop} [Decidable c] {n : Notice α} {k : PUnit → Search α π ρ}
    {r : Outcome α ρ}
    (h : Transcript (if c then Search.post n >>= k else k ⟨⟩) es r) :
    ∃ posted rest, (posted = [] ∨ posted = [.told n]) ∧ Transcript (k ⟨⟩) rest r ∧
      es = posted ++ rest := by
  obtain ⟨rest, hrest, hes⟩ := h.of_postIf_eq
  refine ⟨_, rest, ?_, hrest, hes⟩
  split
  · exact .inr rfl
  · exact .inl rfl

theorem of_mapPoints {place : κ → π} {m : Search α κ ρ} {r : Outcome α ρ}
    (h : Transcript (m.mapPoints place) es r) :
    ∃ original, Transcript m original r ∧ es = original.map (Event.mapPoint place) := by
  induction m generalizing es with
  | done o =>
      cases h
      exact ⟨[], .done _, rfl⟩
  | ask p next ih =>
      cases h with
      | answered rest =>
          obtain ⟨original, hm, rfl⟩ := ih _ rest
          exact ⟨_ :: original, .answered hm, rfl⟩
      | refused => exact ⟨_, .refused, rfl⟩
  | tell n next ih =>
      cases h with
      | posted rest =>
          obtain ⟨original, hm, rfl⟩ := ih rest
          exact ⟨_ :: original, .posted hm, rfl⟩

/-- After a good end, every question was answered. -/
theorem answered_of_ok {m : Search α π ρ} {r : ρ} (h : Transcript m es (.ok r)) {p : π}
    {a : Outcome α α} (hin : .asked p a ∈ es) : ∃ v, a = .ok v := by
  generalize hx : (Except.ok r : Outcome α ρ) = x at h
  induction h with
  | done => cases hin
  | answered rest ih =>
      cases hin with
      | head => exact ⟨_, rfl⟩
      | tail _ hin => exact ih hin hx
  | refused => cases hx
  | posted rest ih =>
      cases hin with
      | tail _ hin => exact ih hin hx

end Transcript
end FrequencySampling.Search
