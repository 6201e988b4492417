import Mathlib.Algebra.GroupWithZero.Nat
import FrequencySampling.Proofs.Plane.Notices
import FrequencySampling.Proofs.Session.Conduct

/-!
The line searches that a journal tells of, each with its trials, and how the events of a direction
search fall into them. Every iteration that succeeds is three line searches; the vertex it gives
back is the minimum of the third, and one of the trials of that line search was made there.
-/

namespace FrequencySampling

variable {α : Type}

/-- The line searches that finish in a journal, with the trials that each of them reported.
`pending` are the trials of the one that is under way. -/
def lineSearchesFrom (pending : List (Trial α)) :
    List (Notice α) → List (List (Trial α) × LineMinimum α)
  | [] => []
  | .trial t :: rest => lineSearchesFrom (pending ++ [t]) rest
  | .lineSearchFinished m :: rest => (pending, m) :: lineSearchesFrom [] rest
  | _ :: rest => lineSearchesFrom pending rest

def lineSearches (journal : List (Notice α)) : List (List (Trial α) × LineMinimum α) :=
  lineSearchesFrom [] journal

/-- The third, sixth, ninth and so on. -/
def everyThird {β : Type} : List β → List β
  | _ :: _ :: third :: rest => third :: everyThird rest
  | _ => []

theorem mem_of_mem_everyThird {β : Type} {x : β} {xs : List β} (h : x ∈ everyThird xs) :
    x ∈ xs := by
  induction xs using everyThird.induct with
  | case1 first second third rest ih =>
      rcases List.mem_cons.mp h with rfl | h
      · exact List.mem_cons_of_mem _ (List.mem_cons_of_mem _ List.mem_cons_self)
      · exact List.mem_cons_of_mem _ (List.mem_cons_of_mem _ (List.mem_cons_of_mem _ (ih h)))
  | case2 xs hshort =>
      rw [everyThird.eq_2 xs hshort] at h
      cases h

theorem everyThird_map {β γ : Type} (f : β → γ) (xs : List β) :
    everyThird (xs.map f) = (everyThird xs).map f := by
  induction xs using everyThird.induct with
  | case1 first second third rest ih => exact congrArg (f third :: ·) ih
  | case2 xs hshort =>
      rw [everyThird.eq_2 xs hshort]
      obtain _ | ⟨a, _ | ⟨b, _ | ⟨c, xs⟩⟩⟩ := xs
      · rfl
      · rfl
      · rfl
      · exact (hshort a b c xs rfl).elim

theorem map_snd_lineSearchesFrom (pending : List (Trial α)) (journal : List (Notice α)) :
    (lineSearchesFrom pending journal).map (·.2) = journal.filterMap Notice.lineMinimum? := by
  induction journal generalizing pending with
  | nil => rfl
  | cons n rest ih =>
      cases n with
      | lineSearchFinished m => exact congrArg (m :: ·) (ih [])
      | trial t => exact ih _
      | _ => exact ih pending

theorem trial_mem_of_lineSearchesFrom {pending : List (Trial α)} {journal : List (Notice α)}
    {search : List (Trial α) × LineMinimum α} (h : search ∈ lineSearchesFrom pending journal)
    {t : Trial α} (ht : t ∈ search.1) : t ∈ pending ∨ t ∈ journal.filterMap Notice.trial? := by
  induction journal generalizing pending with
  | nil => cases h
  | cons n rest ih =>
      cases n with
      | trial u =>
          rcases ih h with hpending | hrest
          · rcases List.mem_append.mp hpending with hpending | hu
            · exact .inl hpending
            · exact .inr (List.mem_cons.mpr (.inl (List.mem_singleton.mp hu)))
          · exact .inr (List.mem_cons_of_mem _ hrest)
      | lineSearchFinished m =>
          rcases List.mem_cons.mp h with rfl | h
          · exact .inl ht
          · exact .inr ((ih h).resolve_left List.not_mem_nil)
      | _ => exact ih h

theorem lineSearchesFrom_finished {body : List (Notice α)}
    (hbody : ∀ n ∈ body, n.lineMinimum? = none) (pending : List (Trial α)) (m : LineMinimum α)
    (rest : List (Notice α)) :
    lineSearchesFrom pending (body ++ .lineSearchFinished m :: rest) =
      (pending ++ body.filterMap Notice.trial?, m) :: lineSearchesFrom [] rest := by
  induction body generalizing pending with
  | nil => simp [lineSearchesFrom]
  | cons n body ih =>
      have hrest := ih fun k hk => hbody k (List.mem_cons_of_mem _ hk)
      cases n with
      | lineSearchFinished k => cases hbody _ List.mem_cons_self
      | trial t =>
          refine (hrest (pending ++ [t])).trans ?_
          simp [Notice.trial?]
      | _ => exact hrest pending

namespace PlaneSearch

open Search (Event Transcript)

variable [Scalar α]

/-- The events amount to these line searches, all finished, and count their evaluations. -/
structure Tells (es : List (Event α (LinePoint α)))
    (searches : List (List (Trial α) × LineMinimum α)) : Prop where
  parse : ∀ rest, lineSearches (es.filterMap Event.notice? ++ rest) = searches ++ lineSearches rest
  count : (es.filterMap Event.trial?).length = (searches.map fun search => search.2.evaluations).sum

namespace Tells

variable {es es' : List (Event α (LinePoint α))}
  {searches searches' : List (List (Trial α) × LineMinimum α)}

theorem nil : Tells ([] : List (Event α (LinePoint α))) [] :=
  ⟨fun _ => rfl, rfl⟩

theorem aside {n : Notice α} (htrial : n.trial? = none) (hminimum : n.lineMinimum? = none) :
    Tells [.told n] [] := by
  refine ⟨fun rest => ?_, rfl⟩
  cases n with
  | trial t => cases htrial
  | lineSearchFinished m => cases hminimum
  | _ => rfl

theorem append (h : Tells es searches) (h' : Tells es' searches') :
    Tells (es ++ es') (searches ++ searches') := by
  refine ⟨fun rest => ?_, ?_⟩
  · rw [List.filterMap_append, List.append_assoc, h.parse, h'.parse, List.append_assoc]
  · rw [List.filterMap_append, List.length_append, h.count, h'.count, List.map_append,
      List.sum_append]

theorem lineSearches_eq (h : Tells es searches) :
    lineSearches (es.filterMap Event.notice?) = searches := by
  have hall := h.parse []
  rwa [List.append_nil, show lineSearches ([] : List (Notice α)) = [] from rfl,
    List.append_nil] at hall

theorem minima_eq (h : Tells es searches) :
    (es.filterMap Event.notice?).filterMap Notice.lineMinimum? = searches.map (·.2) := by
  rw [← h.lineSearches_eq]
  exact (map_snd_lineSearchesFrom [] _).symm

end Tells

theorem length_trials {es : List (Event α (LinePoint α))}
    (h : ∀ p a, .asked p a ∈ es → ∃ v, a = .ok v) :
    (es.filterMap Event.trial?).length = es.countP Event.isAsked := by
  induction es with
  | nil => rfl
  | cons e es ih =>
      have hrest := ih fun p a hin => h p a (List.mem_cons_of_mem _ hin)
      cases e with
      | told n =>
          rw [List.filterMap_cons_none rfl, List.countP_cons_of_neg (by simp [Event.isAsked])]
          exact hrest
      | asked p a =>
          obtain ⟨v, rfl⟩ := h p a List.mem_cons_self
          simpa [Event.trial?, Event.isAsked, List.countP_cons] using hrest

/-- A trial made at a vertex, where its line search ended. -/
structure Attained (v : Vertex α) (search : List (Trial α) × LineMinimum α) : Prop where
  x_eq : search.2.x = v.x
  f_eq : search.2.f = v.objective
  trial_mem : ⟨v.x, [0 + v.x * 1, v.y], v.objective⟩ ∈ search.1

theorem tells_minimize {params : LineSearchParams α} {lo hi : α} {es : List (Event α α)}
    {m : LineMinimum α} (h : Transcript (GoldenSection.minimize params lo hi) es (.ok m))
    (line : SlotLine α) :
    ∃ trials, Tells (es.map (Event.mapPoint (LinePoint.mk line)) ++ [.told (.lineSearchFinished m)])
      [(trials, m)] ∧ ⟨m.x, line.values m.x, m.f⟩ ∈ trials := by
  obtain ⟨-, htold, hgives⟩ := (GoldenSection.minimize_answered
    (fun x v => Event.asked x (.ok v) ∈ es) params lo hi).transcript h fun x v hin => hin
  generalize hbody : es.map (Event.mapPoint (LinePoint.mk line)) = body
  have htold : ∀ n, .told n ∈ body → n.trial? = none ∧ n.lineMinimum? = none := by
    intro n hin
    rw [← hbody] at hin
    obtain ⟨e, he, hn⟩ := List.mem_map.mp hin
    cases e with
    | asked x a => cases hn
    | told k =>
        cases hn
        rcases htold n he with rfl | rfl <;> exact ⟨rfl, rfl⟩
  have hasked : ∀ p a, .asked p a ∈ body → ∃ v, a = .ok v := by
    intro p a hin
    rw [← hbody] at hin
    obtain ⟨e, he, hp⟩ := List.mem_map.mp hin
    cases e with
    | told k => cases hp
    | asked x b =>
        cases hp
        exact h.answered_of_ok he
  have hunfinished : ∀ n ∈ body.filterMap Event.notice?, n.lineMinimum? = none := by
    intro n hin
    obtain ⟨e, he, hn⟩ := List.mem_filterMap.mp hin
    cases e with
    | told k =>
        cases hn
        exact (htold n he).2
    | asked p a =>
        obtain ⟨v, rfl⟩ := hasked p a he
        cases hn
        rfl
  have hcount : body.countP Event.isAsked = es.countP Event.isAsked := by
    rw [← hbody, List.countP_map]
    congr 1
    funext e
    cases e <;> rfl
  refine ⟨body.filterMap Event.trial?, ⟨fun rest => ?_, ?_⟩, ?_⟩
  · rw [List.filterMap_append, List.append_assoc]
    refine (lineSearchesFrom_finished hunfinished [] m rest).trans ?_
    rw [List.nil_append, Event.trials_of_notices fun n hin => (htold n hin).1]
    rfl
  · rw [List.filterMap_append, List.length_append, length_trials hasked, hcount,
      ← GoldenSection.minimize_count h]
    rfl
  · refine List.mem_filterMap.mpr ⟨.asked ⟨line, m.x⟩ (.ok m.f), ?_, rfl⟩
    rw [← hbody]
    exact List.mem_map.mpr ⟨_, hgives m rfl, rfl⟩

theorem along_tells {params : LineSearchParams α} {line : SlotLine α} {lo hi : α}
    {es : List (Event α (LinePoint α))} {m : LineMinimum α}
    (h : Transcript (along params line lo hi) es (.ok m)) :
    ∃ trials, Tells es [(trials, m)] ∧ ⟨m.x, line.values m.x, m.f⟩ ∈ trials := by
  obtain ⟨body, m', _, hbody, h, hes⟩ := Transcript.of_bind h
  obtain ⟨_, _, _, hpost, h, hes'⟩ := Transcript.of_bind h
  obtain ⟨hes'', hm⟩ := h.of_pure
  cases hm
  obtain ⟨original, horiginal, rfl⟩ := hbody.of_mapPoints
  rw [hes, hes', hes'', hpost.of_post, List.append_nil]
  exact tells_minimize horiginal line

theorem iterate_tells {params : LineSearchParams α} {direction : PlaneSearchParams α} {outer : Nat}
    {y : α} {es : List (Event α (LinePoint α))} {v : Vertex α}
    (h : Transcript (iterate params direction outer y) es (.ok v)) :
    ∃ first second third, Tells es [first, second, third] ∧ Attained v third := by
  unfold iterate at h
  obtain ⟨es1, m1, _, hfirst, h, hes⟩ := Transcript.of_bind h
  obtain ⟨es2, m2, _, hsecond, h, hes'⟩ := Transcript.of_bind h
  obtain ⟨-, h⟩ := Transcript.of_guard h
  dsimp only at h
  generalize fittedSlot y _ _ = second at h
  split at h
  · cases h
  · obtain ⟨clip, _, hclip, h, hes2⟩ := Transcript.of_postIf h
    obtain ⟨es3, m3, _, hthird, h, hes3⟩ := Transcript.of_bind h
    obtain ⟨_, _, _, hpost, h, hes4⟩ := Transcript.of_bind h
    obtain ⟨hes5, hv⟩ := h.of_pure
    cases hv
    obtain ⟨trials1, htells1, -⟩ := along_tells hfirst
    obtain ⟨trials2, htells2, -⟩ := along_tells hsecond
    obtain ⟨trials3, htells3, htrial⟩ := along_tells hthird
    have hclip : Tells clip [] := by
      rcases hclip with rfl | rfl
      · exact .nil
      · exact .aside rfl rfl
    have hdone : Tells [.told (.planeIterated outer)] ([] : List (List (Trial α) × _)) :=
      .aside rfl rfl
    refine ⟨(trials1, m1), (trials2, m2), (trials3, m3), ?_, rfl, rfl, htrial⟩
    rw [hes, hes', hes2, hes3, hes4, hes5, hpost.of_post]
    exact htells1.append (htells2.append (hclip.append (htells3.append (hdone.append .nil))))

end PlaneSearch
end FrequencySampling
