import FrequencySampling.Proofs.Plane.LineSearches
import FrequencySampling.Proofs.RationalArithmetic
import FrequencySampling.Scalar.Double

/-!
What becomes of a direction search whose two axis minima coincide. Minima closer than the
separation asked for end the search at once, in every iteration and whatever the objective does. A
separation of zero is admitted too, and it lets minima that coincide through: the slope is then
computed with a denominator of zero.
-/

namespace FrequencySampling

open Search (Event Transcript)

variable {α ρ : Type}

namespace Search.Event

/-- The result of the line search that an event reports finished. -/
def minimum? {π : Type} : Event α π → Option (LineMinimum α)
  | .told n => n.lineMinimum?
  | .asked .. => none

theorem minima_of_notices [Scalar α] (es : List (Event α (LinePoint α))) :
    (es.filterMap notice?).filterMap Notice.lineMinimum? = es.filterMap minimum? := by
  rw [List.filterMap_filterMap]
  refine List.filterMap_congr fun e _ => ?_
  cases e with
  | told n => rfl
  | asked p a => cases a <;> rfl

end Search.Event

namespace PlaneSearch

/-- What the line searches finished with, one after the other. -/
def minima (es : List (Event α (LinePoint α))) : List (LineMinimum α) :=
  es.filterMap Event.minimum?

theorem minima_append {es es' : List (Event α (LinePoint α))} :
    minima (es ++ es') = minima es ++ minima es' :=
  List.filterMap_append

/-- Among the minima of all line searches, those of the axis searches of one iteration. -/
structure AxisMinima (all : List (LineMinimum α)) (k : Nat) (m1 m2 : LineMinimum α) : Prop where
  first : all[3 * k]? = some m1
  second : all[3 * k + 1]? = some m2

/-- Too few minima for a second iteration leave only the first one. -/
theorem AxisMinima.eq_of_cons {m1 m2 n1 n2 : LineMinimum α} {rest : List (LineMinimum α)} {k : Nat}
    (h : AxisMinima (m1 :: m2 :: rest) k n1 n2) (hrest : rest.length ≤ 1) : m1 = n1 ∧ m2 = n2 := by
  obtain ⟨hlt, -⟩ := List.getElem?_eq_some_iff.mp h.second
  rw [List.length_cons, List.length_cons] at hlt
  obtain rfl : k = 0 := by omega
  exact ⟨Option.some.inj h.first, Option.some.inj h.second⟩

variable [Scalar α] {params : LineSearchParams α} {direction : PlaneSearchParams α}
  {es es' : List (Event α (LinePoint α))}

theorem minima_minimize {line : SlotLine α} {lo hi : α} {r : Outcome α (LineMinimum α)}
    (h : Transcript ((GoldenSection.minimize params lo hi).mapPoints (LinePoint.mk line)) es r) :
    minima es = [] := by
  obtain ⟨original, horiginal, rfl⟩ := h.of_mapPoints
  have hobeys := GoldenSection.minimize_answered (fun _ _ => True) params lo hi
  obtain ⟨-, htold, -⟩ := hobeys.transcript horiginal fun _ _ _ => trivial
  refine List.filterMap_eq_nil_iff.mpr fun e he => ?_
  obtain ⟨e', he', rfl⟩ := List.mem_map.mp he
  cases e' with
  | asked p a => rfl
  | told n => rcases htold n he' with rfl | rfl <;> rfl

theorem minima_of_along_error {line : SlotLine α} {lo hi : α} {e : DesignError α}
    (h : Transcript (along params line lo hi) es (.error e)) : minima es = [] := by
  obtain ⟨_, -, hfailed⟩ | ⟨_, m, _, -, hrest, -⟩ := h.bind_cases
  · exact minima_minimize hfailed
  · change Transcript (.tell (.lineSearchFinished m) (.done (.ok m))) _ _ at hrest
    cases hrest with
    | posted hdone => cases hdone

/-- The minimum is reported, and nothing after it. -/
theorem minima_of_along {line : SlotLine α} {lo hi : α} {m : LineMinimum α}
    (h : Transcript (along params line lo hi) es (.ok m)) :
    minima es = [m] ∧ es.getLast? = some (.told (.lineSearchFinished m)) := by
  obtain ⟨body, m', rest, hbody, hrest, rfl⟩ := Transcript.of_bind h
  change Transcript (.tell (.lineSearchFinished m') (.done (.ok m'))) _ _ at hrest
  cases hrest with
  | posted hdone =>
      cases hdone
      rw [minima_append, minima_minimize hbody, List.getLast?_append]
      exact ⟨rfl, rfl⟩

/-- The distance between the minima comes out as zero. -/
def Coincide (m1 m2 : LineMinimum α) : Prop :=
  Scalar.abs (m1.x - m2.x) = 0

open Float.Model UnpackedFloat in
theorem sub_self_of_isFinite (format : Format) {u : UnpackedFloat} (h : u.isFinite = true) :
    UnpackedFloat.sub format u u = .zero .positive := by
  have hcancels (mantissa exponent : ℤ) :
      UnpackedFloat.normalize format (mantissa - mantissa) exponent .positive =
        .zero .positive := by
    rw [Int.sub_self]
    rfl
  cases u with
  | infinity | notANumber => cases h
  | zero sign => cases sign <;> rfl
  | finite => exact hcancels _ _

/-- Minima at the same finite number of double precision coincide. -/
theorem coincide_of_eq {m1 m2 : LineMinimum Float} (h : m1.x = m2.x)
    (hfinite : m1.x.isFinite = true) : Coincide m1 m2 := by
  have hsub : m1.x - m1.x = 0 := by
    change Float.ofModel (Float.Model.pack (Float.Model.UnpackedFloat.sub .binary64
      m1.x.toModel.unpack m1.x.toModel.unpack)) = 0
    rw [sub_self_of_isFinite _ hfinite]
    decide +kernel
  rw [Coincide, ← h, hsub]
  decide +kernel

/-- The run fails with the two minima, and nothing happens after the second. -/
structure Degenerates (es : List (Event α (LinePoint α))) (r : Outcome α ρ)
    (m1 m2 : LineMinimum α) : Prop where
  result_eq : r = .error (.degenerateLine m1.x m2.x)
  last_eq : es.getLast? = some (.told (.lineSearchFinished m2))

/-- Axis minima that are too close end the run. -/
def KeepsApart (direction : PlaneSearchParams α) (es : List (Event α (LinePoint α)))
    (r : Outcome α ρ) : Prop :=
  ∀ k m1 m2, AxisMinima (minima es) k m1 m2 →
    Scalar.abs (m1.x - m2.x) < direction.minLineSeparation → Degenerates es r m1 m2

namespace KeepsApart

variable {τ : Type} {r : Outcome α ρ}

theorem of_short (h : (minima es).length ≤ 1) : KeepsApart direction es r := by
  intro k m1 m2 haxes
  obtain ⟨hlt, -⟩ := List.getElem?_eq_some_iff.mp haxes.second
  omega

theorem of_degenerate {m1 m2 : LineMinimum α} (h : minima es = [m1, m2])
    (hlast : es.getLast? = some (.told (.lineSearchFinished m2))) :
    KeepsApart direction es (.error (.degenerateLine m1.x m2.x) : Outcome α ρ) := by
  intro k n1 n2 haxes _
  rw [h] at haxes
  obtain ⟨rfl, rfl⟩ := haxes.eq_of_cons (Nat.zero_le 1)
  exact ⟨rfl, hlast⟩

theorem of_apart {m1 m2 : LineMinimum α} {rest : List (LineMinimum α)}
    (h : minima es = m1 :: m2 :: rest) (hrest : rest.length ≤ 1)
    (hapart : ¬ Scalar.abs (m1.x - m2.x) < direction.minLineSeparation) :
    KeepsApart direction es r := by
  intro k n1 n2 haxes hclose
  rw [h] at haxes
  obtain ⟨rfl, rfl⟩ := haxes.eq_of_cons hrest
  exact absurd hclose hapart

theorem of_error {e : DesignError α} (h : KeepsApart direction es (.error e : Outcome α ρ)) :
    KeepsApart direction es (.error e : Outcome α τ) := by
  intro k m1 m2 haxes hclose
  obtain ⟨hresult, hlast⟩ := h k m1 m2 haxes hclose
  cases hresult
  exact ⟨rfl, hlast⟩

/-- A part that ends well has kept its axis minima apart. -/
theorem of_ok {x : τ} (h : KeepsApart direction es (.ok x)) (hes : minima es' = minima es) :
    KeepsApart direction es' r := by
  rintro k m1 m2 ⟨hfirst, hsecond⟩ hclose
  rw [hes] at hfirst hsecond
  cases (h k m1 m2 ⟨hfirst, hsecond⟩ hclose).result_eq

/-- An iteration in front, which is three line searches. -/
theorem append {x : τ} (h : KeepsApart direction es (.ok x)) (hes : (minima es).length = 3)
    (hes' : KeepsApart direction es' r) : KeepsApart direction (es ++ es') r := by
  rintro k m1 m2 ⟨hfirst, hsecond⟩ hclose
  rw [minima_append] at hfirst hsecond
  cases k with
  | zero =>
      rw [List.getElem?_append_left (by omega)] at hfirst hsecond
      cases (h 0 m1 m2 ⟨hfirst, hsecond⟩ hclose).result_eq
  | succ k =>
      rw [List.getElem?_append_right (by omega), hes,
        show 3 * (k + 1) - 3 = 3 * k by omega] at hfirst
      rw [List.getElem?_append_right (by omega), hes,
        show 3 * (k + 1) + 1 - 3 = 3 * k + 1 by omega] at hsecond
      obtain ⟨hresult, hlast⟩ := hes' k m1 m2 ⟨hfirst, hsecond⟩ hclose
      refine ⟨hresult, ?_⟩
      rw [List.getLast?_append, hlast, Option.some_or]

end KeepsApart

/-- The line search along the fitted line, if there is room for it. -/
theorem minima_of_fitted {outer : Nat} {second : LineSlot α} {x1 x2 : α} {r : Outcome α (Vertex α)}
    (h : Transcript
      (match clipped? direction.minLineSeparation (overX second) with
      | none => Search.fail (.degenerateLine x1 x2)
      | some (lo, hi) => do
        if 0 < lo ∨ hi < 1 then Search.post .lineClipped
        let third ← along params (overX second) lo hi
        Search.post (.planeIterated outer)
        return ⟨third.x, second.value third.x, third.f⟩) es r) :
    (minima es).length ≤ 1 ∧ ∀ v, r = .ok v → (minima es).length = 1 := by
  split at h
  · cases h
    exact ⟨Nat.zero_le 1, fun v hv => nomatch hv⟩
  · obtain ⟨clip, rest, hclip, hrest, rfl⟩ := Transcript.of_postIf h
    have hnone : minima clip = [] := by
      rcases hclip with rfl | rfl <;> rfl
    rw [minima_append, hnone, List.nil_append]
    obtain ⟨e, rfl, hfailed⟩ | ⟨es1, third, rest', hthird, hposted, rfl⟩ := hrest.bind_cases
    · rw [minima_of_along_error hfailed]
      exact ⟨Nat.zero_le 1, fun v hv => nomatch hv⟩
    · cases hposted with
      | posted hdone =>
          cases hdone
          rw [minima_append, (minima_of_along hthird).1]
          exact ⟨Nat.le_refl 1, fun v _ => rfl⟩

theorem iterate_keepsApart {outer : Nat} {y : α} {r : Outcome α (Vertex α)}
    (h : Transcript (iterate params direction outer y) es r) :
    KeepsApart direction es r ∧ ∀ v, r = .ok v → (minima es).length = 3 := by
  unfold iterate at h
  obtain ⟨e, rfl, h1⟩ | ⟨es1, m1, rest1, h1, hrest1, rfl⟩ := h.bind_cases
  · refine ⟨.of_short ?_, fun _ hv => nomatch hv⟩
    rw [minima_of_along_error h1]
    exact Nat.zero_le 1
  obtain ⟨hone, -⟩ := minima_of_along h1
  obtain ⟨e, rfl, h2⟩ | ⟨es2, m2, rest2, h2, hrest2, rfl⟩ := hrest1.bind_cases
  · refine ⟨.of_short ?_, fun _ hv => nomatch hv⟩
    rw [minima_append, hone, minima_of_along_error h2]
    exact Nat.le_refl 1
  obtain ⟨htwo, hlast⟩ := minima_of_along h2
  obtain ⟨hclose, rfl, rfl⟩ | ⟨hapart, hrest3⟩ := hrest2.guard_cases
  · refine ⟨.of_degenerate ?_ ?_, fun _ hv => nomatch hv⟩
    · rw [minima_append, minima_append, hone, htwo]
      rfl
    · rw [List.append_nil, List.getLast?_append, hlast]
      rfl
  · obtain ⟨hfew, hthree⟩ := minima_of_fitted hrest3
    have hall : minima (es1 ++ (es2 ++ rest2)) = m1 :: m2 :: minima rest2 := by
      rw [minima_append, minima_append, hone, htwo]
      rfl
    refine ⟨.of_apart hall hfew hapart, fun v hv => ?_⟩
    rw [hall, List.length_cons, List.length_cons, hthree v hv]

/-- Every iteration but the last is passed over, and the rule holds of the last one. -/
theorem descend_keepsApart {rippleTol : α} {remaining outer : Nat} {y previous : α}
    {best : Option (Vertex α)} {r : Outcome α (Descent α)}
    (h : Transcript (descend params direction rippleTol remaining outer y previous best) es r) :
    KeepsApart direction es r := by
  induction remaining generalizing outer y previous best es with
  | zero =>
      obtain ⟨e, rfl, hfailed⟩ | ⟨before, v, after, hiterate, hdone, rfl⟩ := h.bind_cases
      · exact (iterate_keepsApart hfailed).1.of_error
      · obtain ⟨rfl, -⟩ := hdone.of_pure
        obtain ⟨hkept, -⟩ := iterate_keepsApart hiterate
        exact hkept.of_ok (by rw [List.append_nil])
  | succ remaining ih =>
      obtain ⟨e, rfl, hfailed⟩ | ⟨before, v, after, hiterate, hgoes, rfl⟩ := h.bind_cases
      · exact (iterate_keepsApart hfailed).1.of_error
      · obtain ⟨hkept, hthree⟩ := iterate_keepsApart hiterate
        split at hgoes
        · obtain ⟨rfl, -⟩ := hgoes.of_pure
          exact hkept.of_ok (by rw [List.append_nil])
        · exact hkept.append (hthree v rfl) (ih hgoes)

theorem search_keepsApart {transitions : Nat} {r : Outcome α (Descent α)}
    (h : Transcript (search params direction transitions) es r) : KeepsApart direction es r := by
  have hnone : ∀ {e : DesignError α}, KeepsApart direction [] (.error e : Outcome α (Descent α)) :=
    KeepsApart.of_short (Nat.zero_le 1)
  unfold search at h
  obtain ⟨e, rfl, hcheck⟩ | ⟨_, _, rest1, hcheck, h1, rfl⟩ := h.bind_cases
  · obtain ⟨rfl, -⟩ := hcheck.of_ofOutcome
    exact hnone
  obtain ⟨rfl, -⟩ := hcheck.of_ofOutcome
  obtain ⟨e, rfl, hcheck'⟩ | ⟨_, _, rest2, hcheck', h2, rfl⟩ := h1.bind_cases
  · obtain ⟨rfl, -⟩ := hcheck'.of_ofOutcome
    exact hnone
  obtain ⟨rfl, -⟩ := hcheck'.of_ofOutcome
  obtain ⟨-, rfl, rfl⟩ | ⟨-, h3⟩ := h2.guard_cases
  · exact hnone
  obtain ⟨e, rfl, hfailed⟩ | ⟨before, d, after, hdescend, hdone, rfl⟩ := h3.bind_cases
  · exact (descend_keepsApart hfailed).of_error
  · obtain ⟨warning, rest, hwarning, hlast, rfl⟩ := Transcript.of_postIf hdone
    obtain ⟨rfl, -⟩ := hlast.of_pure
    refine (descend_keepsApart hdescend).of_ok ?_
    rw [List.nil_append, List.nil_append, minima_append]
    rcases hwarning with rfl | rfl <;> exact List.append_nil _

/-- Minima that coincide are too close for any separation but zero. -/
theorem degenerates_of_coincident {transitions k : Nat} {r : Outcome α (Descent α)}
    {m1 m2 : LineMinimum α} (h : Transcript (search params direction transitions) es r)
    (hseparation : 0 < direction.minLineSeparation) (haxes : AxisMinima (minima es) k m1 m2)
    (hcoincide : Coincide m1 m2) : Degenerates es r m1 m2 := by
  apply search_keepsApart h k m1 m2 haxes
  rw [show Scalar.abs (m1.x - m2.x) = 0 from hcoincide]
  exact hseparation

theorem exists_coincident {all : List (LineMinimum α)} (hlength : 2 ≤ all.length)
    (hzero : ∀ m1 ∈ all[0]?, ∀ m2 ∈ all[1]?, Scalar.abs (m1.x - m2.x) = 0) :
    ∃ m1 m2, AxisMinima all 0 m1 m2 ∧ Coincide m1 m2 := by
  have hfirst : all[0]? = some all[0] := List.getElem?_eq_getElem (by omega)
  have hsecond : all[1]? = some all[1] := List.getElem?_eq_getElem (by omega)
  exact ⟨all[0], all[1], ⟨hfirst, hsecond⟩, hzero _ hfirst _ hsecond⟩

end PlaneSearch

namespace Session

open PlaneSearch

variable [Scalar α]

theorem searchPlane_of_conduct_error {params : LineSearchParams α} {direction : PlaneSearchParams α}
    {s : Session α} {e : DesignError α}
    (h : (conduct tryLine (search params direction s.spectrum.numTransitions) s).1 = .error e) :
    (searchPlane params direction s).1 = .error e := by
  rw [searchPlane_eq]
  generalize conduct tryLine (search params direction s.spectrum.numTransitions) s = run at h
  obtain ⟨r, s'⟩ := run
  cases h
  rfl

/-- The journal of a direction search is that of its line searches. -/
theorem journalSince_searchPlane (params : LineSearchParams α) (direction : PlaneSearchParams α)
    {s : Session α} (hs : s.spectrum.WellFormed) :
    journalSince s (searchPlane params direction s).2 =
      ((search params direction s.spectrum.numTransitions).events tryLine hear s).filterMap
        Event.notice? := by
  have hjournal := (conducted_conduct (search params direction s.spectrum.numTransitions)
    hs).journal_eq
  rw [← journal_searchPlane] at hjournal
  exact journalSince_eq hjournal

/-- Axis minima that coincide end the search of a session, and the second of them is the last that
it reports. -/
theorem searchPlane_of_coincident {params : LineSearchParams α} {direction : PlaneSearchParams α}
    {s : Session α} {k : Nat} {m1 m2 : LineMinimum α} (hs : s.spectrum.WellFormed)
    (hseparation : 0 < direction.minLineSeparation)
    (haxes : AxisMinima ((journalSince s (searchPlane params direction s).2).filterMap
      Notice.lineMinimum?) k m1 m2)
    (hcoincide : Coincide m1 m2) :
    (searchPlane params direction s).1 = .error (.degenerateLine m1.x m2.x) ∧
      (journalSince s (searchPlane params direction s).2).getLast? =
        some (.lineSearchFinished m2) := by
  have htranscript := Search.transcript_events tryLine hear
    (search params direction s.spectrum.numTransitions) s
  rw [journalSince_searchPlane params direction hs] at haxes ⊢
  rw [Event.minima_of_notices] at haxes
  obtain ⟨hresult, hlast⟩ := degenerates_of_coincident htranscript hseparation haxes hcoincide
  refine ⟨searchPlane_of_conduct_error hresult, ?_⟩
  obtain ⟨before, hbefore⟩ := List.getLast?_eq_some_iff.mp hlast
  rw [hbefore, List.filterMap_append, List.getLast?_append]
  rfl

/-- In double precision it is enough that the minima are reported at one number. An infinite one has
no distance from itself. -/
theorem searchPlane_of_same_minima {params : LineSearchParams Float}
    {direction : PlaneSearchParams Float} {s : Session Float} {k : Nat} {m1 m2 : LineMinimum Float}
    (hs : s.spectrum.WellFormed) (hseparation : 0 < direction.minLineSeparation)
    (haxes : AxisMinima ((journalSince s (searchPlane params direction s).2).filterMap
      Notice.lineMinimum?) k m1 m2)
    (hsame : m1.x = m2.x) (hfinite : m1.x.isFinite = true) :
    (searchPlane params direction s).1 = .error (.degenerateLine m1.x m2.x) ∧
      (journalSince s (searchPlane params direction s).2).getLast? =
        some (.lineSearchFinished m2) :=
  searchPlane_of_coincident hs hseparation haxes (coincide_of_eq hsame hfinite)

/-- Where a separation is asked for, axis minima that coincide end the search at once, whatever the
objective does; and so they do in a session. -/
theorem coincident_minima_end_search {direction : PlaneSearchParams α}
    (hseparation : 0 < direction.minLineSeparation) (params : LineSearchParams α) :
    (∀ {σ : Type} (answer : LinePoint α → σ → Outcome α α × σ) (hear : Notice α → σ → σ)
      (transitions k : Nat) (s : σ) (m1 m2 : LineMinimum α),
      AxisMinima (minima ((search params direction transitions).events answer hear s)) k m1 m2 →
      Coincide m1 m2 →
        Degenerates ((search params direction transitions).events answer hear s)
          ((search params direction transitions).run answer hear s).1 m1 m2) ∧
    ∀ (s : Session α) (k : Nat) (m1 m2 : LineMinimum α), s.spectrum.WellFormed →
      AxisMinima ((journalSince s (searchPlane params direction s).2).filterMap
        Notice.lineMinimum?) k m1 m2 →
      Coincide m1 m2 →
        (searchPlane params direction s).1 = .error (.degenerateLine m1.x m2.x) ∧
        (journalSince s (searchPlane params direction s).2).getLast? =
          some (.lineSearchFinished m2) := by
  refine ⟨fun answer hear transitions k s m1 m2 haxes hcoincide => ?_,
    fun s k m1 m2 hs haxes hcoincide => searchPlane_of_coincident hs hseparation haxes hcoincide⟩
  have htranscript := Search.transcript_events answer hear (search params direction transitions) s
  exact degenerates_of_coincident htranscript hseparation haxes hcoincide

open RationalArithmetic in
/-- At a quarter, and at three quarters of that, both axis minima of the session are at the same
point. -/
theorem coincident_minima_end_search_rational :
    let direction : PlaneSearchParams ℚ := ⟨mkRat 3 4, mkRat 1 4, none, 2, mkRat 1 1000⟩
    let run := searchPlane line direction (session .unbounded)
    0 < direction.minLineSeparation ∧ (session .unbounded).spectrum.WellFormed ∧
      ∃ m1 m2, AxisMinima ((journalSince (session .unbounded) run.2).filterMap
          Notice.lineMinimum?) 0 m1 m2 ∧ Coincide m1 m2 ∧
        run.1 = .error (.degenerateLine m1.x m2.x) := by
  intro direction run
  have hseparation : 0 < direction.minLineSeparation := by decide +kernel
  have hs : (session .unbounded).spectrum.WellFormed := ⟨rfl, rfl⟩
  obtain ⟨m1, m2, haxes, hcoincide⟩ : ∃ m1 m2, AxisMinima ((journalSince (session .unbounded)
      run.2).filterMap Notice.lineMinimum?) 0 m1 m2 ∧ Coincide m1 m2 :=
    exists_coincident (by decide +kernel) (by decide +kernel)
  obtain ⟨hresult, -⟩ :=
    (coincident_minima_end_search hseparation line).2 (session .unbounded) 0 m1 m2 hs haxes
      hcoincide
  exact ⟨hseparation, hs, m1, m2, haxes, hcoincide, hresult⟩

/-- With a separation of zero, which is admitted, a flat objective has both axis minima at one
point, and yet the search ends well, at a vertex that is no point of the plane. -/
theorem coincident_minima_unreported :
    let line : LineSearchParams Float := ⟨0.5, 1, 1⟩
    let direction : PlaneSearchParams Float := ⟨0.75, 1, none, 1, 0⟩
    let flat := fun (_ : LinePoint Float) (s : Unit) => ((.ok 0 : Outcome Float Float), s)
    let run := (search line direction 2).run flat (fun _ s => s) ()
    let events := (search line direction 2).events flat (fun _ s => s) ()
    line.check.isOk = true ∧ direction.check.isOk = true ∧
      (∃ m1 m2, AxisMinima (minima events) 0 m1 m2 ∧ Coincide m1 m2) ∧
      run.1.toOption.map (fun d => Scalar.isNaN d.best.y) = some true := by
  intro line direction flat run events
  have hcoincident : ∃ m1 m2, AxisMinima (minima events) 0 m1 m2 ∧ Coincide m1 m2 :=
    exists_coincident (by decide +kernel) (by decide +kernel)
  exact ⟨by decide +kernel, by decide +kernel, hcoincident, by decide +kernel⟩

end Session
end FrequencySampling
