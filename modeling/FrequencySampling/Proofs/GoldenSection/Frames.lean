import FrequencySampling.Proofs.ExactArithmetic
import FrequencySampling.Proofs.GoldenSection.Contract

/-!
The frames of a line search in exact arithmetic. The four points keep their order and never leave
the interval, wherever the first inner point was found, and each frame lies in the one before it.
Nothing is assumed of the objective.
-/

namespace FrequencySampling

theorem LineSearchParams.check_eq_ok_iff {params : LineSearchParams ℝ} :
    params.check = .ok () ↔
      0 < params.tol ∧ params.maxIterations ≠ 0 ∧ params.maxBracketSteps ≠ 0 := by
  simp [LineSearchParams.accepts_iff]

namespace GoldenSection

theorem smallPart_real : (smallPart : ℝ) = 381966011 / 1000000000 := by
  norm_num [smallPart]

theorem largePart_real : (largePart : ℝ) = 618033989 / 1000000000 := by
  norm_num [largePart]

namespace Frame

/-- The four points are in order and inside the interval. -/
structure Within (lo hi : ℝ) (fr : Frame ℝ) : Prop where
  lo_le : lo ≤ fr.x0
  x0_lt : fr.x0 < fr.x1
  x1_lt : fr.x1 < fr.x2
  x2_lt : fr.x2 < fr.x3
  le_hi : fr.x3 ≤ hi

/-- The frame covers the interval, and its second inner point is at a golden section. The first one
may be anywhere between the ends. -/
structure Spans (lo hi : ℝ) (fr : Frame ℝ) : Prop where
  x0_eq : fr.x0 = lo
  lo_lt : lo < fr.x1
  x2_eq : fr.x2 = fr.x1 + smallPart * (hi - fr.x1)
  lt_hi : fr.x1 < hi
  x3_eq : fr.x3 = hi

/-- What a step can do: the outer part beyond the worse inner point goes, and the golden section of
the outer part that stays gives the new inner point. -/
theorem narrowed_cases (fr : Frame ℝ) (f : ℝ) :
    (fr.f1 ≤ fr.f2 ∧ fr.narrowed f =
      ⟨fr.x0, largePart * fr.x1 + smallPart * fr.x0, fr.x1, fr.x2, f, fr.f1⟩) ∨
    (fr.f2 < fr.f1 ∧ fr.narrowed f =
      ⟨fr.x1, fr.x2, largePart * fr.x2 + smallPart * fr.x3, fr.x3, fr.f2, f⟩) := by
  by_cases h : fr.f1 ≤ fr.f2
  · exact .inl ⟨h, by simp [narrowed, nextPoint, keepsLeft, h]⟩
  · exact .inr ⟨not_le.mp h, by simp [narrowed, nextPoint, keepsLeft, h]⟩

variable {lo hi : ℝ} {fr : Frame ℝ}

theorem Spans.within (h : fr.Spans lo hi) : fr.Within lo hi := by
  obtain ⟨h0, h1, h2, h3, h4⟩ := h
  rw [smallPart_real] at h2
  constructor <;> linarith

theorem Within.narrowed (h : fr.Within lo hi) (f : ℝ) : (fr.narrowed f).Within lo hi := by
  obtain ⟨h0, h1, h2, h3, h4⟩ := h
  obtain ⟨-, hn⟩ | ⟨-, hn⟩ := fr.narrowed_cases f <;> rw [hn] <;>
    constructor <;> simp only [smallPart_real, largePart_real] <;> linarith

theorem Within.width_eq (h : fr.Within lo hi) : fr.width = fr.x3 - fr.x0 := by
  obtain ⟨-, h1, h2, h3, -⟩ := h
  exact abs_of_pos (by linarith)

/-- The interval that a frame leaves. -/
def extent (fr : Frame ℝ) : Set ℝ :=
  Set.Icc fr.x0 fr.x3

theorem Within.narrowed_extent (h : fr.Within lo hi) (f : ℝ) :
    (fr.narrowed f).extent ⊆ fr.extent := by
  obtain ⟨-, h1, h2, h3, -⟩ := h
  obtain ⟨-, hn⟩ | ⟨-, hn⟩ := fr.narrowed_cases f
  · rw [hn]
    exact Set.Icc_subset_Icc le_rfl h3.le
  · rw [hn]
    exact Set.Icc_subset_Icc h1.le le_rfl

theorem Within.nextPoint_mem_Ioo (h : fr.Within lo hi) : fr.nextPoint ∈ Set.Ioo lo hi := by
  obtain ⟨h0, h1, h2, h3, h4⟩ := h
  unfold nextPoint
  split <;> constructor <;> simp only [smallPart_real, largePart_real] <;> linarith

theorem Within.nextPoint_mem (h : fr.Within lo hi) : fr.nextPoint ∈ Set.Icc lo hi :=
  Set.Ioo_subset_Icc_self h.nextPoint_mem_Ioo

theorem Within.best_mem_Ioo (h : fr.Within lo hi) : fr.best.1 ∈ Set.Ioo lo hi := by
  obtain ⟨h0, h1, h2, h3, h4⟩ := h
  unfold best
  split <;> constructor <;> simp only <;> linarith

theorem Within.best_mem (h : fr.Within lo hi) : fr.best.1 ∈ fr.extent := by
  obtain ⟨-, h1, h2, h3, -⟩ := h
  unfold best
  split
  · exact ⟨h1.le, (h2.trans h3).le⟩
  · exact ⟨(h1.trans h2).le, h3.le⟩

end Frame

variable {answers : ℝ → ℝ → Prop} {t : Search.Terms ℝ ℝ} {params : LineSearchParams ℝ} {lo hi : ℝ}

/-- Every trial falls short of the end opposite to the one that the trials approach. -/
theorem covers_interval (hlt : lo < hi) :
    Covers (fun x => lo < x ∧ x < hi) (fun x => x ∈ Set.Icc lo hi) lo hi where
  left := ⟨le_rfl, hlt.le⟩
  right := ⟨hlt.le, le_rfl⟩
  trial := by
    refine ⟨fun d => 0 < d ∧ d ≤ hi - lo, ⟨sub_pos.mpr hlt, le_rfl⟩, fun d ⟨hpos, hle⟩ => ?_⟩
    rw [smallPart_real]
    refine ⟨⟨?_, ?_⟩, ⟨?_, ?_⟩, ?_, ?_⟩ <;> linarith
  inner x := by
    rintro ⟨hlo, hhi⟩
    rw [smallPart_real]
    refine ⟨⟨hlo.le, hhi.le⟩, ?_, ?_⟩ <;> linarith

theorem Frame.Opens.spans {fr : Frame ℝ} (h : fr.Opens (fun x => lo < x ∧ x < hi) lo hi) :
    fr.Spans lo hi :=
  ⟨h.x0_eq, h.near_x1.1, h.x2_eq, h.near_x1.2, h.x3_eq⟩

theorem opening_spans (hp : params.check = .ok ()) (hlt : lo < hi)
    (hasks : ∀ x ∈ Set.Icc lo hi, t.asks x) (hexhausted : t.tells .bracketingExhausted) :
    (opening params lo hi).Obeys t fun o =>
      o.frame.Spans lo hi ∧ o.frame.Answered t.answers := by
  have hcovers : Covers (fun x => lo < x ∧ x < hi) t.asks lo hi := by
    obtain ⟨hleft, hright, htrial, hinner⟩ := covers_interval hlt
    exact ⟨hasks lo hleft, hasks hi hright, htrial, fun x hx =>
      ⟨hasks x (hinner x hx).1, hasks _ (hinner x hx).2⟩⟩
  refine (opening_obeys hcovers hexhausted (fun e he => ?_) fun hempty => ?_).mono fun o ho =>
    ⟨ho.1.spans, ho.2⟩
  · rw [hp] at he
    cases he
  · have hle : hi ≤ lo := by simpa using hempty
    exact absurd hlt (not_lt.mpr hle)

/-- Narrowing starts from a frame over the whole interval, also when no trial was good enough. -/
theorem opening_ensures {params : LineSearchParams ℝ} (hp : params.check = .ok ())
    (hlt : lo < hi) :
    (opening params lo hi).Ensures answers fun o =>
      o.frame.Spans lo hi ∧ o.frame.Answered answers :=
  (opening_spans (t := { answers := answers, fails := fun _ => False }) hp hlt
    (fun _ _ => trivial) trivial).ensures fun _ h => h

/-- A line search asks within its interval, and the point it gives back is between the ends. -/
theorem minimize_within (hp : params.check = .ok ()) (hlt : lo < hi)
    (hasks : ∀ x ∈ Set.Icc lo hi, t.asks x) (hexhausted : t.tells .bracketingExhausted)
    (hcapped : t.tells .narrowingCapped) :
    (minimize params lo hi).Obeys t fun m => m.x ∈ Set.Ioo lo hi := by
  have hopening := (opening_spans hp hlt hasks hexhausted).mono fun o ho => ho.1.within
  refine (minimize_obeys hopening (fun fr h => ?_) (fun fr f h _ => h.narrowed f) hcapped).mono
    fun m hm => ?_
  · exact hasks _ (h.nextPoint_mem)
  · obtain ⟨fr, hfr, hbest⟩ := hm
    obtain ⟨hlo, hhi⟩ := hfr.best_mem_Ioo
    rw [hbest] at hlo hhi
    exact ⟨hlo, hhi⟩

end GoldenSection
end FrequencySampling
