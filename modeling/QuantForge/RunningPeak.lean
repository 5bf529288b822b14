import Mathlib.Order.Bounds.Basic
import Mathlib.Algebra.Order.Field.Basic
import Mathlib.Data.List.Infix

/-!
# Running peaks and drawdowns

The peak of a list of values over a starting value, and the greatest relative loss from the peak reached so far over
all initial parts of the list.  Both are given by their definitions as maxima; `peak_append` and
`IsMaxDrawdown.append` say how they are kept up to date with one more value.
-/

namespace RunningPeak

section Peak

variable {α β : Type} [LinearOrder α] [LinearOrder β]

/-- The maximum of `p₀` and the values. -/
def peak (p₀ : α) (l : List α) : α := l.foldl max p₀

@[simp] theorem peak_nil (p₀ : α) : peak p₀ [] = p₀ := rfl

theorem peak_append (p₀ : α) (l : List α) (e : α) : peak p₀ (l ++ [e]) = max (peak p₀ l) e := by
  simp [peak, List.foldl_append]

/-- The peak does not depend on the unit. -/
theorem peak_map {f : α → β} (hf : Monotone f) (p₀ : α) (l : List α) : peak (f p₀) (l.map f) = f (peak p₀ l) := by
  induction l using List.reverseRecOn with
  | nil => rfl
  | append_singleton l e ih =>
    rw [List.map_append, List.map_singleton, peak_append, peak_append, ih, hf.map_max]

end Peak

section Drawdown

variable {K : Type} [Field K] [LinearOrder K]

/-- Zero, and the relative losses from the peak at the end of the initial parts of `l`, where that peak is above
`ε`. -/
def drawdowns (ε p₀ : K) (l : List K) : Set K :=
  {x | x = 0 ∨ ∃ l' e, l' ++ [e] <+: l ∧ ε < peak p₀ (l' ++ [e]) ∧
    x = (peak p₀ (l' ++ [e]) - e) / peak p₀ (l' ++ [e])}

/-- The greatest of them. -/
def IsMaxDrawdown (ε p₀ : K) (l : List K) (d : K) : Prop := IsGreatest (drawdowns ε p₀ l) d

variable {ε p₀ d : K} {l : List K}

theorem isMaxDrawdown_nil (ε p₀ : K) : IsMaxDrawdown ε p₀ [] 0 := by
  refine ⟨Or.inl rfl, ?_⟩
  rintro x (rfl | ⟨l', e, hpre, -⟩)
  · exact le_refl _
  · simp at hpre

theorem IsMaxDrawdown.nonneg (h : IsMaxDrawdown ε p₀ l d) : 0 ≤ d := h.2 (Or.inl rfl)

theorem drawdowns_append (ε p₀ : K) (l : List K) (e : K) :
    drawdowns ε p₀ (l ++ [e]) =
      if ε < peak p₀ (l ++ [e]) then
        insert ((peak p₀ (l ++ [e]) - e) / peak p₀ (l ++ [e])) (drawdowns ε p₀ l)
      else drawdowns ε p₀ l := by
  ext x
  -- an initial part is the whole list or one of the list before
  have hsplit : x ∈ drawdowns ε p₀ (l ++ [e]) ↔
      (ε < peak p₀ (l ++ [e]) ∧ x = (peak p₀ (l ++ [e]) - e) / peak p₀ (l ++ [e])) ∨ x ∈ drawdowns ε p₀ l := by
    constructor
    · rintro (hx | ⟨l', e', hpre, hx⟩)
      · exact Or.inr (Or.inl hx)
      · rcases List.prefix_concat_iff.1 hpre with heq | hpre
        · obtain ⟨rfl, he⟩ := List.append_inj' heq rfl
          obtain rfl : e' = e := List.singleton_inj.1 he
          exact Or.inl hx
        · exact Or.inr (Or.inr ⟨l', e', hpre, hx⟩)
    · rintro (hx | hx | ⟨l', e', hpre, hx⟩)
      · exact Or.inr ⟨l, e, List.prefix_refl _, hx⟩
      · exact Or.inl hx
      · exact Or.inr ⟨l', e', hpre.trans (List.prefix_append _ _), hx⟩
  rw [hsplit]
  split
  · rename_i hP
    simp [hP]
  · rename_i hP
    simp [hP]

/-- One more value. -/
theorem IsMaxDrawdown.append (h : IsMaxDrawdown ε p₀ l d) (e : K) :
    IsMaxDrawdown ε p₀ (l ++ [e])
      (if ε < peak p₀ (l ++ [e]) then max ((peak p₀ (l ++ [e]) - e) / peak p₀ (l ++ [e])) d else d) := by
  unfold IsMaxDrawdown
  rw [drawdowns_append]
  split
  · exact IsGreatest.insert _ h
  · exact h

end Drawdown

end RunningPeak
