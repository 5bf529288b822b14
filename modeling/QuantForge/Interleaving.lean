import Mathlib.Algebra.Order.BigOperators.Group.Finset
import Mathlib.Data.Fintype.BigOperators
import Mathlib.Logic.Relation

/-!
# Interleavings of threads

A system of threads over one shared state is given by its actions: when an action can happen and what it makes of the
state.  An interleaving is any sequence of actions, each enabled when its turn comes; `Reaches G` are the
interleavings whose actions all meet `G`.  What holds at the start and is kept by every action holds in every state
reached (`Reaches.invariant`).  `count p w` is the number of threads at a program point that satisfies `p`.
-/

namespace Interleaving

/-- The actions of a system of threads. -/
structure System (σ α : Type) where
  Enabled : α → σ → Prop
  effect : α → σ → σ

variable {σ α : Type} {sys : System σ α} {G : α → σ → Prop} {s s' : σ}

namespace System

/-- Some interleaving of actions that meet `G` leads from one state to the other. -/
def Reaches (sys : System σ α) (G : α → σ → Prop) : σ → σ → Prop :=
  Relation.ReflTransGen fun s s' => ∃ a, sys.Enabled a s ∧ G a s ∧ s' = sys.effect a s

/-- Every interleaving. -/
def Anything : α → σ → Prop := fun _ _ => True

instance (a : α) (s : σ) : Decidable (Anything a s) := isTrue trivial

/-- An invariant of the actions holds in every state reached. -/
theorem Reaches.invariant {J : σ → Prop} (h : sys.Reaches G s s') (h0 : J s)
    (hstep : ∀ a s, J s → sys.Enabled a s → G a s → J (sys.effect a s)) : J s' := by
  induction h with
  | refl => exact h0
  | tail _ hs ih =>
    obtain ⟨a, hen, hG, rfl⟩ := hs
    exact hstep a _ ih hen hG

theorem Reaches.mono {G' : α → σ → Prop} (h : sys.Reaches G s s') (hG : ∀ a s, G a s → G' a s) :
    sys.Reaches G' s s' := by
  refine Relation.ReflTransGen.mono ?_ _ _ h
  rintro s s' ⟨a, hen, ha, he⟩
  exact ⟨a, hen, hG a s ha, he⟩

/-- The state after the given actions, if each of them can happen and meets `G`. -/
def run (sys : System σ α) (G : α → σ → Prop) [∀ a s, Decidable (sys.Enabled a s)] [∀ a s, Decidable (G a s)] :
    List α → σ → Option σ
  | [], s => some s
  | a :: l, s => if sys.Enabled a s ∧ G a s then run sys G l (sys.effect a s) else none

theorem reaches_of_run [∀ a s, Decidable (sys.Enabled a s)] [∀ a s, Decidable (G a s)] {l : List α}
    (h : sys.run G l s = some s') : sys.Reaches G s s' := by
  induction l generalizing s with
  | nil =>
    cases h
    exact Relation.ReflTransGen.refl
  | cons a l ih =>
    unfold run at h
    split at h
    · rename_i hen
      exact Relation.ReflTransGen.head ⟨a, hen.1, hen.2, rfl⟩ (ih h)
    · cases h

/-- Actions that decrease a measure cannot go on for ever. -/
theorem length_le_of_run [∀ a s, Decidable (sys.Enabled a s)] [∀ a s, Decidable (G a s)] {μ : σ → ℕ}
    (hμ : ∀ a s, sys.Enabled a s → G a s → μ (sys.effect a s) < μ s) {l : List α} (h : sys.run G l s = some s') :
    l.length + μ s' ≤ μ s := by
  induction l generalizing s with
  | nil =>
    cases h
    rw [List.length_nil, Nat.zero_add]
  | cons a l ih =>
    unfold run at h
    split at h
    · rename_i hen
      have hlt := hμ a s hen.1 hen.2
      have hle := ih h
      rw [List.length_cons]
      omega
    · cases h

end System

/-! ### Counting threads -/

section Count

variable {ι β : Type} [Fintype ι]

/-- The number of threads whose program point satisfies `p`. -/
def count (p : β → Bool) (w : ι → β) : ℕ := ∑ i, (p (w i)).toNat

/-- A sum over the threads after one of them has moved. -/
theorem sum_update [DecidableEq ι] (f : β → ℕ) (w : ι → β) (i : ι) (x : β) :
    ∑ j, f (Function.update w i x j) + f (w i) = ∑ j, f (w j) + f x := by
  rw [← Finset.add_sum_erase _ _ (Finset.mem_univ i), ← Finset.add_sum_erase _ (fun j => f (w j)) (Finset.mem_univ i)]
  have hrest : ∑ j ∈ Finset.univ.erase i, f (Function.update w i x j) = ∑ j ∈ Finset.univ.erase i, f (w j) := by
    refine Finset.sum_congr rfl fun j hj => ?_
    rw [Function.update_of_ne (Finset.ne_of_mem_erase hj)]
  rw [hrest, Function.update_self]
  omega

/-- Moving one thread. -/
theorem count_update [DecidableEq ι] (p : β → Bool) (w : ι → β) (i : ι) (x : β) :
    count p (Function.update w i x) + (p (w i)).toNat = count p w + (p x).toNat :=
  sum_update (fun b => (p b).toNat) w i x

theorem count_eq_zero {p : β → Bool} {w : ι → β} : count p w = 0 ↔ ∀ i, p (w i) = false := by
  unfold count
  rw [Finset.sum_eq_zero_iff]
  simp

theorem count_le_card (p : β → Bool) (w : ι → β) : count p w ≤ Fintype.card ι := by
  unfold count
  calc ∑ i, (p (w i)).toNat ≤ ∑ _i : ι, 1 := Finset.sum_le_sum fun i _ => Bool.toNat_le _
    _ = Fintype.card ι := by simp

/-- A thread at a program point that does not count, moved to another one that does not count. -/
theorem count_update_of_eq [DecidableEq ι] {p : β → Bool} {w : ι → β} {i : ι} {x : β} (h : p x = p (w i)) :
    count p (Function.update w i x) = count p w := by
  have := count_update p w i x
  rw [h] at this
  omega

end Count

end Interleaving
