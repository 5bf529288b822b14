import Mathlib.Data.List.AList
import Mathlib.Data.List.Sort
import Mathlib.Algebra.BigOperators.Group.List.Basic

/-!
# Finite maps with sums and an ordered traversal

`Map K V` is Mathlib's association list without duplicate keys.  On top of it: the sum of a function over the
entries, how the sum changes when a key is written or erased, and the keys in increasing order (the order in
which an ordered map is traversed).
-/

/-- A finite map from `K` to `V`. -/
abbrev Map (K V : Type) := AList (fun _ : K => V)

namespace Map

variable {K V : Type}

/-- The sum of `f key value` over the entries. -/
def sumBy {A : Type} [AddCommMonoid A] (f : K → V → A) (m : Map K V) : A :=
  (m.entries.map fun e => f e.1 e.2).sum

/-- The keys in increasing order. -/
def sortedKeys [LinearOrder K] (m : Map K V) : List K := m.keys.insertionSort (· ≤ ·)

variable [DecidableEq K]

theorem lookup_insert_eq (m : Map K V) (k k' : K) (v : V) :
    (m.insert k v).lookup k' = if k' = k then some v else m.lookup k' := by
  by_cases h : k' = k
  · subst h; simp
  · simp [h, AList.lookup_insert_ne h]

theorem lookup_erase_eq (m : Map K V) (k k' : K) :
    (m.erase k).lookup k' = if k' = k then none else m.lookup k' := by
  by_cases h : k' = k
  · subst h; simp
  · simp [h, AList.lookup_erase_ne h]

omit [DecidableEq K] in
theorem eq_empty_of_isEmpty {m : Map K V} (h : m.entries.isEmpty = true) : m = ∅ :=
  AList.ext (List.isEmpty_iff.1 h)

theorem eq_empty_of_lookup {m : Map K V} (h : ∀ k, m.lookup k = none) : m = ∅ := by
  apply AList.ext
  rcases he : m.entries with _ | ⟨⟨k, v⟩, l⟩
  · rfl
  · have hk : m.lookup k = some v := by simp [AList.lookup, he]
    rw [h k] at hk
    cases hk

/-! ### Sums -/

section Sum

variable {A : Type} [AddCommMonoid A] (f : K → V → A)

omit [DecidableEq K] in
@[simp] theorem sumBy_empty : sumBy f (∅ : Map K V) = 0 := rfl

theorem perm_cons_kerase {l : List (Sigma fun _ : K => V)} {k : K} {v : V}
    (h : l.dlookup k = some v) : l.Perm (⟨k, v⟩ :: l.kerase k) := by
  induction l with
  | nil => simp at h
  | cons e l ih =>
    obtain ⟨k', v'⟩ := e
    by_cases hk : k = k'
    · subst hk
      have hv : v' = v := by simpa using h
      subst hv
      simp
    · have hl : l.dlookup k = some v := by
        have := List.dlookup_cons_ne (β := fun _ : K => V) l ⟨k', v'⟩ hk
        rwa [this] at h
      have he : List.kerase k (⟨k', v'⟩ :: l) = ⟨k', v'⟩ :: l.kerase k :=
        List.kerase_cons_ne (β := fun _ : K => V) (s := ⟨k', v'⟩) hk
      rw [he]
      exact ((ih hl).cons _).trans (List.Perm.swap ..)

theorem sumBy_of_lookup {m : Map K V} {k : K} {v : V} (h : m.lookup k = some v) :
    sumBy f m = f k v + sumBy f (m.erase k) := by
  have := ((perm_cons_kerase h).map fun e => f e.1 e.2).sum_eq
  rw [List.map_cons, List.sum_cons] at this
  exact this

theorem sumBy_erase_of_notMem {m : Map K V} {k : K} (h : m.lookup k = none) :
    sumBy f (m.erase k) = sumBy f m := by
  have hk : k ∉ m.entries.keys := by
    rw [AList.lookup_eq_none, AList.mem_keys] at h
    exact h
  have : (m.erase k).entries = m.entries := List.kerase_of_notMem_keys hk
  rw [sumBy, sumBy, this]

theorem sumBy_insert (m : Map K V) (k : K) (v : V) :
    sumBy f (m.insert k v) = f k v + sumBy f (m.erase k) := by
  have : (m.insert k v).entries = ⟨k, v⟩ :: (m.erase k).entries := AList.entries_insert
  rw [sumBy, this, List.map_cons, List.sum_cons]
  rfl

theorem sumBy_insert_of_notMem {m : Map K V} {k : K} (h : m.lookup k = none) (v : V) :
    sumBy f (m.insert k v) = f k v + sumBy f m := by
  rw [sumBy_insert, sumBy_erase_of_notMem f h]

theorem sumBy_congr {f g : K → V → A} {m : Map K V} (h : ∀ k v, m.lookup k = some v → f k v = g k v) :
    sumBy f m = sumBy g m := by
  unfold sumBy
  congr 1
  apply List.map_congr_left
  intro e he
  exact h e.1 e.2 (AList.mem_lookup_iff.2 he)

/-- A sum does not depend on the order of the entries. -/
theorem sumBy_of_lookup_eq {m m' : Map K V} (h : ∀ k, m.lookup k = m'.lookup k) : sumBy f m = sumBy f m' := by
  have hperm : m.entries.Perm m'.entries :=
    List.lookup_ext m.nodupKeys m'.nodupKeys fun k v => by
      rw [show m.entries.dlookup k = m'.entries.dlookup k from h k]
  exact (hperm.map _).sum_eq

omit [DecidableEq K] in
/-- A sum of images is the image of the sum. -/
theorem map_sumBy {B : Type} [AddCommMonoid B] (g : A →+ B) (m : Map K V) :
    g (sumBy f m) = sumBy (fun k v => g (f k v)) m := by
  unfold sumBy
  rw [map_list_sum, List.map_map]
  rfl

end Sum

end Map
