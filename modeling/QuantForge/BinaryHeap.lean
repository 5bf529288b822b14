import Mathlib.Data.List.Perm.Basic
import Mathlib.Algebra.BigOperators.Group.List.Basic
import Mathlib.Tactic.Common

/-!
# Array-backed binary heaps

A heap over an arbitrary comparison `before`: the element at index `i` has its children at `2i+1` and `2i+2`,
`push` appends and bubbles up, `pop` moves the last element to the root and bubbles it down.  With `before` the
`<` of the elements this is a min-heap, with `>` a max-heap.

Whatever the comparison is, bubbling only permutes the array, so `push` adds one element (`toList_push`) and `pop`
removes the one `top` shows (`toList_pop`).
-/

/-- A heap is its array; `before` decides which of two elements goes first. -/
structure BinaryHeap {α : Type} (before : α → α → Bool) where
  data : Array α := #[]

namespace BinaryHeap

variable {α : Type} {before : α → α → Bool}

/-- Swap the element at `idx` with its parent as long as it goes before the parent. -/
def bubbleUp (before : α → α → Bool) (data : Array α) (idx : ℕ) : Array α :=
  if h : 0 < idx ∧ idx < data.size then
    have hi : idx < data.size := h.2
    have hp : (idx - 1) / 2 < data.size := by omega
    if before data[idx] data[(idx - 1) / 2] then
      bubbleUp before (data.swap idx ((idx - 1) / 2)) ((idx - 1) / 2)
    else data
  else data
termination_by idx
decreasing_by omega

/-- The index that goes first among `best` and the candidate `c`, where a candidate outside the array loses. -/
def pick (before : α → α → Bool) (data : Array α) (c best : ℕ) : ℕ :=
  if h : c < data.size ∧ best < data.size then
    have hc : c < data.size := h.1
    have hb : best < data.size := h.2
    if before data[c] data[best] then c else best
  else best

theorem pick_eq (before : α → α → Bool) (data : Array α) (c best : ℕ) :
    (pick before data c best = c ∧ c < data.size) ∨ pick before data c best = best := by
  unfold pick
  split
  · rename_i h
    dsimp only
    split
    · exact Or.inl ⟨rfl, h.1⟩
    · exact Or.inr rfl
  · exact Or.inr rfl

/-- Swap the element at `idx` with the child that goes first, as long as that child goes before it. -/
def bubbleDown (before : α → α → Bool) (data : Array α) (idx : ℕ) : Array α :=
  let first := pick before data (2 * idx + 2) (pick before data (2 * idx + 1) idx)
  if h : first ≠ idx ∧ idx < data.size ∧ first < data.size then
    have hi : idx < data.size := h.2.1
    have hf : first < data.size := h.2.2
    bubbleDown before (data.swap idx first) first
  else data
termination_by data.size - idx
decreasing_by
  have h1 := pick_eq before data (2 * idx + 1) idx
  have h2 := pick_eq before data (2 * idx + 2) (pick before data (2 * idx + 1) idx)
  rw [Array.size_swap]
  omega

def empty : BinaryHeap before := {}

def push (h : BinaryHeap before) (value : α) : BinaryHeap before :=
  { data := bubbleUp before (h.data.push value) h.data.size }

def top (h : BinaryHeap before) : Option α := h.data[0]?

/-- The last element replaces the root and sinks. -/
def pop (h : BinaryHeap before) : BinaryHeap before :=
  if hs : 0 < h.data.size then
    have hl : h.data.size - 1 < h.data.size := by omega
    let data := (h.data.set 0 h.data[h.data.size - 1] hs).pop
    { data := if data.size = 0 then data else bubbleDown before data 0 }
  else h

def toList (h : BinaryHeap before) : List α := h.data.toList

/-- Push every element of a list, first to last. -/
def pushAll (h : BinaryHeap before) (l : List α) : BinaryHeap before := l.foldl push h

/-! ### Bubbling permutes -/

theorem bubbleUp_perm (data : Array α) (idx : ℕ) : (bubbleUp before data idx).Perm data := by
  induction data, idx using bubbleUp.induct before with
  | case1 data idx h hi hp hb ih =>
    rw [bubbleUp]
    simp only [h, and_self, dite_true, hb, ite_true]
    exact ih.trans (Array.swap_perm hi hp)
  | case2 data idx h hi hp hb =>
    rw [bubbleUp]
    simp only [h, and_self, dite_true, hb, Bool.false_eq_true, ite_false]
    exact Array.Perm.refl _
  | case3 data idx h =>
    rw [bubbleUp]
    simp only [h, dite_false]
    exact Array.Perm.refl _

theorem bubbleDown_perm (data : Array α) (idx : ℕ) : (bubbleDown before data idx).Perm data := by
  induction data, idx using bubbleDown.induct before with
  | case1 data idx first h hi hf ih =>
    rw [bubbleDown]
    simp only [first] at h
    simp only [h, ne_eq, not_false_eq_true, and_self, dite_true]
    exact ih.trans (Array.swap_perm hi hf)
  | case2 data idx first h =>
    rw [bubbleDown]
    simp only [first] at h
    simp only [h, dite_false]
    exact Array.Perm.refl _

/-! ### Contents -/

@[simp] theorem toList_empty : (empty : BinaryHeap before).toList = [] := rfl

theorem toList_push (h : BinaryHeap before) (x : α) : (h.push x).toList.Perm (x :: h.toList) := by
  have hp : (h.push x).toList.Perm (h.data.push x).toList := (bubbleUp_perm (h.data.push x) h.data.size).toList
  rw [Array.toList_push] at hp
  exact hp.trans (List.perm_append_singleton x _)

theorem toList_pushAll (h : BinaryHeap before) (l : List α) : (h.pushAll l).toList.Perm (l ++ h.toList) := by
  induction l generalizing h with
  | nil => exact List.Perm.refl _
  | cons x l ih =>
    have h1 : (h.pushAll (x :: l)).toList.Perm (l ++ (h.push x).toList) := ih (h.push x)
    exact h1.trans (((toList_push h x).append_left l).trans List.perm_middle)

theorem top_eq_none {h : BinaryHeap before} : h.top = none ↔ h.toList = [] := by
  simp [top, toList]

/-- `pop` removes exactly the element `top` shows. -/
theorem toList_pop {h : BinaryHeap before} {x : α} (ht : h.top = some x) :
    h.toList.Perm (x :: h.pop.toList) := by
  obtain ⟨⟨l⟩⟩ := h
  cases l with
  | nil => simp [top] at ht
  | cons a l =>
    have hx : a = x := by simpa [top] using ht
    subst hx
    rcases List.eq_nil_or_concat l with rfl | ⟨m, b, hm⟩
    · simp [pop, toList]
    · rw [List.concat_eq_append] at hm
      subst hm
      have hd : ((⟨a :: (m ++ [b])⟩ : Array α).set 0 b (by simp)).pop = ⟨b :: m⟩ := by
        simp [List.dropLast_cons_of_ne_nil]
      have hl : (⟨a :: (m ++ [b])⟩ : Array α).size - 1 = m.length + 1 := by simp
      have hp : (⟨⟨a :: (m ++ [b])⟩⟩ : BinaryHeap before).pop.toList.Perm (b :: m) := by
        simp only [pop]
        rw [dif_pos (by simp)]
        simp only [hl, List.getElem_toArray, List.getElem_cons_succ, List.getElem_concat_length, hd]
        simpa [toList] using (@bubbleDown_perm α before ⟨b :: m⟩ 0).toList
      exact ((List.perm_append_singleton b m).trans hp.symm).cons a

/-- Pop until the heap is empty: the elements in the order `pop` yields them. -/
def drain (h : BinaryHeap before) : List α :=
  match ht : h.top with
  | none => []
  | some x =>
    have : h.pop.toList.length < h.toList.length := by
      have := (toList_pop ht).length_eq
      simp only [List.length_cons] at this
      omega
    x :: drain h.pop
termination_by h.toList.length

theorem drain_of_top_eq_none {h : BinaryHeap before} (ht : h.top = none) : h.drain = [] := by
  rw [drain]
  split
  · rfl
  · simp_all

theorem drain_of_top_eq_some {h : BinaryHeap before} {x : α} (ht : h.top = some x) : h.drain = x :: h.pop.drain := by
  rw [drain]
  split
  · simp_all
  · rename_i y hy
    rw [ht] at hy
    rw [Option.some.inj hy]

theorem drain_perm (h : BinaryHeap before) : h.drain.Perm h.toList := by
  induction h using drain.induct with
  | case1 h ht => rw [drain_of_top_eq_none ht, top_eq_none.1 ht]
  | case2 h x ht _ ih =>
    rw [drain_of_top_eq_some ht]
    exact (ih.cons x).trans (toList_pop ht).symm

theorem top_mem {h : BinaryHeap before} {x : α} (ht : h.top = some x) : x ∈ h.toList :=
  (toList_pop ht).mem_iff.2 List.mem_cons_self

theorem mem_push {h : BinaryHeap before} {x y : α} : y ∈ (h.push x).toList ↔ y = x ∨ y ∈ h.toList := by
  rw [(toList_push h x).mem_iff, List.mem_cons]

theorem mem_of_mem_pop {h : BinaryHeap before} {y : α} (hy : y ∈ h.pop.toList) : y ∈ h.toList := by
  rcases ht : h.top with _ | x
  · have he : h.pop = h := by
      have : h.data.size = 0 := by simpa [toList] using congrArg List.length (top_eq_none.1 ht)
      simp [pop, this]
    rwa [he] at hy
  · exact (toList_pop ht).mem_iff.2 (List.mem_cons_of_mem _ hy)

end BinaryHeap
