import QuantForge.BookOps

/-!
# The heaps of the books

`min_heap.hpp` and `max_heap.hpp`, with their loops as they are written: a number of turns, and no result if an index
is out of range.  With enough turns the loops are those of `BinaryHeap` (`bubbleUpLoop_eq`, `bubbleDownLoop_eq`), so
for every strict weak order any sequence of calls has a result and leaves a priority queue with the values of its
pushes, less the tops that its pops have taken (`calls_priorityQueue`).
-/

namespace QuantForge

namespace DataStructures

open BinaryHeap

variable {α : Type}

/-- `operator<` and `operator>` of the elements, two functions of their own. -/
structure Operators (α : Type) where
  lt : α → α → Bool
  gt : α → α → Bool

/-- The two classes are the same but for the operator. -/
inductive HeapClass
  | minHeap
  | maxHeap

def HeapClass.before (operators : Operators α) : HeapClass → α → α → Bool
  | minHeap => operators.lt
  | maxHeap => operators.gt

/-! ### The loops -/

/-- `std::swap(data_[i], data_[j])`. -/
def swap? (data : Array α) (i j : ℕ) : Option (Array α) :=
  if i < data.size ∧ j < data.size then some (data.swapIfInBounds i j) else none

def bubbleUpLoop (before : α → α → Bool) : ℕ → Array α → ℕ → Option (Array α)
  | 0, _, _ => none
  | turns + 1, data, idx =>
    if 0 < idx then do
      let parentIdx := (idx - 1) / 2
      let value ← data[idx]?
      let parent ← data[parentIdx]?
      if before value parent then bubbleUpLoop before turns (← swap? data idx parentIdx) parentIdx
      else some data
    else some data

/-- The comparison of a child with the element at `smallest_idx` (`largest_idx`). -/
def pick? (before : α → α → Bool) (data : Array α) (childIdx bestIdx : ℕ) : Option ℕ :=
  if childIdx < data.size then do
    let child ← data[childIdx]?
    let best ← data[bestIdx]?
    some (if before child best then childIdx else bestIdx)
  else some bestIdx

def bubbleDownLoop (before : α → α → Bool) : ℕ → Array α → ℕ → Option (Array α)
  | 0, _, _ => none
  | turns + 1, data, idx => do
    let bestIdx ← pick? before data (2 * idx + 1) idx
    let bestIdx ← pick? before data (2 * idx + 2) bestIdx
    if bestIdx = idx then some data else bubbleDownLoop before turns (← swap? data idx bestIdx) bestIdx

/-! ### The calls -/

def push? (before : α → α → Bool) (turns : ℕ) (data : Array α) (value : α) : Option (Array α) :=
  bubbleUpLoop before turns (data.push value) ((data.push value).size - 1)

def pop? (before : α → α → Bool) (turns : ℕ) (data : Array α) : Option (Array α) :=
  if data.isEmpty then some data
  else do
    let back ← data.back?
    let rest := (data.setIfInBounds 0 back).pop
    if rest.isEmpty then some rest else bubbleDownLoop before turns rest 0

def top? (data : Array α) : Option α := if data.isEmpty then none else data[0]?

inductive HeapCall (α : Type)
  | push (value : α)
  | pop

def call? (before : α → α → Bool) (turns : ℕ) (data : Array α) : HeapCall α → Option (Array α)
  | .push value => push? before turns data value
  | .pop => pop? before turns data

def calls? (before : α → α → Bool) (turns : ℕ) (calls : List (HeapCall α)) (data : Array α) : Option (Array α) :=
  calls.foldlM (call? before turns) data

/-- The values of the pushes among the calls. -/
def pushed (calls : List (HeapCall α)) : List α :=
  calls.filterMap fun
    | .push value => some value
    | .pop => none

/-- What `top` shows before each `pop` among the calls. -/
def popped? (before : α → α → Bool) (turns : ℕ) : List (HeapCall α) → Array α → Option (List α)
  | [], _ => some []
  | .push value :: calls, data => do popped? before turns calls (← push? before turns data value)
  | .pop :: calls, data => do
    let later ← popped? before turns calls (← pop? before turns data)
    some ((top? data).toList ++ later)

/-- What the array of a priority queue is: in heap order at every index, nothing goes before `top`, and `pop` takes
out one occurrence of `top`. -/
structure IsPriorityQueue (before : α → α → Bool) (data : Array α) : Prop where
  heapOrder : ∀ i value parent, 0 < i → data[i]? = some value → data[(i - 1) / 2]? = some parent →
    before value parent = false
  top_eq_none : top? data = none ↔ data = #[]
  top : ∀ x, top? data = some x → x ∈ data ∧ ∀ y ∈ data, before y x = false
  pop : ∃ rest, (∀ turns, data.size ≤ turns → pop? before turns data = some rest) ∧
    (data = #[] → rest = #[]) ∧ ∀ x, top? data = some x → data.toList.Perm (x :: rest.toList)

/-! ### The loops end in range -/

section Loops

variable {before : α → α → Bool}

theorem swap?_eq {data : Array α} {i j : ℕ} (hi : i < data.size) (hj : j < data.size) :
    swap? data i j = some (data.swap i j hi hj) := by
  unfold swap?
  rw [if_pos ⟨hi, hj⟩, Array.swapIfInBounds_def, dif_pos hi, dif_pos hj]

theorem bubbleUpLoop_eq {turns : ℕ} {data : Array α} {idx : ℕ} (hidx : idx < data.size) (hturns : idx < turns) :
    bubbleUpLoop before turns data idx = some (bubbleUp before data idx) := by
  induction turns generalizing data idx with
  | zero => omega
  | succ turns ih =>
    rw [bubbleUpLoop, bubbleUp]
    by_cases hpos : 0 < idx
    · have hparent : (idx - 1) / 2 < data.size := by omega
      rw [if_pos hpos, dif_pos ⟨hpos, hidx⟩]
      simp only [Array.getElem?_eq_getElem hidx, Array.getElem?_eq_getElem hparent, Option.bind_eq_bind,
        Option.bind_some, swap?_eq hidx hparent]
      split
      · exact ih (by simpa using hparent) (by omega)
      · rfl
    · rw [if_neg hpos, dif_neg fun h => hpos h.1]

theorem pick?_eq {data : Array α} {childIdx bestIdx : ℕ} (hbest : bestIdx < data.size) :
    pick? before data childIdx bestIdx = some (pick before data childIdx bestIdx) := by
  unfold pick? pick
  by_cases hchild : childIdx < data.size
  · rw [if_pos hchild, dif_pos ⟨hchild, hbest⟩]
    simp [hchild, hbest]
  · rw [if_neg hchild, dif_neg fun h => hchild h.1]

theorem pick_lt {data : Array α} {childIdx bestIdx : ℕ} (hbest : bestIdx < data.size) :
    pick before data childIdx bestIdx < data.size := by
  rcases pick_eq before data childIdx bestIdx with ⟨heq, hlt⟩ | heq
  · rwa [heq]
  · rwa [heq]

theorem bubbleDownLoop_eq {turns : ℕ} {data : Array α} {idx : ℕ} (hidx : idx < data.size)
    (hturns : data.size ≤ turns + idx) :
    bubbleDownLoop before turns data idx = some (bubbleDown before data idx) := by
  induction turns generalizing data idx with
  | zero => omega
  | succ turns ih =>
    have hleft : pick before data (2 * idx + 1) idx < data.size := pick_lt hidx
    rw [bubbleDownLoop, bubbleDown]
    simp only [pick?_eq hidx, pick?_eq hleft, Option.bind_eq_bind, Option.bind_some]
    set best := pick before data (2 * idx + 2) (pick before data (2 * idx + 1) idx)
    have hlt : best < data.size := pick_lt hleft
    by_cases heq : best = idx
    · rw [if_pos heq, dif_neg fun h => h.1 heq]
    · -- the element goes to one of the children
      have hchild : idx < best := by
        have h1 := pick_eq before data (2 * idx + 1) idx
        have h2 : best = 2 * idx + 2 ∧ 2 * idx + 2 < data.size ∨ best = pick before data (2 * idx + 1) idx :=
          pick_eq before data (2 * idx + 2) _
        omega
      rw [if_neg heq, dif_pos ⟨heq, hidx, hlt⟩, swap?_eq hidx hlt, Option.bind_some]
      exact ih (by simpa using hlt) (by simp only [Array.size_swap]; omega)

theorem push?_eq {turns : ℕ} {data : Array α} (hturns : data.size < turns) (value : α) :
    push? before turns data value = some ((⟨data⟩ : BinaryHeap before).push value).data := by
  unfold push?
  rw [bubbleUpLoop_eq (by simp) (by simpa using hturns)]
  simp [BinaryHeap.push]

theorem pop?_eq {turns : ℕ} {data : Array α} (hturns : data.size ≤ turns) :
    pop? before turns data = some (⟨data⟩ : BinaryHeap before).pop.data := by
  unfold pop? BinaryHeap.pop
  by_cases hsize : 0 < data.size
  · have hback : data.back? = some data[data.size - 1] := by
      rw [Array.back?, Array.getElem?_eq_getElem]
    have hset : data.setIfInBounds 0 data[data.size - 1] = data.set 0 data[data.size - 1] hsize := by
      rw [Array.setIfInBounds, dif_pos hsize]
    rw [if_neg (by simpa using hsize.ne'), dif_pos hsize, hback]
    simp only [Option.bind_eq_bind, Option.bind_some, hset, Array.isEmpty_iff_size_eq_zero]
    by_cases hrest : (data.set 0 data[data.size - 1] hsize).pop.size = 0
    · rw [if_pos hrest, if_pos hrest]
    · rw [if_neg hrest, if_neg hrest]
      exact bubbleDownLoop_eq (Nat.pos_of_ne_zero hrest) (by simp only [Array.size_pop, Array.size_set]; omega)
  · have hempty : data = #[] := Array.eq_empty_of_size_eq_zero (by omega)
    simp [hempty]

theorem top?_eq (before : α → α → Bool) (data : Array α) : top? data = (⟨data⟩ : BinaryHeap before).top := by
  unfold top? BinaryHeap.top
  split
  · rename_i h
    simp [Array.isEmpty_iff.1 h]
  · rfl

end Loops

/-! ### Runs -/

section Runs

variable {κ : Type} [LinearOrder κ] {before : α → α → Bool} {key : α → κ}

theorem size_push (data : Array α) (value : α) :
    ((⟨data⟩ : BinaryHeap before).push value).data.size = data.size + 1 := by
  have hlength := (toList_push (⟨data⟩ : BinaryHeap before) value).length_eq
  simpa [toList] using hlength

/-- Pushing a list, one element after the other. -/
theorem foldlM_push? {limit : ℕ} {values : List α} {data : Array α} (hlimit : data.size + values.length ≤ limit) :
    values.foldlM (push? before limit) data = some ((⟨data⟩ : BinaryHeap before).pushAll values).data := by
  induction values generalizing data with
  | nil => rfl
  | cons value values ih =>
    have hsize : ((⟨data⟩ : BinaryHeap before).push value).data.size = data.size + 1 := size_push data value
    rw [List.length_cons] at hlimit
    rw [List.foldlM_cons, push?_eq (by omega), Option.bind_eq_bind, Option.bind_some, ih (by omega)]
    rfl

theorem pop_empty : (⟨#[]⟩ : BinaryHeap before).pop = ⟨#[]⟩ := rfl

/-- `pop` takes out what `top` shows, if anything. -/
theorem toList_pop? (before : α → α → Bool) (data : Array α) :
    data.toList.Perm ((top? data).toList ++ (⟨data⟩ : BinaryHeap before).pop.data.toList) := by
  rw [top?_eq before]
  rcases htop : (⟨data⟩ : BinaryHeap before).top with _ | x
  · have hempty : data = #[] := by simpa [toList] using top_eq_none.1 htop
    subst hempty
    exact List.Perm.refl _
  · exact toList_pop htop

/-- The size after `pop`. -/
theorem size_pop_le (data : Array α) : (⟨data⟩ : BinaryHeap before).pop.data.size ≤ data.size := by
  have hlength : data.size = (top? data).toList.length + (⟨data⟩ : BinaryHeap before).pop.data.size := by
    simpa using (toList_pop? before data).length_eq
  omega

/-- All calls of a sequence end in range; they leave a heap in order, with what was there, plus what is pushed, less
what is popped. -/
theorem calls_ordered (hkey : KeyedBy before key) (calls : List (HeapCall α)) {data : Array α}
    (h : Ordered key (⟨data⟩ : BinaryHeap before)) :
    ∃ (data' : Array α) (popped : List α), Ordered key (⟨data'⟩ : BinaryHeap before) ∧
      (data.toList ++ pushed calls).Perm (popped ++ data'.toList) ∧
      ∀ turns, data.size + calls.length ≤ turns →
        calls? before turns calls data = some data' ∧ popped? before turns calls data = some popped := by
  induction calls generalizing data with
  | nil =>
    exact ⟨data, [], h, by rw [pushed, List.filterMap_nil, List.append_nil, List.nil_append],
      fun _ _ => ⟨rfl, rfl⟩⟩
  | cons call calls ih =>
    cases call with
    | push value =>
      obtain ⟨data', popped, hordered, hperm, hcalls⟩ :=
        @ih ((⟨data⟩ : BinaryHeap before).push value).data (ordered_push hkey h value)
      refine ⟨data', popped, hordered, ?_, fun turns hturns => ?_⟩
      · have hpush : ((⟨data⟩ : BinaryHeap before).push value).data.toList.Perm (value :: data.toList) :=
          toList_push (⟨data⟩ : BinaryHeap before) value
        exact (List.perm_middle.trans (hpush.symm.append_right _)).trans hperm
      · rw [List.length_cons] at hturns
        have hsize : ((⟨data⟩ : BinaryHeap before).push value).data.size = data.size + 1 := size_push data value
        have hlater := hcalls turns (by omega)
        rw [calls?, List.foldlM_cons, popped?, call?, push?_eq (by omega)]
        exact hlater
    | pop =>
      obtain ⟨data', popped, hordered, hperm, hcalls⟩ :=
        @ih (⟨data⟩ : BinaryHeap before).pop.data (ordered_pop hkey h)
      refine ⟨data', (top? data).toList ++ popped, hordered, ?_, fun turns hturns => ?_⟩
      · have hpop := (toList_pop? before data).append_right (pushed calls)
        rw [List.append_assoc] at hpop ⊢
        exact hpop.trans (hperm.append_left _)
      · rw [List.length_cons] at hturns
        have hsize : (⟨data⟩ : BinaryHeap before).pop.data.size ≤ data.size := size_pop_le data
        obtain ⟨hlater, hpopped⟩ := hcalls turns (by omega)
        rw [calls?, List.foldlM_cons, popped?, call?, pop?_eq (by omega)]
        exact ⟨hlater, by simp only [Option.bind_eq_bind, Option.bind_some, hpopped]⟩

theorem isPriorityQueue (hkey : KeyedBy before key) {data : Array α} (h : Ordered key (⟨data⟩ : BinaryHeap before)) :
    IsPriorityQueue before data where
  heapOrder i value parent hi hvalue hparent := by
    have hle := h i hi
    simp only [keyAt, hvalue, hparent, WithTop.coe_le_coe] at hle
    exact Bool.eq_false_iff.2 fun hlt => absurd ((hkey _ _).1 hlt) (not_lt.2 hle)
  top_eq_none := by
    rw [top?_eq before, BinaryHeap.top_eq_none]
    exact Array.toList_eq_nil_iff
  top x htop := by
    rw [top?_eq before] at htop
    refine ⟨Array.mem_def.2 (top_mem htop), fun y hy => Bool.eq_false_iff.2 fun hlt => ?_⟩
    exact absurd ((hkey _ _).1 hlt) (not_lt.2 (top_le h htop y (Array.mem_def.1 hy)))
  pop := by
    refine ⟨(⟨data⟩ : BinaryHeap before).pop.data, fun turns hturns => pop?_eq hturns, ?_, ?_⟩
    · intro hempty
      rw [hempty, pop_empty]
    · intro x htop
      rw [top?_eq before] at htop
      exact toList_pop htop

end Runs

/-- Both heaps are priority queues after every sequence of calls, whatever strict weak order their operator is, and
hold the values of the pushes less the tops taken by the pops. -/
theorem calls_priorityQueue (operators : Operators α) (heap : HeapClass)
    [IsStrictWeakOrder α fun a b => heap.before operators a b = true] (calls : List (HeapCall α)) :
    ∃ (data : Array α) (popped : List α),
      (∀ turns, calls.length ≤ turns → calls? (heap.before operators) turns calls #[] = some data ∧
        popped? (heap.before operators) turns calls #[] = some popped) ∧
      IsPriorityQueue (heap.before operators) data ∧ (pushed calls).Perm (popped ++ data.toList) := by
  obtain ⟨K, _, key, hkey⟩ := exists_keyedBy (heap.before operators)
  obtain ⟨data, popped, hordered, hperm, hcalls⟩ := calls_ordered hkey calls ordered_empty
  exact ⟨data, popped, fun turns hturns => hcalls turns (by simpa using hturns), isPriorityQueue hkey hordered, hperm⟩

/-- Numbers compared by their tens. -/
def byTens : Operators ℕ where
  lt a b := a / 10 < b / 10
  gt a b := a / 10 > b / 10

def tensCalls : List (HeapCall ℕ) := [.pop, .push 25, .push 31, .push 38, .pop, .push 22]

/-- The 31 comes out; of the 38 and the other two the array is in heap order. -/
theorem calls_priorityQueue_byTens :
    (IsStrictWeakOrder ℕ fun a b => HeapClass.maxHeap.before byTens a b = true) ∧
      calls? (HeapClass.maxHeap.before byTens) 6 tensCalls #[] = some #[38, 25, 22] ∧
      popped? (HeapClass.maxHeap.before byTens) 6 tensCalls #[] = some [31] ∧
      IsPriorityQueue (HeapClass.maxHeap.before byTens) #[38, 25, 22] ∧
      (pushed tensCalls).Perm ([31] ++ [38, 25, 22]) := by
  have hweak : IsStrictWeakOrder ℕ fun a b => HeapClass.maxHeap.before byTens a b = true := by
    refine { irrefl := fun a => ?_, trans := fun a b c => ?_, incomp_trans := fun a b c => ?_ } <;>
      simp only [HeapClass.before, byTens, decide_eq_true_eq] <;> omega
  have hdata : calls? (HeapClass.maxHeap.before byTens) 6 tensCalls #[] = some #[38, 25, 22] := by decide
  have hpopped : popped? (HeapClass.maxHeap.before byTens) 6 tensCalls #[] = some [31] := by decide
  obtain ⟨data, popped, hcalls, hqueue, hperm⟩ := calls_priorityQueue byTens .maxHeap tensCalls
  obtain ⟨hdata', hpopped'⟩ := hcalls 6 (by decide)
  obtain rfl := Option.some.inj (hdata'.symm.trans hdata)
  obtain rfl := Option.some.inj (hpopped'.symm.trans hpopped)
  exact ⟨hweak, hdata, hpopped, hqueue, hperm⟩

end DataStructures

/-! ### The books -/

section Books

open BinaryHeap

instance : IsStrictWeakOrder ScheduledOrder fun a b => ScheduledOrder.before a b = true :=
  ScheduledOrder.keyedBy.isStrictWeakOrder

instance (side : Side) : IsStrictWeakOrder LimitOrder fun a b => LimitOrder.before side a b = true :=
  (LimitOrder.keyedBy side).isStrictWeakOrder

theorem ExitOrder.keyedBy : KeyedBy ExitOrder.before ExitOrder.triggerPrice := fun _ _ => decide_eq_true_iff

instance : IsStrictWeakOrder ExitOrder fun a b => ExitOrder.before a b = true :=
  ExitOrder.keyedBy.isStrictWeakOrder

end Books

end QuantForge
