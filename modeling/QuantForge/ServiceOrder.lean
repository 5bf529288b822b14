import Mathlib.Data.List.DropRight
import Mathlib.Data.List.MinMax
import Mathlib.Data.List.Forall2
import Mathlib.Data.Prod.Lex
import QuantForge.HeapOrder

/-!
# Equal keys in the order of arrival

`History h ops` says that the heap `h` came about by the operations `ops`, beginning with the empty heap.  A heap with
a history is ordered (`History.ordered`) and holds what is `waiting` (`History.perm`).

A heap is in general not a queue for elements with equal keys: `pop` moves the last element to the root, past the
others.  But `push` does not let an element past one with the same key.  So the top is the first that came in of its
key if the last `pop` has left at most one element with that key behind (`History.find?_top`): the proof stamps the
elements with their places among those waiting, and `push` keeps the heap in order by key and stamp.
-/

namespace BinaryHeap

variable {α κ : Type} [LinearOrder κ] {before : α → α → Bool} {key : α → κ}

/-- An element comes in, or the element at the top goes out. -/
inductive Op (α : Type)
  | add (x : α)
  | serve (x : α)
  deriving DecidableEq

/-- How a heap came about. -/
inductive History : BinaryHeap before → List (Op α) → Prop
  | empty : History empty []
  | push {h : BinaryHeap before} {ops : List (Op α)} (x : α) (hist : History h ops) :
      History (h.push x) (ops ++ [.add x])
  | pop {h : BinaryHeap before} {ops : List (Op α)} {x : α} (hist : History h ops) (htop : h.top = some x) :
      History h.pop (ops ++ [.serve x])

/-- Whatever pushes and pops build is ordered. -/
theorem History.ordered (hkey : KeyedBy before key) {h : BinaryHeap before} {ops : List (Op α)}
    (hist : History h ops) : Ordered key h := by
  induction hist with
  | empty => exact ordered_empty
  | push x _ ih => exact ordered_push hkey ih x
  | pop _ _ ih => exact ordered_pop hkey ih

theorem pushAll_concat (h : BinaryHeap before) (l : List α) (x : α) :
    h.pushAll (l ++ [x]) = (h.pushAll l).push x := by
  rw [BinaryHeap.pushAll, List.foldl_append]
  rfl

theorem History.pushAll {h : BinaryHeap before} {ops : List (Op α)} (hist : History h ops) (l : List α) :
    History (h.pushAll l) (ops ++ l.map .add) := by
  induction l generalizing h ops with
  | nil => simpa [BinaryHeap.pushAll] using hist
  | cons x l ih => simpa [BinaryHeap.pushAll] using ih (hist.push x)

/-- The heap `h'` is left when `out` has gone out of `h`, if it is an element, or nothing has. -/
inductive Served (h : BinaryHeap before) : Option α → BinaryHeap before → Prop
  | none : Served h none h
  | some {x : α} (htop : h.top = some x) : Served h (some x) h.pop

theorem Served.top {h h' : BinaryHeap before} {x : α} (hs : Served h (.some x) h') : h.top = .some x := by
  cases hs with
  | some htop => exact htop

/-- At most one element goes out, and then some come in. -/
theorem History.serve {h h' : BinaryHeap before} {ops : List (Op α)} {out : Option α} (hist : History h ops)
    (hs : Served h out h') (l : List α) : History (h'.pushAll l) (ops ++ (out.toList.map .serve ++ l.map .add)) := by
  rw [← List.append_assoc]
  cases hs with
  | none => simpa using hist.pushAll l
  | some htop => exact (hist.pop htop).pushAll l

section Waiting

variable [DecidableEq α]

/-- The elements that are in after some operations, first come first. -/
def waiting (ops : List (Op α)) : List α :=
  ops.foldl (fun w op => match op with
    | .add x => w ++ [x]
    | .serve x => w.erase x) []

@[simp] theorem waiting_nil : waiting ([] : List (Op α)) = [] := rfl

@[simp] theorem waiting_add (ops : List (Op α)) (x : α) : waiting (ops ++ [.add x]) = waiting ops ++ [x] := by
  simp [waiting]

@[simp] theorem waiting_serve (ops : List (Op α)) (x : α) : waiting (ops ++ [.serve x]) = (waiting ops).erase x := by
  simp [waiting]

def Op.isAdd : Op α → Bool
  | .add _ => true
  | .serve _ => false

/-- The elements that the last one to go out has left behind. -/
def leftByServe (ops : List (Op α)) : List α := waiting (ops.rdropWhile Op.isAdd)

@[simp] theorem leftByServe_nil : leftByServe ([] : List (Op α)) = [] := rfl

@[simp] theorem leftByServe_add (ops : List (Op α)) (x : α) : leftByServe (ops ++ [.add x]) = leftByServe ops := by
  rw [leftByServe, List.rdropWhile_concat_pos _ _ _ rfl, leftByServe]

@[simp] theorem leftByServe_serve (ops : List (Op α)) (x : α) :
    leftByServe (ops ++ [.serve x]) = (waiting ops).erase x := by
  rw [leftByServe, List.rdropWhile_concat_neg _ _ _ (by simp [Op.isAdd]), waiting_serve]

end Waiting

/-! ### Comparing before and after a map -/

section Map

variable {β : Type} {f : β → α} {before' : β → β → Bool}

private theorem map_swap (f : β → α) {data : Array β} {i j : ℕ} (hi : i < data.size) (hj : j < data.size) :
    (data.swap i j hi hj).map f = (data.map f).swap i j (by simpa using hi) (by simpa using hj) := by
  ext n h1 h2
  · simp
  · simp only [Array.getElem_map, Array.getElem_swap]
    split_ifs <;> rfl

/-- Bubbling up depends on the comparisons of the element that moves only. -/
theorem bubbleUp_map {data : Array β} {idx : ℕ} (hi : idx < data.size)
    (hagree : ∀ p ∈ data, before' data[idx] p = before (f data[idx]) (f p)) :
    (bubbleUp before' data idx).map f = bubbleUp before (data.map f) idx := by
  induction data, idx using bubbleUp.induct before' with
  | case1 data idx hidx hi' hp hb ih =>
    have hb' : before (f data[idx]) (f data[(idx - 1) / 2]) = true := by
      rw [← hagree _ (Array.getElem_mem hp)]
      exact hb
    rw [bubbleUp, bubbleUp]
    simp only [hidx, and_self, dite_true, hb, ite_true, Array.size_map, Array.getElem_map, hb']
    rw [← map_swap f hi' hp]
    refine ih (by simpa using hp) fun p hmem => ?_
    rw [Array.getElem_swap_right]
    exact hagree p ((Array.swap_perm hi' hp).mem_iff.1 hmem)
  | case2 data idx hidx hi' hp hb =>
    have hb' : before (f data[idx]) (f data[(idx - 1) / 2]) = false := by
      rw [← hagree _ (Array.getElem_mem hp)]
      simpa using hb
    rw [bubbleUp, bubbleUp]
    simp only [hidx, and_self, dite_true, hb, Bool.false_eq_true, ite_false, Array.size_map, Array.getElem_map, hb']
  | case3 data idx hidx =>
    rw [bubbleUp, bubbleUp]
    simp only [hidx, dite_false, Array.size_map]

end Map

/-! ### Stamps -/

/-- By key, and by stamp among the elements with the key `k`. -/
private def stampKey (key : α → κ) (k : κ) (p : α × ℕ) : κ ×ₗ ℕ := toLex (key p.1, if key p.1 = k then p.2 else 0)

private def stampBefore (key : α → κ) (k : κ) (p q : α × ℕ) : Bool := stampKey key k p < stampKey key k q

private theorem keyedBy_stamp (k : κ) : KeyedBy (stampBefore key k) (stampKey key k) := fun _ _ => decide_eq_true_iff

/-- The heap holds the elements of `w`, and with stamps in the order of `w` it is in order by key and stamp. -/
private structure Stamped (key : α → κ) (k : κ) (h : BinaryHeap before) (w : List α) (data : Array (α × ℕ))
    (l : List (α × ℕ)) : Prop where
  data_eq : data.map Prod.fst = h.data
  perm : data.toList.Perm l
  stamps : l.Pairwise fun p q => p.2 < q.2
  waiting_eq : l.map Prod.fst = w
  inOrder : InOrder (keyAt (stampKey key k) data)

private theorem Stamped.push {k : κ} (hkey : KeyedBy before key) {h : BinaryHeap before} {w : List α}
    {data : Array (α × ℕ)} {l : List (α × ℕ)} (hs : Stamped key k h w data l) (x : α) :
    ∃ data' l', Stamped key k (h.push x) (w ++ [x]) data' l' := by
  -- a stamp after all others
  obtain ⟨n, hn⟩ : ∃ n, ∀ p ∈ l, p.2 < n := by
    refine ⟨(l.map Prod.snd).foldr max 0 + 1, fun p hp => Nat.lt_succ_of_le ?_⟩
    exact List.le_max_of_le' 0 (List.mem_map_of_mem hp) (le_refl _)
  have hsize : data.size = h.data.size := by rw [← hs.data_eq, Array.size_map]
  have hagree : ∀ p ∈ data.push (x, n), stampBefore key k (data.push (x, n))[data.size] p =
      before ((data.push (x, n))[data.size]).1 p.1 := by
    intro p hp
    have hle : p.2 ≤ n := by
      rcases Array.mem_push.1 hp with hp | rfl
      · exact (hn p (hs.perm.mem_iff.1 (Array.mem_toList_iff.2 hp))).le
      · exact le_refl _
    rw [Array.getElem_push_eq, Bool.eq_iff_iff, keyedBy_stamp, hkey, stampKey, stampKey, Prod.Lex.toLex_lt_toLex]
    -- where the keys are equal, the new element has the later stamp
    refine ⟨fun h => h.resolve_right ?_, Or.inl⟩
    rintro ⟨heq, hlt⟩
    dsimp only at heq hlt
    rw [heq] at hlt
    split at hlt
    · exact absurd hlt (not_lt.2 hle)
    · exact absurd hlt (lt_irrefl 0)
  let hp : BinaryHeap (stampBefore key k) := BinaryHeap.push ⟨data⟩ (x, n)
  refine ⟨hp.data, l ++ [(x, n)], ?_, ?_, ?_, ?_, ?_⟩
  · show (bubbleUp (stampBefore key k) (data.push (x, n)) data.size).map Prod.fst = bubbleUp before (h.data.push x) _
    rw [bubbleUp_map (by simp) hagree, Array.map_push, hs.data_eq, hsize]
  · have hperm : hp.toList.Perm ((x, n) :: data.toList) := toList_push _ _
    exact hperm.trans ((hs.perm.cons _).trans (List.perm_append_singleton _ _).symm)
  · rw [List.pairwise_append]
    refine ⟨hs.stamps, List.pairwise_singleton _ _, fun p hp q hq => ?_⟩
    rw [List.mem_singleton.1 hq]
    exact hn p hp
  · rw [List.map_append, hs.waiting_eq]
    rfl
  · exact ordered_push (keyedBy_stamp k) (h := ⟨data⟩) hs.inOrder (x, n)

private theorem Stamped.pushAll {k : κ} (hkey : KeyedBy before key) {h : BinaryHeap before} {w : List α}
    {data : Array (α × ℕ)} {l : List (α × ℕ)} (hs : Stamped key k h w data l) (xs : List α) :
    ∃ data' l', Stamped key k (h.pushAll xs) (w ++ xs) data' l' := by
  induction xs generalizing h w data l with
  | nil => exact ⟨data, l, by rwa [List.append_nil]⟩
  | cons x xs ih =>
    obtain ⟨data', l', hs'⟩ := hs.push hkey x
    rw [List.append_cons]
    exact ih hs'

/-- If the top has the key `k`, it is the first that has it. -/
private theorem Stamped.top {h : BinaryHeap before} {w : List α} {data : Array (α × ℕ)} {l : List (α × ℕ)} {x : α}
    (hs : Stamped key (key x) h w data l) (htop : h.top = some x) : w.find? (fun y => key y = key x) = some x := by
  rw [BinaryHeap.top, ← hs.data_eq, Array.getElem?_map, Option.map_eq_some_iff] at htop
  obtain ⟨⟨x', t⟩, ht, hx⟩ := htop
  obtain rfl : x' = x := hx
  have ht' : (⟨data⟩ : BinaryHeap (stampBefore key (key x'))).top = some (x', t) := ht
  obtain ⟨l₁, l₂, hl⟩ := List.append_of_mem (hs.perm.mem_iff.1 (top_mem ht'))
  have hfirst : ∀ p ∈ l₁, key p.1 ≠ key x' := by
    intro p hp he
    -- an earlier one with the same key would be smaller than the top
    have hle := top_le (h := ⟨data⟩) hs.inOrder ht' p (hs.perm.mem_iff.2 (by rw [hl]; simp [hp]))
    have hlt : p.2 < t := by
      have hst := hs.stamps
      rw [hl] at hst
      exact (List.pairwise_append.1 hst).2.2 p hp (x', t) (by simp)
    rw [stampKey, stampKey, Prod.Lex.toLex_le_toLex, he, if_pos rfl, if_pos rfl] at hle
    rcases hle with h' | h'
    · exact lt_irrefl _ h'
    · exact absurd hlt (not_lt.2 h'.2)
  rw [← hs.waiting_eq, hl, List.map_append, List.find?_append, List.find?_eq_none.2]
  · simp
  · intro z hz
    obtain ⟨p, hp, rfl⟩ := List.mem_map.1 hz
    simpa using hfirst p hp

/-- What a filter keeps at most once stands at one place only. -/
private theorem eq_of_length_filter_le {β : Type} {p : β → Bool} {l : List β} (hl : (l.filter p).length ≤ 1) {i j : ℕ}
    (hi : i < l.length) (hj : j < l.length) (hpi : p l[i] = true) (hpj : p l[j] = true) : i = j := by
  induction l generalizing i j with
  | nil => exact absurd hi (Nat.not_lt_zero i)
  | cons x l ih =>
    have hhead : p x = true → ∀ n (hn : n < l.length), p l[n] ≠ true := by
      intro hpx n hn hpn
      have hpos := List.length_pos_of_mem (List.mem_filter.2 ⟨List.getElem_mem hn, hpn⟩)
      rw [List.filter_cons_of_pos hpx, List.length_cons] at hl
      omega
    have htail : (l.filter p).length ≤ 1 := ((List.sublist_cons_self x l).filter p).length_le.trans hl
    rw [List.length_cons] at hi hj
    cases i with
    | zero =>
      cases j with
      | zero => rfl
      | succ j => exact absurd hpj (hhead hpi j (Nat.lt_of_succ_lt_succ hj))
    | succ i =>
      cases j with
      | zero => exact absurd hpi (hhead hpj i (Nat.lt_of_succ_lt_succ hi))
      | succ j => exact congrArg Nat.succ (ih htail (Nat.lt_of_succ_lt_succ hi) (Nat.lt_of_succ_lt_succ hj) hpi hpj)

/-- In a heap with at most one element of the key `k` no stamp matters. -/
private theorem exists_stamped {k : κ} {h : BinaryHeap before} {w : List α} (ho : Ordered key h)
    (hperm : h.toList.Perm w)
    (hone : (w.filter fun x => key x = k).length ≤ 1) : ∃ data l, Stamped key k h w data l := by
  have hfst : w.zipIdx.map Prod.fst = w := List.zipIdx_map_fst 0 w
  -- the stamped elements of `w`, in the order of the array
  obtain ⟨d, hd, hdw⟩ : ∃ d : List (α × ℕ), d.map Prod.fst = h.toList ∧ d.Perm w.zipIdx := by
    have hw : List.Forall₂ (fun x (p : α × ℕ) => p.1 = x) w w.zipIdx := by
      conv => arg 2; rw [← hfst]
      exact List.forall₂_map_left_iff.2 (List.forall₂_same.2 fun _ _ => rfl)
    obtain ⟨d, hd, hdw⟩ := List.perm_comp_forall₂ hperm hw
    refine ⟨d, ?_, hdw⟩
    rw [← List.forall₂_eq_eq_eq, List.forall₂_map_left_iff]
    exact hd.flip
  have hone' : (d.filter fun p => key p.1 = k).length ≤ 1 := by
    rw [(hdw.filter _).length_eq]
    rw [← hfst, List.filter_map, List.length_map] at hone
    exact hone
  have hdata : d.toArray.map Prod.fst = h.data := by
    rw [List.map_toArray, hd]
    rfl
  refine ⟨d.toArray, w.zipIdx, hdata, hdw, ?_, hfst, fun i hi => ?_⟩
  · rw [← List.pairwise_map, List.zipIdx_map_snd]
    exact List.pairwise_lt_range'
  · rcases Nat.lt_or_ge i d.length with hlt | hge
    · have hparent : (i - 1) / 2 < d.length := by omega
      have hle := ho i hi
      rw [← hdata, keyAt_of_lt (by simpa using hparent), keyAt_of_lt (by simpa using hlt), WithTop.coe_le_coe,
        Array.getElem_map, Array.getElem_map, List.getElem_toArray, List.getElem_toArray] at hle
      rw [keyAt_of_lt (by simpa using hparent), keyAt_of_lt (by simpa using hlt), WithTop.coe_le_coe,
        List.getElem_toArray, List.getElem_toArray, stampKey, stampKey, Prod.Lex.toLex_le_toLex]
      refine hle.lt_or_eq.imp_right fun heq => ⟨heq, ?_⟩
      -- a parent and a child cannot both have the key `k`
      have hne : key d[i].1 ≠ k := by
        intro hk
        have := eq_of_length_filter_le hone' hparent hlt (decide_eq_true (heq.trans hk)) (decide_eq_true hk)
        omega
      dsimp only
      rw [if_neg fun hk => hne (heq.symm.trans hk), if_neg hne]
    · rw [keyAt_of_le (i := i) (by simpa using hge)]
      exact le_top

/-! ### The first of its key -/

/-- A heap holds what is waiting. -/
theorem History.perm [DecidableEq α] {h : BinaryHeap before} {ops : List (Op α)} (hist : History h ops) :
    h.toList.Perm (waiting ops) := by
  induction hist with
  | empty => exact List.Perm.refl _
  | push x _ ih =>
    rw [waiting_add]
    exact (toList_push _ x).trans ((ih.cons x).trans (List.perm_append_singleton _ _).symm)
  | @pop h ops x _ htop ih =>
    rw [waiting_serve]
    have hpop := (toList_pop htop).erase x
    rw [List.erase_cons_head] at hpop
    exact hpop.symm.trans (ih.erase x)

/-- Since the last element went out, others have only come in. -/
theorem History.since_serve [DecidableEq α] (hkey : KeyedBy before key) {h : BinaryHeap before} {ops : List (Op α)}
    (hist : History h ops) :
    ∃ (h₀ : BinaryHeap before) (l : List α), Ordered key h₀ ∧ h₀.toList.Perm (leftByServe ops) ∧ h = h₀.pushAll l ∧
      waiting ops = leftByServe ops ++ l := by
  induction hist with
  | empty => exact ⟨BinaryHeap.empty, [], ordered_empty, List.Perm.refl _, rfl, rfl⟩
  | push x _ ih =>
    obtain ⟨h₀, l, ho, hperm, hpush, hwaiting⟩ := ih
    refine ⟨h₀, l ++ [x], ho, ?_, ?_, ?_⟩
    · rwa [leftByServe_add]
    · rw [pushAll_concat, hpush]
    · rw [waiting_add, leftByServe_add, hwaiting, List.append_assoc]
  | @pop h ops x hist htop _ =>
    refine ⟨h.pop, [], ordered_pop hkey (hist.ordered hkey), ?_, rfl, ?_⟩
    · rw [leftByServe_serve, ← waiting_serve]
      exact (hist.pop htop).perm
    · rw [leftByServe_serve, waiting_serve, List.append_nil]

/-- If the last element that went out has left at most one with the key of the top behind, the top is the first that
came in of those with its key. -/
theorem History.find?_top [DecidableEq α] (hkey : KeyedBy before key) {h : BinaryHeap before} {ops : List (Op α)}
    (hist : History h ops) {x : α} (htop : h.top = some x)
    (hone : ((leftByServe ops).filter fun y => key y = key x).length ≤ 1) :
    (waiting ops).find? (fun y => key y = key x) = some x := by
  obtain ⟨h₀, l, ho, hperm, rfl, hwaiting⟩ := hist.since_serve hkey
  obtain ⟨data, l₀, hs⟩ := exists_stamped ho hperm hone
  obtain ⟨data', l', hs'⟩ := hs.pushAll hkey l
  rw [hwaiting]
  exact hs'.top htop

end BinaryHeap
