import Mathlib

/-!
# Pointers into a growing vector

A `std::vector` of values whose contents lie either within the object, as those of a short `std::string`, or in memory
of their own.  When the vector outgrows its memory the elements move: pointers to contents within the objects dangle,
pointers to memory of their own stay.  A pointer to the contents of the `i`-th of `n` stored values can be read in the
end if the contents have memory of their own, or the vector had room for all `n` once it held the value
(`read_storeAll`).
-/

namespace QuantForge

/-- What the standard library leaves to its implementation: which values keep their contents within the object, and
how much room a full vector takes. -/
structure Allocator (α : Type) where
  inPlace : α → Bool
  grow : ℕ → ℕ
  lt_grow : ∀ n, n < grow n

/-- The GNU library: strings of up to fifteen bytes lie within the object, vectors double. -/
def gnuAllocator {α : Type} (byteLength : α → ℕ) : Allocator α where
  inPlace x := byteLength x ≤ 15
  grow n := max 1 (2 * n)
  lt_grow n := by omega

/-- A pointer to the contents of a value: at an index of a block of elements, or to an allocation of its own. -/
inductive Pointer
  | inBlock (block index : ℕ)
  | own (allocation : ℕ)
  deriving DecidableEq

/-- A vector whose elements are paired with the number of the allocation of their contents.  Allocations are numbered
from one on; `block` is the one that holds the elements. -/
structure GrowingVector (α : Type) where
  items : List (α × ℕ) := []
  capacity : ℕ := 0
  block : ℕ := 0
  allocated : ℕ := 0
  block_le : block ≤ allocated := by decide
  items_le : ∀ e ∈ items, e.2 ≤ allocated := by decide
  items_nodup : (items.map Prod.snd).Nodup := by decide

namespace GrowingVector

variable {α : Type}

theorem items_le_nil (n : ℕ) : ∀ e ∈ ([] : List (α × ℕ)), e.2 ≤ n := fun _ h => absurd h List.not_mem_nil

/-- A new vector. -/
def empty : GrowingVector α := { items_le := items_le_nil 0, items_nodup := List.nodup_nil }

/-- `clear()`: the elements are destroyed, their memory is kept. -/
def clear (v : GrowingVector α) : GrowingVector α :=
  { v with items := [], items_le := items_le_nil v.allocated, items_nodup := List.nodup_nil }

theorem nodup_concat {v : GrowingVector α} {x : α} {n : ℕ} (hn : v.allocated < n) :
    ((v.items ++ [(x, n)]).map Prod.snd).Nodup := by
  rw [List.map_append, List.nodup_append]
  refine ⟨v.items_nodup, List.nodup_singleton _, fun a ha b hb => ?_⟩
  obtain ⟨e, he, rfl⟩ := List.mem_map.1 ha
  have hle := v.items_le e he
  rw [List.map_singleton, List.mem_singleton] at hb
  omega

theorem le_concat {v : GrowingVector α} {x : α} {n : ℕ} (hn : v.allocated < n) :
    ∀ e ∈ v.items ++ [(x, n)], e.2 ≤ n := by
  intro e he
  rcases List.mem_append.1 he with he | he
  · exact (v.items_le e he).trans hn.le
  · rw [List.mem_singleton.1 he]

variable (A : Allocator α)

/-- `push_back` and `emplace_back`: a full vector moves to a larger block first. -/
def push (v : GrowingVector α) (x : α) : GrowingVector α :=
  if v.items.length < v.capacity then
    { v with
      items := v.items ++ [(x, v.allocated + 1)]
      allocated := v.allocated + 1
      block_le := v.block_le.trans (Nat.le_succ _)
      items_le := le_concat (Nat.lt_succ_self _)
      items_nodup := nodup_concat (Nat.lt_succ_self _) }
  else
    { items := v.items ++ [(x, v.allocated + 2)]
      capacity := A.grow v.capacity
      block := v.allocated + 1
      allocated := v.allocated + 2
      block_le := Nat.le_succ _
      items_le := le_concat (by omega)
      items_nodup := nodup_concat (by omega) }

/-- `push_back` followed by `back().c_str()`. -/
def store (v : GrowingVector α) (x : α) : Pointer × GrowingVector α :=
  (if A.inPlace x then .inBlock (v.push A x).block v.items.length else .own (v.push A x).allocated, v.push A x)

/-- What a pointer points to, unless the memory is released or taken by something else. -/
def read (v : GrowingVector α) : Pointer → Option α
  | .inBlock b i => if b = v.block then ((v.items[i]?).map Prod.fst).filter A.inPlace else none
  | .own n => (v.items.find? fun e => e.2 = n).map Prod.fst

theorem read_inBlock (v : GrowingVector α) (b i : ℕ) :
    v.read A (.inBlock b i) = if b = v.block then ((v.items[i]?).map Prod.fst).filter A.inPlace else none := rfl

theorem read_own (v : GrowingVector α) (n : ℕ) :
    v.read A (.own n) = (v.items.find? fun e => e.2 = n).map Prod.fst := rfl

/-- Storing values one after the other. -/
def storeAll : GrowingVector α → List α → List Pointer × GrowingVector α
  | v, [] => ([], v)
  | v, x :: xs => (((v.store A x).1 :: ((v.store A x).2.storeAll xs).1), ((v.store A x).2.storeAll xs).2)

theorem storeAll_append (v : GrowingVector α) (xs ys : List α) :
    v.storeAll A (xs ++ ys) =
      ((v.storeAll A xs).1 ++ ((v.storeAll A xs).2.storeAll A ys).1, ((v.storeAll A xs).2.storeAll A ys).2) := by
  induction xs generalizing v with
  | nil => simp [storeAll]
  | cons x xs ih => simp [storeAll, ih]

/-! ### Room -/

/-- The capacity once `n` values are stored in an empty vector of capacity `c`. -/
def room (c : ℕ) : ℕ → ℕ
  | 0 => c
  | n + 1 => if n < room c n then room c n else A.grow (room c n)

theorem le_room (c n : ℕ) : n ≤ room A c n := by
  induction n with
  | zero => exact Nat.zero_le _
  | succ n ih =>
    unfold room
    split
    · assumption
    · exact (Nat.succ_le_succ ih).trans (A.lt_grow _)

theorem room_le_succ (c n : ℕ) : room A c n ≤ room A c (n + 1) := by
  rw [room]
  split
  · exact le_refl _
  · exact (A.lt_grow _).le

theorem room_mono (c : ℕ) : Monotone (room A c) := monotone_nat_of_le_succ (room_le_succ A c)

/-- The vector does not grow as long as there is room. -/
theorem room_eq_of_le {c m n : ℕ} (hmn : m ≤ n) (hn : n ≤ room A c m) : room A c n = room A c m := by
  induction n, hmn using Nat.le_induction with
  | base => rfl
  | succ n _ ih =>
    have hn' := ih (Nat.le_of_succ_le hn)
    rw [room, if_pos (by omega), hn']

theorem room_eq_iff {c m n : ℕ} (hmn : m ≤ n) : room A c n = room A c m ↔ n ≤ room A c m :=
  ⟨fun h => h ▸ le_room A c n, room_eq_of_le A hmn⟩

theorem le_room_self (c n : ℕ) : c ≤ room A c n := room_mono A c (Nat.zero_le n)

/-- Where the room doubles, a capacity stays zero or a power of two, below any that bounds the number of values, and
grows in size whenever it changes. -/
theorem room_doubling (hgrow : ∀ n, A.grow n = max 1 (2 * n)) {c k n : ℕ} (hn : n ≤ 2 ^ k)
    (hc : c = 0 ∨ ∃ j ≤ k, c = 2 ^ j) :
    (room A c n = c ∨ Nat.size c < Nat.size (room A c n)) ∧
      (room A c n = 0 ∨ ∃ j ≤ k, room A c n = 2 ^ j) := by
  induction n with
  | zero => exact ⟨Or.inl rfl, hc⟩
  | succ n ih =>
    obtain ⟨hsize, hpow⟩ := ih (Nat.le_of_succ_le hn)
    rw [room]
    split
    · exact ⟨hsize, hpow⟩
    · rename_i hfull
      have hgrown : Nat.size (room A c n) < Nat.size (A.grow (room A c n)) ∧
          ∃ j ≤ k, A.grow (room A c n) = 2 ^ j := by
        rw [hgrow]
        rcases hpow with h0 | ⟨j, hj, h2⟩
        · rw [h0]
          exact ⟨by decide, 0, Nat.zero_le k, rfl⟩
        · have hpos : 0 < 2 ^ j := Nat.two_pow_pos j
          have hlt : j < k := by
            refine (Nat.pow_lt_pow_iff_right (by decide : 1 < 2)).1 ?_
            omega
          have hmax : max 1 (2 * 2 ^ j) = 2 ^ (j + 1) := by
            rw [Nat.pow_succ]
            omega
          rw [h2, hmax, Nat.size_pow, Nat.size_pow]
          exact ⟨Nat.lt_succ_self _, j + 1, hlt, rfl⟩
      refine ⟨Or.inr (lt_of_le_of_lt ?_ hgrown.1), Or.inr hgrown.2⟩
      exact Nat.size_le_size (le_room_self A c n)

/-! ### Reading -/

/-- The vector holds the values, and the pointers are the ones taken as they were stored from capacity `c` on. -/
structure Stored (c : ℕ) (xs : List α) (ps : List Pointer) (v : GrowingVector α) : Prop where
  items : v.items.map Prod.fst = xs
  capacity : v.capacity = room A c xs.length
  length : ps.length = xs.length
  inPlace : ∀ (i : ℕ) (x : α), xs[i]? = some x → A.inPlace x = true →
    ∃ b, ps[i]? = some (.inBlock b i) ∧ b ≤ v.allocated ∧
    (b = v.block ↔ room A c xs.length = room A c (i + 1))
  own : ∀ (i : ℕ) (x : α), xs[i]? = some x → A.inPlace x = false →
    ∃ n, ps[i]? = some (Pointer.own n) ∧ v.items[i]? = some (x, n)

variable {A}

theorem Stored.empty {v : GrowingVector α} (hv : v.items = []) : Stored A v.capacity [] [] v :=
  ⟨by rw [hv]; rfl, rfl, rfl, fun _ _ h => by simp at h, fun _ _ h => by simp at h⟩

theorem Stored.length_items {c : ℕ} {xs : List α} {ps : List Pointer} {v : GrowingVector α} (h : Stored A c xs ps v) :
    v.items.length = xs.length := by
  rw [← h.items, List.length_map]

theorem getElem?_concat {β : Type} {l : List β} {x y : β} {i : ℕ} :
    (l ++ [x])[i]? = some y ↔ l[i]? = some y ∨ i = l.length ∧ x = y := by
  rw [List.getElem?_append]
  by_cases hi : i < l.length
  · simp [hi]
    omega
  · rw [if_neg hi, List.getElem?_eq_none (Nat.le_of_not_lt hi), List.getElem?_singleton]
    by_cases h0 : i - l.length = 0
    · simp [h0]
      omega
    · simp [h0]
      omega

/-- Pushing keeps the elements and, unless the vector is full, the block. -/
theorem push_cases (v : GrowingVector α) (x : α) :
    (∃ n, v.allocated < n ∧ (v.push A x).items = v.items ++ [(x, n)] ∧ (v.push A x).allocated = n) ∧
      (v.items.length < v.capacity ∧ (v.push A x).block = v.block ∧ (v.push A x).capacity = v.capacity ∨
        v.capacity ≤ v.items.length ∧ v.allocated < (v.push A x).block ∧
          (v.push A x).capacity = A.grow v.capacity) := by
  unfold push
  split
  · exact ⟨⟨_, Nat.lt_succ_self _, rfl, rfl⟩, Or.inl ⟨‹_›, rfl, rfl⟩⟩
  · exact ⟨⟨_, by simp, rfl, rfl⟩, Or.inr ⟨by omega, Nat.lt_succ_self _, rfl⟩⟩

theorem Stored.store {c : ℕ} {xs : List α} {ps : List Pointer} {v : GrowingVector α}
    (h : Stored A c xs ps v) (x : α) :
    Stored A c (xs ++ [x]) (ps ++ [(v.store A x).1]) (v.store A x).2 := by
  obtain ⟨⟨n, hn, hitems, hallocated⟩, hblock⟩ := push_cases (A := A) v x
  have hlen := h.length_items
  have hcapacity : (v.push A x).capacity = room A c (xs.length + 1) := by
    rw [room, ← h.capacity, ← hlen]
    rcases hblock with ⟨hlt, -, hc⟩ | ⟨hle, -, hc⟩
    · rw [if_pos hlt, hc]
    · rw [if_neg (by omega), hc]
  refine ⟨?_, ?_, ?_, fun i y hi hy => ?_, fun i y hi hy => ?_⟩
  · rw [GrowingVector.store, hitems, List.map_append, h.items]
    rfl
  · rw [List.length_append, List.length_singleton, ← hcapacity]
    rfl
  · simp [h.length]
  · rw [List.length_append, List.length_singleton, ← hcapacity]
    rcases getElem?_concat.1 hi with hi | ⟨rfl, rfl⟩
    · obtain ⟨b, hb, hle, heq⟩ := h.inPlace i y hi hy
      have hlt : i < xs.length := (List.getElem?_eq_some_iff.1 hi).1
      refine ⟨b, getElem?_concat.2 (Or.inl hb), hle.trans (hallocated ▸ hn.le), ?_⟩
      -- a pointer that dangles stays so, one that does not dangles when the block is a new one
      show b = (v.push A x).block ↔ _
      rcases hblock with ⟨-, hsame, hc⟩ | ⟨hfull, hnew, hc⟩
      · rw [hsame, heq, hc, h.capacity]
      · have hgrown := A.lt_grow v.capacity
        have hroom : room A c (i + 1) ≤ v.capacity := h.capacity ▸ room_mono A c (Nat.succ_le_of_lt hlt)
        constructor <;> intro heq' <;> omega
    · refine ⟨(v.push A x).block, getElem?_concat.2 (Or.inr ⟨h.length.symm, ?_⟩), (v.push A x).block_le,
        iff_of_true rfl hcapacity⟩
      rw [GrowingVector.store, if_pos hy, hlen]
  · show ∃ n, (ps ++ [(v.store A x).1])[i]? = some (Pointer.own n) ∧ (v.push A x).items[i]? = some (y, n)
    rw [hitems]
    rcases getElem?_concat.1 hi with hi | ⟨rfl, rfl⟩
    · obtain ⟨m, hm, hmem⟩ := h.own i y hi hy
      exact ⟨m, getElem?_concat.2 (Or.inl hm), getElem?_concat.2 (Or.inl hmem)⟩
    · refine ⟨n, getElem?_concat.2 (Or.inr ⟨h.length.symm, ?_⟩), getElem?_concat.2 (Or.inr ⟨hlen.symm, rfl⟩)⟩
      rw [GrowingVector.store, if_neg (by simp [hy]), hallocated]

/-- Storing values in an empty vector. -/
theorem stored_storeAll {v : GrowingVector α} (hv : v.items = []) (xs : List α) :
    Stored A v.capacity xs (v.storeAll A xs).1 (v.storeAll A xs).2 := by
  induction xs using List.reverseRecOn with
  | nil => exact Stored.empty hv
  | append_singleton xs x ih =>
    rw [storeAll_append]
    exact ih.store x

theorem Stored.read {c : ℕ} {xs : List α} {ps : List Pointer} {v : GrowingVector α} (h : Stored A c xs ps v) {i : ℕ}
    {x : α} (hi : xs[i]? = some x) :
    ∃ p, ps[i]? = some p ∧
      v.read A p = if A.inPlace x = true ∧ room A c (i + 1) < xs.length then none else some x := by
  have hlt : i < xs.length := (List.getElem?_eq_some_iff.1 hi).1
  by_cases hx : A.inPlace x = true
  · obtain ⟨b, hb, -, heq⟩ := h.inPlace i x hi hx
    have hitem : (v.items[i]?).map Prod.fst = some x := by rw [← List.getElem?_map, h.items, hi]
    refine ⟨_, hb, ?_⟩
    rw [room_eq_iff A (Nat.succ_le_of_lt hlt)] at heq
    by_cases hroom : xs.length ≤ room A c (i + 1)
    · rw [read_inBlock, if_pos (heq.2 hroom), hitem, if_neg (by omega)]
      simp [hx]
    · rw [read_inBlock, if_neg fun hb => hroom (heq.1 hb), if_pos ⟨hx, by omega⟩]
  · obtain ⟨n, hn, hitem⟩ := h.own i x hi (by simpa using hx)
    refine ⟨_, hn, ?_⟩
    rw [if_neg fun hc => hx hc.1, read_own]
    have hfind : v.items.find? (fun e => e.2 = n) = some (x, n) := by
      obtain ⟨hi', hget⟩ := List.getElem?_eq_some_iff.1 hitem
      refine List.find?_eq_some_iff_getElem.2 ⟨by simp, i, hi', hget, fun j hj => ?_⟩
      have hne := List.nodup_iff_injective_get.1 v.items_nodup
      simp only [Bool.not_eq_eq_eq_not, Bool.not_true, decide_eq_false_iff_not]
      intro heq
      have := @hne ⟨j, by simp; omega⟩ ⟨i, by simpa using hi'⟩ (by simp [hget, heq])
      simp at this
      omega
    rw [hfind]
    rfl

/-- Which of the values stored in an empty vector can be read in the end. -/
theorem read_storeAll {v : GrowingVector α} (hv : v.items = []) {xs : List α} {i : ℕ} {x : α} (hi : xs[i]? = some x) :
    ∃ p, (v.storeAll A xs).1[i]? = some p ∧ (v.storeAll A xs).2.read A p =
      if A.inPlace x = true ∧ room A v.capacity (i + 1) < xs.length then none else some x :=
  (stored_storeAll hv xs).read hi

/-- The values that can all be read through the pointers taken as they are stored in a vector of capacity `c`: no
contents within an object that moves later. -/
def Readable (A : Allocator α) (c : ℕ) (xs : List α) : Prop :=
  ∀ i x, xs[i]? = some x → A.inPlace x = true → xs.length ≤ room A c (i + 1)

/-- All can be read again, whatever the reader makes of them, exactly when none of them has moved. -/
theorem map_read_storeAll {β : Type} (f : α → β) {v : GrowingVector α} (hv : v.items = []) (xs : List α) :
    ((v.storeAll A xs).1.map fun p => ((v.storeAll A xs).2.read A p).map f) = xs.map (fun x => some (f x)) ↔
      Readable A v.capacity xs := by
  have hread := fun i x (hi : xs[i]? = some x) => read_storeAll (A := A) hv hi
  constructor
  · intro heq i x hi hx
    obtain ⟨p, hp, hr⟩ := hread i x hi
    have hget := congrArg (fun l => l[i]?) heq
    simp only [List.getElem?_map, hp, hi, Option.map_some, hr] at hget
    by_contra hroom
    rw [if_pos ⟨hx, by omega⟩] at hget
    exact absurd (Option.some.inj hget) (by simp)
  · intro hall
    refine List.ext_getElem? fun i => ?_
    rw [List.getElem?_map, List.getElem?_map]
    rcases hi : xs[i]? with _ | x
    · have hlen := (stored_storeAll (A := A) hv xs).length
      rw [List.getElem?_eq_none (hlen ▸ List.getElem?_eq_none_iff.1 hi)]
      rfl
    · obtain ⟨p, hp, hr⟩ := hread i x hi
      rw [hp, Option.map_some, hr, if_neg fun hc => absurd (hall i x hi hc.1) (by omega)]
      rfl

/-- The capacity once the values are stored. -/
theorem capacity_storeAll {v : GrowingVector α} (hv : v.items = []) (xs : List α) :
    (v.storeAll A xs).2.capacity = room A v.capacity xs.length :=
  (stored_storeAll hv xs).capacity

end GrowingVector

end QuantForge
