import Mathlib.Algebra.Order.Group.Defs
import Mathlib.Algebra.BigOperators.Group.List.Basic
import Mathlib.Algebra.Order.Group.Unbundled.Abs
import Mathlib.Algebra.Order.BigOperators.Group.List
import Mathlib.Tactic.Abel
import Mathlib.Tactic.Linarith

/-!
# Queues of lots closed first in, first out

A lot is a name with a quantity.  `takes ε lots x` are the lots that closing `x` touches, oldest first, each with its
quantity and the amount taken from it; the walk stops when at most `ε` is left to close, and `drop ε lots x` are the
lots left over, where a lot of at most `ε` is gone.  `consume` is the exact version without a cut-off, and
`Queue.push` the reference queue with a side: a lot on the side of the queue is appended, a lot on the other side
consumes lots from the front and what exceeds them starts a queue on its own side.

On quantities without values in `(0, ε]`, the walk with the cut-off is the exact one (`drop_eq_consume`).
-/

namespace Fifo

variable {ι α σ : Type} [AddCommGroup α] [LinearOrder α]

/-- The lots touched by closing `x`: name, quantity, amount taken. -/
def takes (ε : α) : List (ι × α) → α → List (ι × α × α)
  | [], _ => []
  | (i, a) :: lots, x => if x ≤ ε then [] else (i, a, min a x) :: takes ε lots (x - min a x)

/-- The lots left after closing `x`. -/
def drop (ε : α) : List (ι × α) → α → List (ι × α)
  | [], _ => []
  | (i, a) :: lots, x =>
    if x ≤ ε then (i, a) :: lots
    else (if a - min a x ≤ ε then [] else [(i, a - min a x)]) ++ drop ε lots (x - min a x)

/-- The lots left after closing exactly `x`, and what is left of `x` when the lots are used up. -/
def consume : List (ι × α) → α → List (ι × α) × α
  | [], x => ([], x)
  | (i, a) :: lots, x => if x < a then ((i, a - x) :: lots, 0) else consume lots (x - a)

/-- Closing at most `ε` touches no lot. -/
theorem takes_of_le {ε x : α} (h : x ≤ ε) (lots : List (ι × α)) : takes ε lots x = [] := by
  cases lots with
  | nil => rfl
  | cons l lots => simp [takes, h]

theorem drop_of_le {ε x : α} (h : x ≤ ε) (lots : List (ι × α)) : drop ε lots x = lots := by
  cases lots with
  | nil => rfl
  | cons l lots => simp [drop, h]

/-- The quantity of a list of lots. -/
def total (lots : List (ι × α)) : α := (lots.map Prod.snd).sum

omit [LinearOrder α] in
@[simp] theorem total_nil : total ([] : List (ι × α)) = 0 := rfl

omit [LinearOrder α] in
@[simp] theorem total_cons (l : ι × α) (lots : List (ι × α)) : total (l :: lots) = l.2 + total lots := by
  simp [total]

omit [LinearOrder α] in
@[simp] theorem total_append (l₁ l₂ : List (ι × α)) : total (l₁ ++ l₂) = total l₁ + total l₂ := by
  simp [total]

/-! ### The reference queue -/

/-- A queue of lots, all on one side. -/
structure Queue (σ ι α : Type) where
  side : σ
  lots : List (ι × α)

namespace Queue

/-- The lots of a queue if it is on the given side. -/
def on [DecidableEq σ] (q : Queue σ ι α) (side : σ) : List (ι × α) := if q.side = side then q.lots else []

/-- Add a lot on a side. -/
def push [DecidableEq σ] (q : Queue σ ι α) (side : σ) (i : ι) (x : α) : Queue σ ι α :=
  if q.side = side ∨ q.lots = [] then ⟨side, q.on side ++ [(i, x)]⟩
  else
    let rest := consume q.lots x
    if rest.2 > 0 then ⟨side, [(i, rest.2)]⟩ else ⟨q.side, rest.1⟩

end Queue

/-! ### Walking exactly -/

theorem consume_mem {P : α → Prop} (hsub : ∀ x y, P x → P y → P (x - y)) {lots : List (ι × α)}
    (h : ∀ l ∈ lots, P l.2) {x : α} (hx : P x) : ∀ l ∈ (consume lots x).1, P l.2 := by
  induction lots generalizing x with
  | nil => simp [consume]
  | cons l lots ih =>
    obtain ⟨i, a⟩ := l
    unfold consume
    by_cases hxa : x < a
    · simp only [hxa, if_true]
      intro l hl
      rcases List.mem_cons.1 hl with rfl | hl
      · exact hsub a x (h (i, a) (by simp)) hx
      · exact h l (by simp [hl])
    · simp only [hxa, if_false]
      exact ih (fun m hm => h m (by simp [hm])) (hsub x a hx (h (i, a) (by simp)))

/-- The lots touched are lots of the queue. -/
theorem takes_sublist (ε : α) (lots : List (ι × α)) (x : α) :
    ((takes ε lots x).map fun t => (t.1, t.2.1)).Sublist lots := by
  induction lots generalizing x with
  | nil => exact List.Sublist.refl _
  | cons l lots ih =>
    obtain ⟨i, a⟩ := l
    unfold takes
    by_cases hx : x ≤ ε
    · simp [hx]
    · simp only [hx, if_false, List.map_cons]
      exact (ih _).cons_cons (i, a)

/-- The names of the lots left are a sublist of the names before. -/
theorem drop_names_sublist (ε : α) (lots : List (ι × α)) (x : α) :
    ((drop ε lots x).map Prod.fst).Sublist (lots.map Prod.fst) := by
  induction lots generalizing x with
  | nil => exact List.Sublist.refl _
  | cons l lots ih =>
    obtain ⟨i, a⟩ := l
    unfold drop
    by_cases hx : x ≤ ε
    · simp [hx]
    · simp only [hx, if_false]
      by_cases ha : a - min a x ≤ ε
      · simp only [ha, if_true, List.nil_append, List.map_cons]
        exact (ih _).cons i
      · simp only [ha, if_false, List.cons_append, List.nil_append, List.map_cons]
        exact (ih _).cons_cons i

/-- Closing more than `ε` changes a nonempty list of lots. -/
theorem drop_ne {ε x : α} (hε : 0 ≤ ε) (hx : ε < x) {lots : List (ι × α)} (hne : lots ≠ []) :
    drop ε lots x ≠ lots := by
  obtain ⟨⟨i, a⟩, lots, rfl⟩ := List.exists_cons_of_ne_nil hne
  intro h
  unfold drop at h
  rw [if_neg (not_le.2 hx)] at h
  by_cases ha : a - min a x ≤ ε
  -- the first lot goes and no other comes in, or it stays with less in it
  · rw [if_pos ha, List.nil_append] at h
    have hlen := (drop_names_sublist ε lots (x - min a x)).length_le
    rw [h] at hlen
    simp at hlen
  · rw [if_neg ha, List.cons_append] at h
    have h0 : min a x = 0 := by simpa using (List.cons.inj h).1
    rcases min_choice a x with hm | hm
    · rw [hm, sub_self] at ha
      exact ha hε
    · exact absurd (hm ▸ h0) (lt_of_le_of_lt hε hx).ne'

section Ordered

variable [IsOrderedAddMonoid α]

theorem total_nonneg {lots : List (ι × α)} (h : ∀ l ∈ lots, 0 ≤ l.2) : 0 ≤ total lots := by
  apply List.sum_nonneg
  intro x hx
  obtain ⟨l, hl, rfl⟩ := List.mem_map.1 hx
  exact h l hl

theorem total_pos {lots : List (ι × α)} (h : ∀ l ∈ lots, 0 < l.2) (hne : lots ≠ []) : 0 < total lots := by
  cases lots with
  | nil => exact absurd rfl hne
  | cons l lots =>
    rw [total_cons]
    exact add_pos_of_pos_of_nonneg (h l (by simp)) (total_nonneg fun m hm => (h m (by simp [hm])).le)

/-- Closing less than everything leaves no excess, closing at least everything leaves no lot. -/
theorem consume_spec {lots : List (ι × α)} (h : ∀ l ∈ lots, 0 < l.2) {x : α} (hx : 0 ≤ x) :
    (x < total lots → (consume lots x).2 = 0 ∧ total (consume lots x).1 = total lots - x) ∧
      (total lots ≤ x → (consume lots x).1 = [] ∧ (consume lots x).2 = x - total lots) := by
  induction lots generalizing x with
  | nil =>
    refine ⟨fun h0 => absurd hx (not_le.2 (by simpa using h0)), fun _ => ?_⟩
    simp [consume]
  | cons l lots ih =>
    obtain ⟨i, a⟩ := l
    have ha : 0 < a := h (i, a) (by simp)
    have ht : 0 ≤ total lots := total_nonneg fun m hm => (h m (by simp [hm])).le
    unfold consume
    by_cases hxa : x < a
    · simp only [hxa, if_true, total_cons]
      refine ⟨fun _ => ⟨trivial, by abel⟩, fun hle => ?_⟩
      exact absurd (lt_of_lt_of_le hxa (le_add_of_nonneg_right ht)) (not_lt.2 hle)
    · simp only [hxa, if_false, total_cons]
      have hxa' : 0 ≤ x - a := sub_nonneg.2 (not_lt.1 hxa)
      obtain ⟨h1, h2⟩ := ih (fun m hm => h m (by simp [hm])) hxa'
      constructor
      · intro hlt
        obtain ⟨e1, e2⟩ := h1 (by rwa [sub_lt_iff_lt_add'])
        exact ⟨e1, by rw [e2]; abel⟩
      · intro hle
        obtain ⟨e1, e2⟩ := h2 (by rwa [le_sub_iff_add_le'])
        exact ⟨e1, by rw [e2]; abel⟩

theorem consume_pos {lots : List (ι × α)} (h : ∀ l ∈ lots, 0 < l.2) {x : α} :
    ∀ l ∈ (consume lots x).1, 0 < l.2 := by
  induction lots generalizing x with
  | nil => simp [consume]
  | cons l lots ih =>
    obtain ⟨i, a⟩ := l
    unfold consume
    by_cases hxa : x < a
    · simp only [hxa, if_true]
      intro l hl
      rcases List.mem_cons.1 hl with rfl | hl
      · exact sub_pos.2 hxa
      · exact h l (by simp [hl])
    · simp only [hxa, if_false]
      exact ih fun m hm => h m (by simp [hm])

namespace Queue

variable [DecidableEq σ] {q : Queue σ ι α} {side : σ}

omit [IsOrderedAddMonoid α] in
/-- A push onto an empty queue or onto the queue's own side. -/
theorem push_same (h : q.side = side ∨ q.lots = []) (i : ι) (x : α) :
    q.push side i x = ⟨side, q.on side ++ [(i, x)]⟩ := if_pos h

/-- A push of less than everything from the other side. -/
theorem push_lt (hs : q.side ≠ side) (h : ∀ l ∈ q.lots, 0 < l.2) (i : ι) {x : α} (hx : 0 ≤ x)
    (hlt : x < total q.lots) :
    q.push side i x = ⟨q.side, (consume q.lots x).1⟩ := by
  have hne : q.lots ≠ [] := by
    intro he
    rw [he, total_nil] at hlt
    exact absurd hx (not_le.2 hlt)
  obtain ⟨hrest, -⟩ := (consume_spec h hx).1 hlt
  simp [push, hs, hne, hrest]

/-- A push of everything or more from the other side. -/
theorem push_ge (hs : q.side ≠ side) (hne : q.lots ≠ []) (h : ∀ l ∈ q.lots, 0 < l.2) (i : ι) {x : α}
    (hle : total q.lots ≤ x) :
    q.push side i x = if x = total q.lots then ⟨q.side, []⟩ else ⟨side, [(i, x - total q.lots)]⟩ := by
  have hx : 0 ≤ x := (total_nonneg fun l hl => (h l hl).le).trans hle
  obtain ⟨hnil, hrest⟩ := (consume_spec h hx).2 hle
  simp only [push, hs, hne, or_self, if_false, hrest, hnil, gt_iff_lt, sub_pos]
  by_cases he : x = total q.lots
  · simp [he]
  · simp [he, lt_of_le_of_ne hle (Ne.symm he)]

end Queue

/-- What closing `x` leaves to be closed, or less than nothing where it throws away what is left of a lot. -/
def missed (ε : α) : List (ι × α) → α → α
  | [], x => x
  | (_, a) :: lots, x => if x ≤ ε then x else if a - min a x ≤ ε then missed ε lots (x - a) else 0

omit [IsOrderedAddMonoid α] in
theorem missed_of_le {ε x : α} (h : x ≤ ε) (lots : List (ι × α)) : missed ε lots x = x := by
  cases lots with
  | nil => rfl
  | cons l lots => simp [missed, h]

/-- The lots lose what is closed, but for what is missed. -/
theorem total_drop {ε : α} (hε : 0 ≤ ε) (lots : List (ι × α)) (x : α) :
    total (drop ε lots x) = total lots - x + missed ε lots x := by
  induction lots generalizing x with
  | nil => simp [drop, missed]
  | cons l lots ih =>
    obtain ⟨i, a⟩ := l
    unfold drop missed
    by_cases hx : x ≤ ε
    · simp [hx]
    · rw [if_neg hx, if_neg hx]
      rcases le_total a x with hax | hxa
      · rw [min_eq_left hax, sub_self, if_pos hε, if_pos hε, List.nil_append, ih, total_cons]
        abel
      · rw [min_eq_right hxa, sub_self, drop_of_le hε]
        by_cases hthrown : a - x ≤ ε
        · rw [if_pos hthrown, if_pos hthrown, missed_of_le ((sub_nonpos.2 hxa).trans hε), List.nil_append, total_cons]
          abel
        · rw [if_neg hthrown, if_neg hthrown, add_zero]
          simp only [List.cons_append, List.nil_append, total_cons]
          abel

/-- If closing `x` never comes within `ε` of an initial part of the lots without meeting it exactly, and the lots hold
`x`, then nothing is missed. -/
theorem missed_eq_zero {ε : α} {lots : List (ι × α)} {x : α} (hx0 : 0 ≤ x) (hle : x ≤ total lots)
    (h : ∀ l, l <+: lots → |x - total l| ≤ ε → x = total l) : missed ε lots x = 0 := by
  induction lots generalizing x with
  | nil => exact le_antisymm hle hx0
  | cons l lots ih =>
    obtain ⟨i, a⟩ := l
    have hnil := h [] List.nil_prefix
    have hone := h [(i, a)] (by simp [List.cons_prefix_cons])
    simp only [total_nil, sub_zero, total_cons, add_zero] at hnil hone
    unfold missed
    by_cases hxε : x ≤ ε
    · rw [if_pos hxε, hnil (by rwa [abs_of_nonneg hx0])]
    · rw [if_neg hxε]
      by_cases hxa : x < a
      -- the lot is more than what is left to close, so more than `ε` of it stays
      · have hpos : ¬ a - x ≤ ε := by
          intro hle'
          refine hxa.ne (hone ?_)
          rwa [abs_sub_comm, abs_of_nonneg (sub_nonneg.2 hxa.le)]
        rw [min_eq_right hxa.le, if_neg hpos]
      · have hax : a ≤ x := not_lt.1 hxa
        rw [total_cons] at hle
        split
        · refine ih (sub_nonneg.2 hax) (sub_le_iff_le_add'.2 hle) fun l hl hle' => ?_
          have hcons := h ((i, a) :: l) (by simpa [List.cons_prefix_cons] using hl)
          rw [total_cons, ← sub_sub] at hcons
          exact sub_eq_iff_eq_add'.2 (hcons hle')
        · rfl

section Whole

variable {W : α → Prop} {ε : α}

/-- Where the quantities have no value in `(0, ε]`, the cut-off changes nothing. -/
theorem drop_eq_consume (hsub : ∀ x y, W x → W y → W (x - y)) (hW : ∀ x, W x → x ≤ ε → x ≤ 0) (hε : 0 ≤ ε)
    {lots : List (ι × α)} (h : ∀ l ∈ lots, W l.2 ∧ 0 < l.2) {x : α} (hx : W x) (hx0 : 0 ≤ x) :
    drop ε lots x = (consume lots x).1 := by
  induction lots generalizing x with
  | nil => rfl
  | cons l lots ih =>
    obtain ⟨i, a⟩ := l
    have ha : W a ∧ 0 < a := h (i, a) (by simp)
    unfold drop consume
    by_cases hxε : x ≤ ε
    · have : x = 0 := le_antisymm (hW x hx hxε) hx0
      subst this
      simp [hε, ha.2]
    · simp only [hxε, if_false]
      by_cases hxa : x < a
      -- what is left of the lot is more than `ε`, for it is not nothing
      · have hpos : ¬ a - x ≤ ε := fun hle => absurd (hW _ (hsub a x ha.1 hx) hle) (not_le.2 (sub_pos.2 hxa))
        simp [min_eq_right hxa.le, hpos, hxa, drop_of_le hε]
      · have hax : a ≤ x := not_lt.1 hxa
        simp only [min_eq_left hax, sub_self, hε, if_true, List.nil_append, hxa, if_false]
        exact ih (fun m hm => h m (by simp [hm])) (hsub x a hx ha.1) (sub_nonneg.2 hax)

omit [IsOrderedAddMonoid α] in
/-- The lots touched, where the cut-off changes nothing: amounts are positive and at most the lot. -/
theorem takes_spec (hsub : ∀ x y, W x → W y → W (x - y)) (hε : 0 ≤ ε)
    {lots : List (ι × α)} (h : ∀ l ∈ lots, W l.2 ∧ 0 < l.2) {x : α} (hx : W x) :
    ∀ t ∈ takes ε lots x, W t.2.1 ∧ W t.2.2 ∧ 0 < t.2.2 ∧ t.2.2 ≤ t.2.1 := by
  induction lots generalizing x with
  | nil => simp [takes]
  | cons l lots ih =>
    obtain ⟨i, a⟩ := l
    have ha : W a ∧ 0 < a := h (i, a) (by simp)
    unfold takes
    by_cases hxε : x ≤ ε
    · simp [hxε]
    · have hmin : W (min a x) := by rcases min_choice a x with he | he <;> rw [he]; exacts [ha.1, hx]
      have hx0 : 0 < x := lt_of_le_of_lt hε (not_le.1 hxε)
      simp only [hxε, if_false, List.mem_cons]
      rintro t (rfl | ht)
      · exact ⟨ha.1, hmin, lt_min ha.2 hx0, min_le_left _ _⟩
      · exact ih (fun m hm => h m (by simp [hm])) (hsub x _ hx hmin) t ht

/-- Closing more takes no less of any lot. -/
theorem takes_mono {lots : List (ι × α)} {x y : α} (hxy : x ≤ y) :
    ∀ t ∈ takes ε lots x, ∃ t' ∈ takes ε lots y, t'.1 = t.1 ∧ t'.2.1 = t.2.1 ∧ t.2.2 ≤ t'.2.2 := by
  induction lots generalizing x y with
  | nil => simp [takes]
  | cons l lots ih =>
    obtain ⟨i, a⟩ := l
    unfold takes
    by_cases hx : x ≤ ε
    · simp [hx]
    · have hy : ¬ y ≤ ε := fun hy => hx (hxy.trans hy)
      simp only [hx, hy, if_false, List.mem_cons]
      rintro t (rfl | ht)
      · exact ⟨_, Or.inl rfl, rfl, rfl, min_le_min_left a hxy⟩
      · have hrest : x - min a x ≤ y - min a y := by
          rcases le_total a x with hax | hxa
          · rw [min_eq_left hax, min_eq_left (hax.trans hxy)]
            exact sub_le_sub_right hxy a
          · rw [min_eq_right hxa, sub_self]
            exact sub_nonneg.2 (min_le_right a y)
        obtain ⟨t', ht', h⟩ := ih hrest t ht
        exact ⟨t', Or.inr ht', h⟩

/-- From lots that are not negative nothing negative is taken, and from none more than what is closed. -/
theorem takes_le {lots : List (ι × α)} (hε : 0 ≤ ε) (h : ∀ l ∈ lots, 0 ≤ l.2) {x : α} :
    ∀ t ∈ takes ε lots x, 0 ≤ t.2.2 ∧ t.2.2 ≤ x := by
  induction lots generalizing x with
  | nil => simp [takes]
  | cons l lots ih =>
    obtain ⟨i, a⟩ := l
    unfold takes
    by_cases hx : x ≤ ε
    · simp [hx]
    · have hmin : 0 ≤ min a x := le_min (h (i, a) (by simp)) (hε.trans (not_le.1 hx).le)
      simp only [hx, if_false, List.mem_cons]
      rintro t (rfl | ht)
      · exact ⟨hmin, min_le_right _ _⟩
      · obtain ⟨h0, hle⟩ := ih (fun m hm => h m (by simp [hm])) t ht
        exact ⟨h0, hle.trans (sub_le_self x hmin)⟩

/-- What is taken from the lots is what was to be closed, up to what there is. -/
theorem takes_total (hsub : ∀ x y, W x → W y → W (x - y)) (hW : ∀ x, W x → x ≤ ε → x ≤ 0)
    {lots : List (ι × α)} (h : ∀ l ∈ lots, W l.2 ∧ 0 < l.2) {x : α} (hx : W x) (hx0 : 0 ≤ x) (hle : x ≤ total lots) :
    ((takes ε lots x).map fun t => t.2.2).sum = x := by
  induction lots generalizing x with
  | nil => simpa [takes] using le_antisymm hx0 (by simpa using hle)
  | cons l lots ih =>
    obtain ⟨i, a⟩ := l
    have ha : W a ∧ 0 < a := h (i, a) (by simp)
    unfold takes
    by_cases hxε : x ≤ ε
    · simpa [hxε] using le_antisymm hx0 (hW x hx hxε)
    · have hmin : W (min a x) := by rcases min_choice a x with he | he <;> rw [he]; exacts [ha.1, hx]
      rw [total_cons] at hle
      have hrest : x - min a x ≤ total lots := by
        rcases le_total a x with hax | hxa
        · rw [min_eq_left hax]
          exact sub_le_iff_le_add'.2 hle
        · rw [min_eq_right hxa, sub_self]
          exact total_nonneg fun m hm => (h m (by simp [hm])).2.le
      simp only [hxε, if_false, List.map_cons, List.sum_cons]
      rw [ih (fun m hm => h m (by simp [hm])) (hsub x _ hx hmin) (sub_nonneg.2 (min_le_right _ _)) hrest]
      abel

end Whole

end Ordered

end Fifo
