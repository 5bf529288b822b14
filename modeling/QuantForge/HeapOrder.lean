import Mathlib.Order.Antisymmetrization
import Mathlib.Order.WithBot
import QuantForge.BinaryHeap

/-!
# Heap order

A heap whose comparison is by a key in a linear order, as it is for every strict weak order (`exists_keyedBy`).
`Ordered key h` says that no element has a smaller key than its parent; `push` and `pop` keep it (`ordered_push`,
`ordered_pop`), and in an ordered heap `top` has the smallest key (`top_le`).  The argument is made on the keys at the
indices of the array, with `⊤` beyond its end.  Popping as long as the top meets a condition on the keys takes out
exactly what meets it (`Drained.filter`).
-/

namespace BinaryHeap

variable {α κ : Type} [LinearOrder κ] {before : α → α → Bool} {key : α → κ}

/-- The comparison is by key. -/
def KeyedBy (before : α → α → Bool) (key : α → κ) : Prop := ∀ a b, before a b = true ↔ key a < key b

/-! ### Strict weak orders -/

section StrictWeakOrder

variable {r : α → α → Prop} [IsStrictWeakOrder α r]

theorem not_of_not_of_not {a b c : α} (hab : ¬ r a b) (hbc : ¬ r b c) : ¬ r a c := by
  intro hac
  have hba : ¬ r b a := fun hba => hbc (IsTrans.trans _ _ _ hba hac)
  have hcb : ¬ r c b := fun hcb => hab (IsTrans.trans _ _ _ hac hcb)
  exact (IsStrictWeakOrder.incomp_trans a b c ⟨hab, hba⟩ ⟨hbc, hcb⟩).1 hac

/-- The preorder in which `a` is below `b` unless `b` goes before `a`. -/
@[reducible] def preorderOf (r : α → α → Prop) [IsStrictWeakOrder α r] : Preorder α where
  le a b := ¬ r b a
  lt := r
  le_refl := Std.Irrefl.irrefl
  le_trans _ _ _ hab hbc := not_of_not_of_not hbc hab
  lt_iff_le_not_ge a b := by
    refine ⟨fun hab => ⟨fun hba => ?_, not_not_intro hab⟩, fun h => not_not.1 h.2⟩
    exact Std.Irrefl.irrefl a (IsTrans.trans _ _ _ hab hba)

end StrictWeakOrder

/-- A comparison that is a strict weak order is by key: elements of which none goes before the other share one. -/
theorem exists_keyedBy (before : α → α → Bool) [IsStrictWeakOrder α fun a b => before a b = true] :
    ∃ (K : Type) (_ : LinearOrder K) (key : α → K), KeyedBy before key := by
  classical
  let _ := preorderOf fun a b => before a b = true
  have : @Std.Total α (· ≤ ·) := by
    refine ⟨fun a b => ?_⟩
    by_cases hba : b < a
    · exact Or.inr hba.le
    · exact Or.inl hba
  exact ⟨Antisymmetrization α (· ≤ ·), inferInstance, toAntisymmetrization (· ≤ ·), fun a b => Iff.rfl⟩

/-- A comparison by key is a strict weak order. -/
theorem KeyedBy.isStrictWeakOrder (hkey : KeyedBy before key) : IsStrictWeakOrder α fun a b => before a b = true where
  irrefl a h := lt_irrefl _ ((hkey a a).1 h)
  trans a b c hab hbc := (hkey a c).2 (((hkey a b).1 hab).trans ((hkey b c).1 hbc))
  incomp_trans a b c hab hbc := by
    simp only [hkey a b, hkey b a, hkey b c, hkey c b, hkey a c, hkey c a, not_lt] at hab hbc ⊢
    exact ⟨hbc.1.trans hab.1, hab.2.trans hbc.2⟩

/-! ### Order on indices -/

section Index

variable {K : Type} [LinearOrder K] {k k' : ℕ → K} {idx : ℕ}

/-- Every index has a key that is not smaller than that of its parent. -/
def InOrder (k : ℕ → K) : Prop := ∀ i, 0 < i → k ((i - 1) / 2) ≤ k i

/-- In order except between `idx` and its parent, and the children of `idx` are in order with that parent. -/
structure UpReady (k : ℕ → K) (idx : ℕ) : Prop where
  except : ∀ i, 0 < i → i ≠ idx → k ((i - 1) / 2) ≤ k i
  grand : 0 < idx → ∀ c, 0 < c → (c - 1) / 2 = idx → k ((idx - 1) / 2) ≤ k c

/-- In order except between `idx` and its children, and these are in order with the parent of `idx`. -/
structure DownReady (k : ℕ → K) (idx : ℕ) : Prop where
  except : ∀ i, 0 < i → (i - 1) / 2 ≠ idx → k ((i - 1) / 2) ≤ k i
  grand : 0 < idx → ∀ c, 0 < c → (c - 1) / 2 = idx → k ((idx - 1) / 2) ≤ k c

/-- The keys at two indices are exchanged. -/
structure Swapped (k k' : ℕ → K) (i j : ℕ) : Prop where
  left : k' i = k j
  right : k' j = k i
  other : ∀ n, n ≠ i → n ≠ j → k' n = k n

theorem UpReady.swap (h : UpReady k idx) (hpos : 0 < idx) (hlt : k idx < k ((idx - 1) / 2))
    (hs : Swapped k k' idx ((idx - 1) / 2)) : UpReady k' ((idx - 1) / 2) := by
  have hp : (idx - 1) / 2 < idx := by omega
  -- what hangs on the old parent is not smaller than it
  have hbelow : ∀ c, 0 < c → c ≠ idx → (c - 1) / 2 = (idx - 1) / 2 → k ((idx - 1) / 2) ≤ k c := by
    intro c hc hne he
    have := h.except c hc hne
    rwa [he] at this
  refine ⟨fun i hi hne => ?_, fun hq c hc he => ?_⟩
  · by_cases hii : i = idx
    · subst hii
      rw [hs.left, hs.right]
      exact hlt.le
    · rw [hs.other i hii hne]
      by_cases h1 : (i - 1) / 2 = idx
      · rw [h1, hs.left]
        exact h.grand hpos i hi h1
      · by_cases h2 : (i - 1) / 2 = (idx - 1) / 2
        · rw [h2, hs.right]
          exact hlt.le.trans (hbelow i hi hii h2)
        · rw [hs.other _ h1 h2]
          exact h.except i hi hii
  · have hup : k (((idx - 1) / 2 - 1) / 2) ≤ k ((idx - 1) / 2) := h.except _ hq (by omega)
    rw [hs.other _ (by omega) (by omega)]
    by_cases hci : c = idx
    · rw [hci, hs.left]
      exact hup
    · rw [hs.other c hci (by omega)]
      exact hup.trans (hbelow c hc hci he)

theorem UpReady.inOrder (h : UpReady k idx) (hstop : 0 < idx → k ((idx - 1) / 2) ≤ k idx) : InOrder k := by
  intro i hi
  by_cases hii : i = idx
  · subst hii
    exact hstop hi
  · exact h.except i hi hii

theorem DownReady.swap {first : ℕ} (h : DownReady k idx) (hpos : 0 < first) (hf : (first - 1) / 2 = idx)
    (hlt : k first < k idx) (hmin : ∀ c, 0 < c → (c - 1) / 2 = idx → k first ≤ k c)
    (hs : Swapped k k' idx first) : DownReady k' first := by
  have hif : idx < first := by omega
  refine ⟨fun i hi hne => ?_, fun _ c hc he => ?_⟩
  · by_cases h1 : (i - 1) / 2 = idx
    · rw [h1, hs.left]
      by_cases hii : i = first
      · rw [hii, hs.right]
        exact hlt.le
      · rw [hs.other i (by omega) hii]
        exact hmin i hi h1
    · rw [hs.other _ h1 hne]
      by_cases hii : i = idx
      · subst hii
        rw [hs.left]
        exact h.grand hi first hpos hf
      · rw [hs.other i hii (by rintro rfl; exact h1 hf)]
        exact h.except i hi h1
  · rw [hf, hs.left, hs.other c (by omega) (by omega), ← he]
    exact h.except c hc (by omega)

theorem DownReady.inOrder (h : DownReady k idx) (hstop : ∀ c, 0 < c → (c - 1) / 2 = idx → k idx ≤ k c) :
    InOrder k := by
  intro i hi
  by_cases h1 : (i - 1) / 2 = idx
  · rw [h1]
    exact hstop i hi h1
  · exact h.except i hi h1

/-- The root is below everything. -/
theorem InOrder.root_le (h : InOrder k) (i : ℕ) : k 0 ≤ k i := by
  induction i using Nat.strongRecOn with
  | ind i ih =>
    rcases Nat.eq_zero_or_pos i with rfl | hi
    · exact le_refl _
    · exact (ih ((i - 1) / 2) (by omega)).trans (h i hi)

end Index

/-! ### Arrays -/

/-- The key at an index, `⊤` outside the array. -/
def keyAt (key : α → κ) (data : Array α) (i : ℕ) : WithTop κ :=
  match data[i]? with
  | some x => (key x : WithTop κ)
  | none => ⊤

omit [LinearOrder κ] in
theorem keyAt_of_lt {data : Array α} {i : ℕ} (hi : i < data.size) : keyAt key data i = (key data[i] : WithTop κ) := by
  simp [keyAt, hi]

omit [LinearOrder κ] in
theorem keyAt_of_le {data : Array α} {i : ℕ} (hi : data.size ≤ i) : keyAt key data i = ⊤ := by
  simp [keyAt, hi]

omit [LinearOrder κ] in
theorem keyAt_swap (key : α → κ) {data : Array α} {i j : ℕ} (hi : i < data.size) (hj : j < data.size) :
    Swapped (keyAt key data) (keyAt key (data.swap i j hi hj)) i j := by
  refine ⟨?_, ?_, fun n hni hnj => ?_⟩
  · simp only [keyAt, Array.getElem?_swap]
    by_cases h : j = i
    · subst h; simp [hi]
    · simp [h, hj]
  · simp [keyAt, Array.getElem?_swap, hi]
  · simp [keyAt, Array.getElem?_swap, Ne.symm hni, Ne.symm hnj]

/-- An element goes before another one exactly when its key is smaller. -/
theorem KeyedBy.lt_iff (hkey : KeyedBy before key) {data : Array α} {i j : ℕ} (hi : i < data.size)
    (hj : j < data.size) : before data[i] data[j] = true ↔ keyAt key data i < keyAt key data j := by
  rw [hkey, keyAt_of_lt hi, keyAt_of_lt hj, WithTop.coe_lt_coe]

theorem bubbleUp_inOrder (hkey : KeyedBy before key) {data : Array α} {idx : ℕ} (hi : idx < data.size)
    (h : UpReady (keyAt key data) idx) : InOrder (keyAt key (bubbleUp before data idx)) := by
  induction data, idx using bubbleUp.induct before with
  | case1 data idx hidx hi' hp hb ih =>
    rw [bubbleUp]
    simp only [hidx, and_self, dite_true, hb, ite_true]
    refine ih (by simpa using hp) ?_
    exact h.swap hidx.1 ((hkey.lt_iff hi' hp).1 hb) (keyAt_swap key hi' hp)
  | case2 data idx hidx hi' hp hb =>
    rw [bubbleUp]
    simp only [hidx, and_self, dite_true, hb, Bool.false_eq_true, ite_false]
    refine h.inOrder fun _ => not_lt.1 fun hlt => ?_
    exact hb ((hkey.lt_iff hi' hp).2 hlt)
  | case3 data idx hidx =>
    rw [bubbleUp]
    simp only [hidx, dite_false]
    exact h.inOrder fun hpos => absurd ⟨hpos, hi⟩ hidx

/-- `pick` chooses the smaller key of the two. -/
theorem keyAt_pick (hkey : KeyedBy before key) {data : Array α} {c best : ℕ} (hb : best < data.size) :
    pick before data c best < data.size ∧
      keyAt key data (pick before data c best) ≤ keyAt key data c ∧
      keyAt key data (pick before data c best) ≤ keyAt key data best := by
  unfold pick
  by_cases hc : c < data.size
  · rw [dif_pos ⟨hc, hb⟩]
    dsimp only
    split
    · rename_i hlt
      exact ⟨hc, le_refl _, ((hkey.lt_iff hc hb).1 hlt).le⟩
    · rename_i hnlt
      exact ⟨hb, not_lt.1 fun hlt => hnlt ((hkey.lt_iff hc hb).2 hlt), le_refl _⟩
  · rw [dif_neg fun h => hc h.1, keyAt_of_le (not_lt.1 hc)]
    exact ⟨hb, le_top, le_refl _⟩

/-- The index that `bubbleDown` looks for: of an element and its two children the one with the smallest key, and the
element itself only if no child has a smaller one. -/
theorem keyAt_first (hkey : KeyedBy before key) {data : Array α} {idx : ℕ} (hi : idx < data.size) :
    let first := pick before data (2 * idx + 2) (pick before data (2 * idx + 1) idx)
    first < data.size ∧ (∀ c, 0 < c → (c - 1) / 2 = idx → keyAt key data first ≤ keyAt key data c) ∧
      keyAt key data first ≤ keyAt key data idx ∧
      (first ≠ idx → 0 < first ∧ (first - 1) / 2 = idx ∧ keyAt key data first < keyAt key data idx) := by
  intro first
  obtain ⟨hs1, hl1, hb1⟩ := keyAt_pick hkey (c := 2 * idx + 1) hi
  obtain ⟨hs2, hl2, hb2⟩ := keyAt_pick hkey (c := 2 * idx + 2) hs1
  refine ⟨hs2, fun c hc he => ?_, hb2.trans hb1, fun hne => ?_⟩
  · obtain rfl | rfl : c = 2 * idx + 1 ∨ c = 2 * idx + 2 := by omega
    · exact hb2.trans hl1
    · exact hl2
  · have hlt : ∀ c best, best < data.size → pick before data c best ≠ best →
        keyAt key data c < keyAt key data best := by
      intro c best hbest hp
      unfold pick at hp
      split at hp
      · rename_i hcb
        dsimp only at hp
        split at hp
        · rename_i hlt
          exact (hkey.lt_iff hcb.1 hcb.2).1 hlt
        · exact absurd rfl hp
      · exact absurd rfl hp
    rcases pick_eq before data (2 * idx + 2) (pick before data (2 * idx + 1) idx) with ⟨h2, -⟩ | h2
    · have h2' : first = 2 * idx + 2 := h2
      rw [h2']
      refine ⟨by omega, by omega, ?_⟩
      refine lt_of_lt_of_le (hlt _ _ hs1 ?_) hb1
      rcases pick_eq before data (2 * idx + 1) idx with ⟨h1, -⟩ | h1 <;> omega
    · have h2' : first = pick before data (2 * idx + 1) idx := h2
      rcases pick_eq before data (2 * idx + 1) idx with ⟨h1, -⟩ | h1
      · rw [h2', h1]
        refine ⟨by omega, by omega, hlt _ _ hi (by omega)⟩
      · exact absurd (h2'.trans h1) hne

theorem bubbleDown_inOrder (hkey : KeyedBy before key) {data : Array α} {idx : ℕ} (hi : idx < data.size)
    (h : DownReady (keyAt key data) idx) : InOrder (keyAt key (bubbleDown before data idx)) := by
  induction data, idx using bubbleDown.induct before with
  | case1 data idx first hne hi' hf ih =>
    obtain ⟨-, hmin, -, hlt⟩ := keyAt_first hkey hi'
    rw [bubbleDown]
    simp only [first] at hne
    simp only [hne, ne_eq, not_false_eq_true, and_self, dite_true]
    obtain ⟨hpos, hparent, hlt⟩ := hlt hne.1
    exact ih (by simpa using hf) (h.swap hpos hparent hlt hmin (keyAt_swap key hi' hf))
  | case2 data idx first hne =>
    obtain ⟨hsize, hmin, -, -⟩ := keyAt_first hkey hi
    rw [bubbleDown]
    simp only [first] at hne
    simp only [hne, dite_false]
    have hstay : pick before data (2 * idx + 2) (pick before data (2 * idx + 1) idx) = idx := by
      by_contra hc
      exact hne ⟨hc, hi, hsize⟩
    refine h.inOrder fun c hc he => ?_
    have := hmin c hc he
    rwa [hstay] at this

/-! ### Heaps -/

/-- No element has a smaller key than its parent. -/
def Ordered (key : α → κ) (h : BinaryHeap before) : Prop := InOrder (keyAt key h.data)

theorem ordered_empty : Ordered key (empty : BinaryHeap before) := by
  intro i _
  rw [show keyAt key (empty : BinaryHeap before).data i = ⊤ from keyAt_of_le (Nat.zero_le i)]
  exact le_top

theorem ordered_push (hkey : KeyedBy before key) {h : BinaryHeap before} (ho : Ordered key h) (x : α) :
    Ordered key (h.push x) := by
  have hold : ∀ i, i < h.data.size → keyAt key (h.data.push x) i = keyAt key h.data i := by
    intro i hi
    simp [keyAt, Array.getElem?_push, hi.ne]
  have htop : ∀ i, h.data.size < i → keyAt key (h.data.push x) i = ⊤ :=
    fun i hi => keyAt_of_le (by simpa using Nat.succ_le_of_lt hi)
  refine bubbleUp_inOrder hkey (by simp) ⟨fun i hi hne => ?_, fun _ c hc he => ?_⟩
  · rcases lt_or_gt_of_ne hne with hlt | hgt
    · rw [hold i hlt, hold _ (by omega)]
      exact ho i hi
    · rw [htop i hgt]
      exact le_top
  · rw [htop c (by omega)]
    exact le_top

theorem ordered_pop (hkey : KeyedBy before key) {h : BinaryHeap before} (ho : Ordered key h) : Ordered key h.pop := by
  unfold pop
  split
  · rename_i hs
    dsimp only
    split
    · rename_i h0
      intro i _
      rw [keyAt_of_le (h0.le.trans (Nat.zero_le i))]
      exact le_top
    · rename_i h0
      -- away from the root the array is the old one without its last element
      have hold : ∀ i, 0 < i → i < h.data.size - 1 →
          keyAt key ((h.data.set 0 h.data[h.data.size - 1] hs).pop) i = keyAt key h.data i := by
        intro i hi hlt
        have hget : ((h.data.set 0 h.data[h.data.size - 1] hs).pop)[i]? = h.data[i]? := by
          rw [Array.getElem?_pop, if_pos (by simpa using hlt), Array.getElem?_set_ne hs hi.ne]
        simp only [keyAt, hget]
      refine bubbleDown_inOrder hkey (Nat.pos_of_ne_zero h0) ⟨fun i hi hne => ?_, fun h => absurd h (lt_irrefl 0)⟩
      by_cases hlt : i < h.data.size - 1
      · rw [hold i hi hlt, hold _ (by omega) (by omega)]
        exact ho i hi
      · rw [keyAt_of_le (i := i) (by simpa using hlt)]
        exact le_top
  · exact ho

/-- In an ordered heap `top` has the smallest key. -/
theorem top_le {h : BinaryHeap before} (ho : Ordered key h) {x : α} (ht : h.top = some x) :
    ∀ y ∈ h.toList, key x ≤ key y := by
  intro y hy
  obtain ⟨i, hi, rfl⟩ := List.mem_iff_getElem.1 hy
  have hi' : i < h.data.size := by simpa [toList] using hi
  have hroot := ho.root_le i
  rw [keyAt_of_lt hi', keyAt, show h.data[0]? = some x from ht] at hroot
  simpa [toList] using WithTop.coe_le_coe.1 hroot

/-! ### Popping while the top meets a condition -/

/-- Popping `h₀` has given the elements `out` and left the heap `h`. -/
structure Drained (key : α → κ) (h₀ : BinaryHeap before) (out : List α) (h : BinaryHeap before) : Prop where
  perm : h₀.toList.Perm (out ++ h.toList)
  sorted : out.Pairwise fun x y => key x ≤ key y
  below : ∀ x ∈ out, ∀ y ∈ h.toList, key x ≤ key y
  ordered : Ordered key h

theorem Drained.start {h : BinaryHeap before} (ho : Ordered key h) : Drained key h [] h :=
  ⟨List.Perm.refl _, List.Pairwise.nil, fun _ hx => absurd hx List.not_mem_nil, ho⟩

theorem Drained.pop (hkey : KeyedBy before key) {h₀ h : BinaryHeap before} {out : List α} (hd : Drained key h₀ out h)
    {x : α} (htop : h.top = some x) : Drained key h₀ (out ++ [x]) h.pop := by
  refine ⟨?_, ?_, fun y hy z hz => ?_, ordered_pop hkey hd.ordered⟩
  · rw [List.append_assoc]
    exact hd.perm.trans ((toList_pop htop).append_left out)
  · rw [List.pairwise_append]
    refine ⟨hd.sorted, List.pairwise_singleton _ _, fun y hy z hz => ?_⟩
    rw [List.mem_singleton.1 hz]
    exact hd.below y hy x (top_mem htop)
  · rcases List.mem_append.1 hy with hy | hy
    · exact hd.below y hy z (mem_of_mem_pop hz)
    · rw [List.mem_singleton.1 hy]
      exact top_le hd.ordered htop z (mem_of_mem_pop hz)

/-- Stopping at the first top that fails a condition on the keys misses nothing: what meets it is out, what does not
is left. -/
theorem Drained.filter {h₀ h : BinaryHeap before} {out : List α} (hd : Drained key h₀ out h) {p : α → Bool}
    (hp : ∀ x y, key x ≤ key y → p y = true → p x = true) (hout : ∀ x ∈ out, p x = true)
    (hend : ∀ x, h.top = some x → p x = false) :
    out.Perm (h₀.toList.filter p) ∧ h.toList.Perm (h₀.toList.filter fun x => !p x) := by
  have hleft : ∀ x ∈ h.toList, p x = false := by
    intro x hx
    rcases ht : h.top with _ | t
    · rw [top_eq_none.1 ht] at hx
      cases hx
    · by_contra hpx
      have hpt := hp t x (top_le hd.ordered ht x hx) (by simpa using hpx)
      rw [hend t ht] at hpt
      cases hpt
  have h1 := hd.perm.filter p
  have h2 := hd.perm.filter fun x => !p x
  have hnil : h.toList.filter p = [] := List.filter_eq_nil_iff.2 fun x hx => by simp [hleft x hx]
  have hnil' : out.filter (fun x => !p x) = [] := List.filter_eq_nil_iff.2 fun x hx => by simp [hout x hx]
  rw [List.filter_append, List.filter_eq_self.2 hout, hnil, List.append_nil] at h1
  have hself : h.toList.filter (fun x => !p x) = h.toList := List.filter_eq_self.2 fun x hx => by simp [hleft x hx]
  rw [List.filter_append, hnil', hself, List.nil_append] at h2
  exact ⟨h1.symm, h2.symm⟩

end BinaryHeap
