import QuantForge.Registry

/-!
# Partial fills

The volume cap splits an order into what is filled and what remains before the filled part is rounded down to whole
shares, so the shares rounded off are in neither part.  Nothing is lost when the cap is itself a whole number of
shares or does not bind (`partial_fills_conserve_iff`).
-/

namespace QuantForge

namespace Executor

variable {o o' : Order} {hp : HostParams} {s : State} {uuid : Uuid} {r : ExecutionResultSuccess}

/-- The quantity of the remainder, zero if there is none. -/
def remainderOf (r : ExecutionResultSuccess) : ℚ := r.partialOrder.elim 0 Order.quantity

/-- Without fractional shares, a cap that cuts the order is a whole number of shares. -/
def CutsWhole (o : Order) (hp : HostParams) (s : State) : Prop :=
  hp.fractional = false → ∀ pct ∈ hp.fillMaxPctOfVolume, s.getSymbolVolume o.symbol * pct < o.quantity →
    IsWhole (s.getSymbolVolume o.symbol * pct)

theorem remainderOf_success : remainderOf (success o hp s uuid) = remainingQuantity o hp s := by
  have h0 := (fillable_add_remaining o hp s).2
  show (partialOrder o hp s).elim 0 Order.quantity = _
  unfold partialOrder
  split
  · rfl
  · rename_i h
    exact le_antisymm h0 (not_lt.1 h)

/-- An order of whole shares is cut into whole shares. -/
theorem fillable_whole_iff (hw : hp.fractional = false) (ho : IsWhole o.quantity) :
    IsWhole (getFillableAndRemainingQuantities o hp s).1 ↔ CutsWhole o hp s := by
  unfold CutsWhole getFillableAndRemainingQuantities
  cases hp.fillMaxPctOfVolume with
  | none => simp [hw, ho]
  | some pct =>
    by_cases hcut : s.getSymbolVolume o.symbol * pct < o.quantity
    · simp [hw, hcut]
    · simp [hw, hcut, ho]

theorem floor_eq_iff_isWhole {x : ℚ} : (⌊x⌋ : ℚ) = x ↔ IsWhole x := by
  constructor
  · intro h
    exact ⟨⌊x⌋, h.symm⟩
  · rintro ⟨n, rfl⟩
    rw [Int.floor_intCast]

/-- One execution. -/
theorem fill_add_remainder_iff (ho : hp.fractional = true ∨ IsWhole o.quantity) :
    (success o hp s uuid).fill.quantity + remainderOf (success o hp s uuid) = o.quantity ↔ CutsWhole o hp s := by
  have hsum := (fillable_add_remaining o hp s).1
  rw [remainderOf_success]
  show fillableQuantity o hp s + _ = _ ↔ _
  unfold fillableQuantity
  cases hf : hp.fractional with
  | true =>
    rw [if_pos rfl]
    exact iff_of_true hsum fun h => absurd (hf.symm.trans h) (by decide)
  | false =>
    have hwhole := ho.resolve_left fun h => absurd (hf.symm.trans h) (by decide)
    rw [if_neg Bool.false_ne_true, ← fillable_whole_iff hf hwhole, ← floor_eq_iff_isWhole]
    constructor
    · intro h
      linarith
    · intro h
      rw [h]
      exact hsum

/-- What remains of whole shares, cut at whole shares, is whole. -/
theorem partialOrder_whole (ho : hp.fractional = true ∨ IsWhole o.quantity) (hcut : CutsWhole o hp s)
    (h : partialOrder o hp s = some o') : hp.fractional = true ∨ IsWhole o'.quantity := by
  rcases ho with hf | hwhole
  · exact Or.inl hf
  · cases hf : hp.fractional with
    | true => exact Or.inl rfl
    | false =>
      obtain ⟨rfl, -⟩ := partialOrder_eq h
      have hsum := (fillable_add_remaining o hp s).1
      have hrem : remainingQuantity o hp s = o.quantity - (getFillableAndRemainingQuantities o hp s).1 := by
        linarith
      refine Or.inr ?_
      show IsWhole (remainingQuantity o hp s)
      rw [hrem]
      exact hwhole.sub ((fillable_whole_iff hf hwhole).2 hcut)

/-! ### Chains of remainders -/

/-- One execution in the life of an order. -/
structure Link where
  order : Order
  state : State
  result : ExecutionResultSuccess

/-- What is left of the order after the executions. -/
def outstanding (o : Order) (links : List Link) : Option Order :=
  links.getLast?.elim (some o) fun l => l.result.partialOrder

/-- The executions of an order and of its remainders, one after another, in any states. -/
inductive Remainders (hp : HostParams) (o : Order) : List Link → Prop
  | start : Remainders hp o []
  | link {links : List Link} {o' : Order} {s : State} {uuid : Uuid} {r : ExecutionResultSuccess}
      (h : Remainders hp o links) (ho : outstanding o links = some o') (hr : executeOrder o' hp s uuid = .ok r) :
      Remainders hp o (links ++ [⟨o', s, r⟩])

/-- The shares filled and the shares outstanding are the shares ordered. -/
def Conserved (o : Order) (links : List Link) : Prop :=
  (links.map fun l => l.result.fill.quantity).sum + (outstanding o links).elim 0 Order.quantity = o.quantity

variable {links : List Link}

theorem conserved_nil (o : Order) : Conserved o [] := by
  simp [Conserved, outstanding]

theorem conserved_append (hc : Conserved o links) (ho : outstanding o links = some o') {l : Link} :
    Conserved o (links ++ [l]) ↔ l.result.fill.quantity + remainderOf l.result = o'.quantity := by
  unfold Conserved at hc ⊢
  have hlast : outstanding o (links ++ [l]) = l.result.partialOrder := by
    simp [outstanding]
  rw [ho] at hc
  rw [hlast, List.map_append, List.sum_append, ← remainderOf]
  simp only [List.map_cons, List.map_nil, List.sum_singleton, Option.elim_some] at hc ⊢
  constructor <;> intro h <;> linarith

/-- As long as every cut is whole, so is what is outstanding. -/
theorem Remainders.whole (h : Remainders hp o links) (hwhole : IsWhole o.quantity)
    (hcut : ∀ l ∈ links, CutsWhole l.order hp l.state) :
    ∀ o', outstanding o links = some o' → hp.fractional = true ∨ IsWhole o'.quantity := by
  induction h with
  | start =>
    intro o' ho
    cases ho
    exact Or.inr hwhole
  | @link links o₁ s uuid r h ho hr ih =>
    intro o' ho'
    have hrest : outstanding o (links ++ [⟨o₁, s, r⟩]) = r.partialOrder := by
      simp [outstanding]
    have hbefore := ih (fun l hl => hcut l (List.mem_append_left _ hl)) o₁ ho
    have hlast : CutsWhole o₁ hp s := hcut ⟨o₁, s, r⟩ (List.mem_append_right _ (List.mem_singleton_self _))
    rw [hrest, (executeOrder_ok_iff.1 hr).2] at ho'
    exact partialOrder_whole hbefore hlast ho'

/-- An execution of a whole number of shares keeps them all exactly when the cap cuts no fraction of a share off, and
a chain of executions keeps them all the time exactly when each of them does so. -/
theorem partial_fills_conserve_iff (hwhole : IsWhole o.quantity) :
    (∀ s uuid r, executeOrder o hp s uuid = .ok r →
        (r.fill.quantity + remainderOf r = o.quantity ↔ CutsWhole o hp s)) ∧
      ∀ links, Remainders hp o links →
        ((∀ l, l <+: links → Conserved o l) ↔ ∀ l ∈ links, CutsWhole l.order hp l.state) := by
  constructor
  · intro s uuid r hr
    obtain ⟨-, rfl⟩ := executeOrder_ok_iff.1 hr
    exact fill_add_remainder_iff (Or.inr hwhole)
  · intro links h
    induction h with
    | start => simp [conserved_nil]
    | @link links o' s uuid r h ho hr ih =>
      -- the longest prefix is the chain itself, the others are those of the chain before
      have hsplit : (∀ l, l <+: links ++ [⟨o', s, r⟩] → Conserved o l) ↔
          (∀ l, l <+: links → Conserved o l) ∧ Conserved o (links ++ [⟨o', s, r⟩]) := by
        simp only [List.prefix_concat_iff, or_imp, forall_and, forall_eq]
        exact and_comm
      simp only [hsplit, ih, List.mem_append, List.mem_singleton, or_imp, forall_and, forall_eq]
      refine and_congr_right fun hcut => ?_
      have hc := ih.2 hcut links (List.prefix_refl _)
      obtain ⟨-, rfl⟩ := executeOrder_ok_iff.1 hr
      rw [conserved_append hc ho]
      exact fill_add_remainder_iff (h.whole hwhole hcut o' ho)

open BackTestEngine in
/-- Ten shares at a tenth of a volume of 25: two are filled and 7.5 remain. -/
theorem partial_fills_lose_half_a_share :
    ¬ ∀ (o : Order) (hp : HostParams) (s : State) (uuid : Uuid) (r : ExecutionResultSuccess),
      IsWhole o.quantity → executeOrder o hp s uuid = .ok r → r.fill.quantity + remainderOf r = o.quantity := by
  intro h
  have hk := h (Order.ofCOrder (sampleOrder "A" "buy" 10)) cappedParams
    (sampleRun cappedParams (sampleFeed "A" 25 [(100, "buy", 0)]) 20).engine.state "1" _ ⟨10, by decide +kernel⟩
    (executeOrder_ok_iff.2 ⟨by decide +kernel, rfl⟩)
  revert hk
  decide +kernel

open BackTestEngine in
/-- Ten shares at a tenth of 30 and then of 40: three and four are filled, three remain. -/
theorem partial_fills_conserve_two_links :
    let o := Order.ofCOrder (sampleOrder "A" "buy" 10)
    let s := (sampleRun cappedParams (sampleFeed "A" 30 [(100, "buy", 0)]) 20).engine.state
    let s' := (sampleRun cappedParams (sampleFeed "A" 40 [(100, "buy", 0)]) 20).engine.state
    let o' : Order := { o with quantity := 7 }
    let links : List Link := [⟨o, s, success o cappedParams s "1"⟩, ⟨o', s', success o' cappedParams s' "11"⟩]
    (links.map fun l => l.result.fill.quantity) = [3, 4] ∧ (outstanding o links).elim 0 Order.quantity = 3 ∧
      ∀ l, l <+: links → Conserved o l := by
  intro o s s' o' links
  have hlinks : Remainders cappedParams o links :=
    ((Remainders.start.link rfl (executeOrder_ok_iff.2 ⟨by decide +kernel, rfl⟩)).link (by decide +kernel)
      (executeOrder_ok_iff.2 ⟨by decide +kernel, rfl⟩))
  have hiff := (partial_fills_conserve_iff (o := o) ⟨10, by decide +kernel⟩).2 links hlinks
  refine ⟨by decide +kernel, by decide +kernel, hiff.2 fun l hl _ pct hpct _ => ?_⟩
  cases hpct
  rcases List.mem_cons.1 hl with rfl | hl
  · exact ⟨3, by decide +kernel⟩
  · rw [List.mem_singleton.1 hl]
    exact ⟨4, by decide +kernel⟩

end Executor

end QuantForge
