import QuantForge.PriorityQueues
import QuantForge.ExitReduction

/-!
# Reducing the exit heaps

`reduce_exit_orders_by_fills` with its loops as they are written: for each closed fill both heaps are emptied into a
temporary vector and filled again from it.  With enough turns the loops are those of `ExitOrderBook`
(`reduceExitOrdersByFills?_eq`).  If no fill is listed twice, all that happens to an exit order is what the list says
about its own fill, so the order of the list does not matter (`reduceExitOrdersByFills_pointwise`).
-/

namespace QuantForge

open DataStructures

/-! ### The heaps of the two kinds -/

/-- `StopLossExitOrder` compares as one expects, `TakeProfitExitOrder` the other way round. -/
def ExitOrder.operators : ExitKind → Operators ExitOrder
  | .stopLoss => ⟨fun a b => a.triggerPrice < b.triggerPrice, fun a b => a.triggerPrice > b.triggerPrice⟩
  | .takeProfit => ⟨fun a b => a.triggerPrice > b.triggerPrice, fun a b => a.triggerPrice < b.triggerPrice⟩

def ExitKind.heapClass : ExitKind → HeapClass
  | .stopLoss => .minHeap
  | .takeProfit => .maxHeap

/-- The comparison of the heap of a kind. -/
def ExitKind.before (kind : ExitKind) : ExitOrder → ExitOrder → Bool :=
  kind.heapClass.before (ExitOrder.operators kind)

theorem ExitKind.before_eq (kind : ExitKind) : kind.before = ExitOrder.before := by
  cases kind <;> rfl

namespace ExitOrderBook

/-! ### The loops -/

section Loops

variable (kind : ExitKind) (fillUuid : Uuid) (quantitySold : ℚ) (limit : ℕ)

/-- The loop that empties a heap into the temporary vector; the loops inside have the given limit. -/
def drainLoop : ℕ → Array ExitOrder → List ExitOrder → Option (Array ExitOrder × List ExitOrder)
  | 0, _, _ => none
  | turns + 1, data, temp =>
    if data.isEmpty then some (data, temp)
    else do
      let exitOrderOpt := top? data
      let data ← pop? kind.before limit data
      match exitOrderOpt with
      | none => drainLoop turns data temp
      | some exitOrder =>
        if exitOrder.fillUuid = fillUuid then
          if exitOrder.triggerQuantity > quantitySold then
            drainLoop turns data
              (temp ++ [{ exitOrder with triggerQuantity := exitOrder.triggerQuantity - quantitySold }])
          else drainLoop turns data temp
        else drainLoop turns data (temp ++ [exitOrder])

def reduceHeap? (data : Array ExitOrder) : Option (Array ExitOrder) := do
  let (data, temp) ← drainLoop kind fillUuid quantitySold limit limit data []
  temp.foldlM (push? kind.before limit) data

end Loops

def reduceExitOrdersByFillUuid? (limit : ℕ) (b : ExitOrderBook) (fillUuid : Uuid) (quantitySold : ℚ) :
    Option ExitOrderBook := do
  let stopLoss ← reduceHeap? .stopLoss fillUuid quantitySold limit b.stopLossHeap.data
  let takeProfit ← reduceHeap? .takeProfit fillUuid quantitySold limit b.takeProfitHeap.data
  some ⟨⟨stopLoss⟩, ⟨takeProfit⟩⟩

def reduceExitOrdersByFills? (limit : ℕ) (b : ExitOrderBook) (closedFills : List (Uuid × ℚ)) : Option ExitOrderBook :=
  closedFills.foldlM (fun b c => reduceExitOrdersByFillUuid? limit b c.1 c.2) b

/-! ### The loops end -/

section End

variable {kind : ExitKind} {limit : ℕ}

theorem drainLoop_eq (u : Uuid) (q : ℚ) {turns : ℕ} {data : Array ExitOrder} (hlimit : data.size ≤ limit)
    (hturns : data.size < turns) (temp : List ExitOrder) :
    drainLoop kind u q limit turns data temp =
      some (#[], temp ++ (⟨data⟩ : BinaryHeap ExitOrder.before).drain.filterMap (reduceOrder u q)) := by
  induction turns generalizing data temp with
  | zero => omega
  | succ turns ih =>
    rw [drainLoop]
    rcases htop : (⟨data⟩ : BinaryHeap ExitOrder.before).top with _ | x
    · have hempty : data = #[] := by simpa [BinaryHeap.toList] using BinaryHeap.top_eq_none.1 htop
      rw [BinaryHeap.drain_of_top_eq_none htop]
      simp [hempty]
    · have hlength : data.size = (⟨data⟩ : BinaryHeap ExitOrder.before).pop.data.size + 1 := by
        simpa [BinaryHeap.toList] using (BinaryHeap.toList_pop htop).length_eq
      have hne : ¬ data.isEmpty = true := by
        rw [Array.isEmpty_iff_size_eq_zero]
        omega
      rw [if_neg hne, top?_eq ExitOrder.before, htop, kind.before_eq, pop?_eq hlimit,
        BinaryHeap.drain_of_top_eq_some htop]
      simp only [Option.bind_eq_bind, Option.bind_some]
      -- what is kept of the order goes to the end of the vector
      by_cases hu : x.fillUuid = u
      · by_cases hq : x.triggerQuantity > q
        · rw [if_pos hu, if_pos hq, ih (by omega) (by omega)]
          simp [reduceOrder, hu, hq]
        · rw [if_pos hu, if_neg hq, ih (by omega) (by omega)]
          simp [reduceOrder, hu, hq]
      · rw [if_neg hu, ih (by omega) (by omega)]
        simp [reduceOrder, hu]

theorem reduceHeap?_eq (u : Uuid) (q : ℚ) {h : BinaryHeap ExitOrder.before} (hlimit : h.data.size < limit) :
    reduceHeap? kind u q limit h.data = some (reduceHeap h u q).data := by
  have hlength : (h.drain.filterMap (reduceOrder u q)).length ≤ h.data.size := by
    have hdrain : h.drain.length = h.data.size := by
      simpa [BinaryHeap.toList] using (BinaryHeap.drain_perm h).length_eq
    exact (List.length_filterMap_le _ _).trans hdrain.le
  unfold reduceHeap? reduceHeap
  rw [drainLoop_eq u q hlimit.le hlimit, Option.bind_eq_bind, Option.bind_some, kind.before_eq, List.nil_append]
  exact foldlM_push? (by simpa using hlength.trans hlimit.le)

theorem size_reduceHeap (h : BinaryHeap ExitOrder.before) (u : Uuid) (q : ℚ) :
    (reduceHeap h u q).data.size ≤ h.data.size := by
  have hlength := (mem_reduceHeap (h := h) (u := u) (q := q)).length_eq
  have hle := List.length_filterMap_le (reduceOrder u q) h.toList
  simp only [BinaryHeap.toList, Array.length_toList] at hlength hle
  omega

/-- The limit is above the size of both heaps. -/
def Fits (limit : ℕ) (b : ExitOrderBook) : Prop := ∀ kind, (b.heap kind).data.size < limit

theorem reduceExitOrdersByFillUuid?_eq {b : ExitOrderBook} (h : Fits limit b) (u : Uuid) (q : ℚ) :
    reduceExitOrdersByFillUuid? limit b u q = some (b.reduceExitOrdersByFillUuid u q) := by
  have hstop : b.stopLossHeap.data.size < limit := h .stopLoss
  have htake : b.takeProfitHeap.data.size < limit := h .takeProfit
  unfold reduceExitOrdersByFillUuid?
  rw [reduceHeap?_eq u q hstop, reduceHeap?_eq u q htake]
  rfl

theorem Fits.reduceExitOrdersByFillUuid {b : ExitOrderBook} (h : Fits limit b) (u : Uuid) (q : ℚ) :
    Fits limit (b.reduceExitOrdersByFillUuid u q) := by
  intro kind
  cases kind with
  | stopLoss => exact (size_reduceHeap b.stopLossHeap u q).trans_lt (h .stopLoss)
  | takeProfit => exact (size_reduceHeap b.takeProfitHeap u q).trans_lt (h .takeProfit)

/-- With enough turns all loops end, with what `reduceExitOrdersByFills` says. -/
theorem reduceExitOrdersByFills?_eq {b : ExitOrderBook} (h : Fits limit b) (closed : List (Uuid × ℚ)) :
    reduceExitOrdersByFills? limit b closed = some (b.reduceExitOrdersByFills closed) := by
  unfold reduceExitOrdersByFills?
  induction closed generalizing b with
  | nil => rfl
  | cons c closed ih =>
    rw [List.foldlM_cons, reduceExitOrdersByFillUuid?_eq h, Option.bind_eq_bind, Option.bind_some,
      ih (h.reduceExitOrdersByFillUuid c.1 c.2)]
    rfl

end End

/-! ### What happens to each order -/

/-- The order, good for so much less. -/
def lowered (q : ℚ) (x : ExitOrder) : ExitOrder := { x with triggerQuantity := x.triggerQuantity - q }

/-- The orders whose fill is not listed. -/
def unlisted (closed : List (Uuid × ℚ)) (xs : List ExitOrder) : List ExitOrder :=
  xs.filter fun x => x.fillUuid ∉ closed.map Prod.fst

/-- The orders of a listed fill that are good for more than is closed of it, lowered by that. -/
def remaining (xs : List ExitOrder) (c : Uuid × ℚ) : List ExitOrder :=
  (xs.filter fun x => x.fillUuid = c.1 ∧ x.triggerQuantity > c.2).map (lowered c.2)

section Pointwise

variable {c : Uuid × ℚ} {closed closed' : List (Uuid × ℚ)} {xs ys : List ExitOrder}

/-- One closed fill. -/
theorem filterMap_reduceOrder_perm (c : Uuid × ℚ) (xs : List ExitOrder) :
    (xs.filterMap (reduceOrder c.1 c.2)).Perm (unlisted [c] xs ++ remaining xs c) := by
  induction xs with
  | nil => exact List.Perm.refl _
  | cons x xs ih =>
    unfold unlisted remaining at ih ⊢
    by_cases hu : x.fillUuid = c.1
    · by_cases hq : x.triggerQuantity > c.2
      · rw [List.filterMap_cons_some (b := lowered c.2 x) (by simp [reduceOrder, hu, hq, lowered]),
          List.filter_cons_of_neg (by simp [hu]), List.filter_cons_of_pos (by simp [hu, hq]), List.map_cons]
        exact (ih.cons _).trans List.perm_middle.symm
      · rw [List.filterMap_cons_none (by simp [reduceOrder, hu, hq]), List.filter_cons_of_neg (by simp [hu]),
          List.filter_cons_of_neg (by simp [hq])]
        exact ih
    · rw [List.filterMap_cons_some (b := x) (by simp [reduceOrder, hu]), List.filter_cons_of_pos (by simp [hu]),
        List.filter_cons_of_neg (by simp [hu])]
      exact ih.cons x

theorem fillUuid_of_mem_remaining {x : ExitOrder} (hx : x ∈ remaining xs c) : x.fillUuid = c.1 := by
  obtain ⟨y, hy, rfl⟩ := List.mem_map.1 hx
  have hy' := (List.mem_filter.1 hy).2
  simp only [decide_eq_true_eq] at hy'
  exact hy'.1

/-- The first fill is listed once, so the rest of the list does not concern what remains of its orders. -/
theorem unlisted_reduced (hc : c.1 ∉ closed.map Prod.fst) :
    unlisted closed (unlisted [c] xs ++ remaining xs c) = unlisted (c :: closed) xs ++ remaining xs c := by
  have hkeep : unlisted closed (remaining xs c) = remaining xs c := by
    refine List.filter_eq_self.2 fun x hx => ?_
    rw [fillUuid_of_mem_remaining hx]
    exact decide_eq_true hc
  have hboth : unlisted closed (unlisted [c] xs) = unlisted (c :: closed) xs := by
    unfold unlisted
    rw [List.filter_filter]
    refine List.filter_congr fun x _ => ?_
    rw [List.map_cons, List.map_cons, List.map_nil, Bool.and_comm]
    simp only [List.mem_cons, List.not_mem_nil, or_false, not_or, Bool.decide_and]
  calc unlisted closed (unlisted [c] xs ++ remaining xs c)
      = unlisted closed (unlisted [c] xs) ++ unlisted closed (remaining xs c) := List.filter_append _ _
    _ = unlisted (c :: closed) xs ++ remaining xs c := by rw [hboth, hkeep]

/-- What remains of the orders of another fill. -/
theorem remaining_reduced {c' : Uuid × ℚ} (hc : c'.1 ≠ c.1) :
    remaining (unlisted [c] xs ++ remaining xs c) c' = remaining xs c' := by
  have hnone : (remaining xs c).filter (fun x => x.fillUuid = c'.1 ∧ x.triggerQuantity > c'.2) = [] := by
    refine List.filter_eq_nil_iff.2 fun x hx h => hc ?_
    rw [← fillUuid_of_mem_remaining hx]
    exact (of_decide_eq_true h).1.symm
  have hsame : (unlisted [c] xs).filter (fun x => x.fillUuid = c'.1 ∧ x.triggerQuantity > c'.2) =
      xs.filter fun x => x.fillUuid = c'.1 ∧ x.triggerQuantity > c'.2 := by
    unfold unlisted
    rw [List.filter_filter]
    refine List.filter_congr fun x _ => ?_
    rw [Bool.and_eq_left_iff_imp]
    intro h
    rw [decide_eq_true_eq] at h ⊢
    simp [h.1, hc]
  calc remaining (unlisted [c] xs ++ remaining xs c) c'
      = (((unlisted [c] xs).filter fun x => x.fillUuid = c'.1 ∧ x.triggerQuantity > c'.2) ++
          (remaining xs c).filter fun x => x.fillUuid = c'.1 ∧ x.triggerQuantity > c'.2).map (lowered c'.2) := by
        rw [← List.filter_append]
        rfl
    _ = remaining xs c' := by
        rw [hsame, hnone, List.append_nil]
        rfl

/-- All closed fills: orders without a listed fill stay, and of the others what is more than their fill's quantity. -/
theorem reduceOrders_pointwise (hnodup : (closed.map Prod.fst).Nodup) (xs : List ExitOrder) :
    (reduceOrders closed xs).Perm (unlisted closed xs ++ closed.flatMap (remaining xs)) := by
  induction closed generalizing xs with
  | nil =>
    have hall : unlisted [] xs = xs := List.filter_eq_self.2 fun _ _ => by simp
    rw [hall, List.flatMap_nil, List.append_nil]
    exact List.Perm.refl _
  | cons c closed ih =>
    rw [List.map_cons, List.nodup_cons] at hnodup
    have hrest : closed.flatMap (remaining (unlisted [c] xs ++ remaining xs c)) = closed.flatMap (remaining xs) := by
      refine List.flatMap_congr fun c' hc' => remaining_reduced fun heq => hnodup.1 ?_
      exact heq ▸ List.mem_map_of_mem hc'
    have hreduced := (reduceOrders_perm closed (filterMap_reduceOrder_perm c xs)).trans
      (ih hnodup.2 (unlisted [c] xs ++ remaining xs c))
    rw [unlisted_reduced hnodup.1, hrest, List.append_assoc] at hreduced
    exact hreduced

end Pointwise

/-- Reducing by closed fills is a pointwise update: all loops end; each heap holds, unchanged, the orders whose fill
is not listed and, lowered by the listed quantity, those of a listed fill that are good for more; and a list in
another order gives the same. -/
theorem reduceExitOrdersByFills_pointwise (b : ExitOrderBook) (closed : List (Uuid × ℚ))
    (hnodup : (closed.map Prod.fst).Nodup) :
    (∀ limit, Fits limit b → reduceExitOrdersByFills? limit b closed = some (b.reduceExitOrdersByFills closed)) ∧
      (∀ kind, ((b.reduceExitOrdersByFills closed).heap kind).toList.Perm
        (unlisted closed (b.heap kind).toList ++ closed.flatMap (remaining (b.heap kind).toList))) ∧
      ∀ closed', closed.Perm closed' → ∀ kind, ((b.reduceExitOrdersByFills closed').heap kind).toList.Perm
        ((b.reduceExitOrdersByFills closed).heap kind).toList := by
  have hpointwise : ∀ closed' : List (Uuid × ℚ), (closed'.map Prod.fst).Nodup → ∀ kind,
      ((b.reduceExitOrdersByFills closed').heap kind).toList.Perm
        (unlisted closed' (b.heap kind).toList ++ closed'.flatMap (remaining (b.heap kind).toList)) :=
    fun closed' h kind => (toList_reduceExitOrdersByFills b closed' kind).trans (reduceOrders_pointwise h _)
  refine ⟨fun limit hfits => reduceExitOrdersByFills?_eq hfits closed, hpointwise closed hnodup, ?_⟩
  intro closed' hperm kind
  have hnodup' : (closed'.map Prod.fst).Nodup := (hperm.map Prod.fst).nodup_iff.1 hnodup
  have hunlisted : unlisted closed' (b.heap kind).toList = unlisted closed (b.heap kind).toList := by
    refine List.filter_congr fun x _ => ?_
    simp only [(hperm.map Prod.fst).mem_iff]
  have hremaining := hperm.flatMap_right (remaining (b.heap kind).toList)
  refine (hpointwise closed' hnodup' kind).trans ?_
  rw [hunlisted]
  exact (hremaining.symm.append_left _).trans (hpointwise closed hnodup kind).symm

/-- A stop loss at the given price for so much of a lot. -/
def stopLossAt (triggerPrice : Money) (fillUuid : Uuid) (triggerQuantity : ℚ) : ExitOrder :=
  ⟨.stopLoss, false, triggerQuantity, triggerPrice, 0, 0, "A", fillUuid⟩

/-- Of ten shares four are closed, of five all. -/
theorem reduceExitOrdersByFills_pointwise_two_fills :
    let b : ExitOrderBook := ⟨⟨#[stopLossAt 90 "a" 10, stopLossAt 95 "b" 5, stopLossAt 95 "c" 7]⟩, ⟨#[]⟩⟩
    ((b.reduceExitOrdersByFills [("b", 5), ("a", 4)]).heap .stopLoss).toList.Perm
      [stopLossAt 95 "c" 7, stopLossAt 90 "a" 6] := by
  intro b
  have h := (reduceExitOrdersByFills_pointwise b [("b", 5), ("a", 4)] (by decide)).2.1 .stopLoss
  have hlist : unlisted [("b", 5), ("a", 4)] (b.heap .stopLoss).toList ++
      [("b", 5), ("a", 4)].flatMap (remaining (b.heap .stopLoss).toList) =
        [stopLossAt 95 "c" 7, stopLossAt 90 "a" 6] := by
    decide +kernel
  rwa [hlist] at h

end ExitOrderBook

end QuantForge
