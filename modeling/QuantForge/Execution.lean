import QuantForge.Engine

/-!
# What an execution does

`executeOrder` succeeds exactly when its checks pass (`Accepted`), and then with the result `success`
(`executeOrder_ok_iff`).  `execute` on an accepted order is given field by field; on a rejected one only the uuid
counter moves.
-/

namespace QuantForge

namespace Executor

/-- The checks of `execute_order`, in the order of the source. -/
structure Accepted (o : Order) (hp : HostParams) (s : State) (uuid : Uuid) : Prop where
  quantity_pos : 0 < o.quantity
  prices : s.hasSymbolPrices o.symbol = true
  volume : s.hasSymbolVolume o.symbol = true
  source : o.isExitOrder = true → sourceInactive o s = false
  whole : hp.fractional = false → 0 < fillableQuantity o hp s
  margin : validateMargin o (calculateFillPrice o s) (commission o hp s uuid) hp s (positionOpeningQuantity o hp s)
    (newPositionQuantity o hp s) (marginRequired o hp s) (fillableQuantity o hp s) = none

theorem executeOrder_ok_iff {o : Order} {hp : HostParams} {s : State} {uuid : Uuid} {r : ExecutionResultSuccess} :
    executeOrder o hp s uuid = .ok r ↔ Accepted o hp s uuid ∧ r = success o hp s uuid := by
  constructor
  · intro h
    unfold executeOrder at h
    split at h
    · cases h
    · rename_i h1
      split at h
      · cases h
      · rename_i h2
        split at h
        · cases h
        · rename_i h3
          split at h
          · cases h
          · rename_i h4
            split at h
            · cases h
            · rename_i h5
              split at h
              · cases h
              · rename_i h6
                refine ⟨⟨not_le.1 h1, by simpa using h2, by simpa using h3, ?_, ?_, h6⟩, (Except.ok.inj h).symm⟩
                · intro hx; simpa [hx] using h4
                · intro hf; simpa [hf] using h5
  · rintro ⟨h, rfl⟩
    have h4 : (o.isExitOrder && sourceInactive o s) = false := by
      rw [Bool.and_eq_false_iff]
      by_cases hx : o.isExitOrder = true
      · exact Or.inr (h.source hx)
      · exact Or.inl (by simpa using hx)
    have h5 : (!hp.fractional && decide (fillableQuantity o hp s ≤ 0)) = false := by
      rw [Bool.and_eq_false_iff]
      by_cases hf : hp.fractional = true
      · exact Or.inl (by simp [hf])
      · exact Or.inr (by simpa using h.whole (by simpa using hf))
    simp [executeOrder, not_le.2 h.quantity_pos, h.prices, h.volume, h4, h5, h.margin]

theorem executeOrder_cases (o : Order) (hp : HostParams) (s : State) (uuid : Uuid) :
    (∃ m, executeOrder o hp s uuid = .error m) ∨
      (Accepted o hp s uuid ∧ executeOrder o hp s uuid = .ok (success o hp s uuid)) := by
  rcases h : executeOrder o hp s uuid with m | r
  · exact Or.inl ⟨m, rfl⟩
  · obtain ⟨ha, rfl⟩ := executeOrder_ok_iff.1 h
    exact Or.inr ⟨ha, rfl⟩

theorem isOk_executeOrder_iff {o : Order} {hp : HostParams} {s : State} {uuid : Uuid} :
    (executeOrder o hp s uuid).isOk = true ↔ Accepted o hp s uuid := by
  rcases h : executeOrder o hp s uuid with m | r
  · refine iff_of_false Bool.false_ne_true fun ha => ?_
    rw [executeOrder_ok_iff.2 ⟨ha, rfl⟩] at h
    cases h
  · exact iff_of_true rfl (executeOrder_ok_iff.1 h).1

instance (o : Order) (hp : HostParams) (s : State) (uuid : Uuid) : Decidable (Accepted o hp s uuid) :=
  decidable_of_iff _ isOk_executeOrder_iff

/-- Before rounding the two parts are the order. -/
theorem fillable_add_remaining (o : Order) (hp : HostParams) (s : State) :
    (getFillableAndRemainingQuantities o hp s).1 + remainingQuantity o hp s = o.quantity ∧
      0 ≤ remainingQuantity o hp s := by
  unfold remainingQuantity getFillableAndRemainingQuantities
  split
  · dsimp only
    split
    · rename_i h
      exact ⟨add_sub_cancel _ _, sub_nonneg.2 (le_of_lt h)⟩
    · exact ⟨add_zero _, le_refl _⟩
  · exact ⟨add_zero _, le_refl _⟩

/-- The shares an order asks for, whole ones unless fractional shares are allowed. -/
def orderedQuantity (o : Order) (hp : HostParams) : ℚ := if hp.fractional then o.quantity else ⌊o.quantity⌋

theorem orderedQuantity_le (o : Order) (hp : HostParams) : orderedQuantity o hp ≤ o.quantity := by
  unfold orderedQuantity
  split
  · exact le_refl _
  · exact Int.floor_le _

/-- No more is filled than is asked for. -/
theorem fillableQuantity_le_ordered {o : Order} {hp : HostParams} {s : State} :
    fillableQuantity o hp s ≤ orderedQuantity o hp := by
  have hle : (getFillableAndRemainingQuantities o hp s).1 ≤ o.quantity := by
    linarith [fillable_add_remaining o hp s]
  unfold fillableQuantity orderedQuantity
  split
  · exact hle
  · exact Int.cast_le.2 (Int.floor_le_floor hle)

/-- An order that the volume allows in full is filled as it asks. -/
theorem fillableQuantity_eq_ordered {o : Order} {hp : HostParams} {s : State}
    (hfull : ∀ p ∈ hp.fillMaxPctOfVolume, o.quantity ≤ s.getSymbolVolume o.symbol * p) :
    fillableQuantity o hp s = orderedQuantity o hp := by
  have heq : (getFillableAndRemainingQuantities o hp s).1 = o.quantity := by
    unfold getFillableAndRemainingQuantities
    split
    · rename_i p hp'
      rw [if_neg (not_lt.2 (hfull p hp'))]
    · rfl
  unfold fillableQuantity orderedQuantity
  rw [heq]

/-- With fractional shares nothing negative is filled if the cap allows no negative quantity; without them the check
for a positive quantity sees to it. -/
theorem Accepted.fillableQuantity_nonneg {o : Order} {hp : HostParams} {s : State} {uuid : Uuid}
    (ha : Accepted o hp s uuid)
    (hcap : hp.fractional = true → ∀ p ∈ hp.fillMaxPctOfVolume, 0 ≤ s.getSymbolVolume o.symbol * p) :
    0 ≤ fillableQuantity o hp s := by
  rcases hf : hp.fractional with _ | _
  · exact (ha.whole hf).le
  · unfold fillableQuantity getFillableAndRemainingQuantities
    rw [if_pos hf]
    rcases hp' : hp.fillMaxPctOfVolume with _ | p
    · exact ha.quantity_pos.le
    · dsimp only
      split
      · exact hcap hf p hp'
      · exact ha.quantity_pos.le

/-- A remainder differs from its order in the quantity only. -/
theorem partialOrder_eq {o o' : Order} {hp : HostParams} {s : State} (h : partialOrder o hp s = some o') :
    o' = { o with quantity := remainingQuantity o hp s } ∧ 0 < remainingQuantity o hp s := by
  unfold partialOrder at h
  split at h
  · rename_i hpos
    exact ⟨(Option.some.inj h).symm, hpos⟩
  · cases h

end Executor

namespace BackTestEngine

open Executor

variable {createUuid : ℕ → Uuid} {hp : HostParams} {e : BackTestEngine} {o : Order}

theorem execute_of_error {m : String} (h : executeOrder o hp e.state (createUuid e.uuidCount) = .error m) :
    execute createUuid hp e o = { e with uuidCount := e.uuidCount + 1 } := by
  simp [execute, h, handleExecutionResult]

/-- The exit book after an accepted execution. -/
def exitBookAfter (e : BackTestEngine) (r : ExecutionResultSuccess) : ExitOrderBook :=
  r.exitOrders.foldl ExitOrderBook.addExitOrder
    (e.exitOrderBook.reduceExitOrdersByFills (fillsClosedBy r.fill e.state))

/-- Scheduling reads the state and writes the two order books. -/
theorem schedule_congr {e e' : BackTestEngine} (hs : e'.state = e.state) (ho : e'.orderBook = e.orderBook)
    (hl : e'.limitOrderBook = e.limitOrderBook) (o : Order) (hp : HostParams) :
    e'.schedule o hp =
      { e' with orderBook := (e.schedule o hp).orderBook, limitOrderBook := (e.schedule o hp).limitOrderBook } := by
  unfold schedule
  split
  · split
    · rw [hl, ← ho]
    · rw [hs, ho, ← hl]
  · rw [hs, ho, ← hl]

theorem scheduleRemainder_congr (e e' : BackTestEngine) (hs : e'.state = e.state) (ho : e'.orderBook = e.orderBook)
    (hl : e'.limitOrderBook = e.limitOrderBook) (r : ExecutionResultSuccess) (hp : HostParams) :
    e'.scheduleRemainder r hp =
      { e' with
        orderBook := (e.scheduleRemainder r hp).orderBook
        limitOrderBook := (e.scheduleRemainder r hp).limitOrderBook } := by
  unfold scheduleRemainder
  split
  · exact schedule_congr hs ho hl _ hp
  · rw [← ho, ← hl]

/-- An accepted execution, field by field. -/
theorem execute_accepted (h : Accepted o hp e.state (createUuid e.uuidCount)) :
    execute createUuid hp e o =
      { state := e.state.updateState (success o hp e.state (createUuid e.uuidCount))
        orderBook := (e.scheduleRemainder (success o hp e.state (createUuid e.uuidCount)) hp).orderBook
        exitOrderBook := e.exitBookAfter (success o hp e.state (createUuid e.uuidCount))
        limitOrderBook := (e.scheduleRemainder (success o hp e.state (createUuid e.uuidCount)) hp).limitOrderBook
        uuidCount := e.uuidCount + 1
        processed := e.processed
        executions :=
          e.executions ++ [⟨o, success o hp e.state (createUuid e.uuidCount), e.processed.length⟩] } := by
  have hok := executeOrder_ok_iff.2 ⟨h, rfl⟩
  simp only [execute, hok, handleExecutionResult, applySuccess]
  have hs := scheduleRemainder_congr e
    { e with
      exitOrderBook := e.exitBookAfter (success o hp e.state (createUuid e.uuidCount))
      uuidCount := e.uuidCount + 1 } rfl rfl rfl (success o hp e.state (createUuid e.uuidCount)) hp
  unfold exitBookAfter at hs ⊢
  rw [hs]

/-- An execution is rejected and only draws a uuid, or it is accepted. -/
theorem execute_cases (createUuid : ℕ → Uuid) (hp : HostParams) (e : BackTestEngine) (o : Order) :
    execute createUuid hp e o = { e with uuidCount := e.uuidCount + 1 } ∨
      Accepted o hp e.state (createUuid e.uuidCount) := by
  rcases executeOrder_cases o hp e.state (createUuid e.uuidCount) with ⟨m, hm⟩ | ⟨ha, -⟩
  · exact Or.inl (execute_of_error hm)
  · exact Or.inr ha

/-- The account after an execution. -/
theorem execute_state (createUuid : ℕ → Uuid) (hp : HostParams) (e : BackTestEngine) (o : Order) :
    (execute createUuid hp e o).state = e.state ∨
      (Accepted o hp e.state (createUuid e.uuidCount) ∧
        (execute createUuid hp e o).state = e.state.updateState (success o hp e.state (createUuid e.uuidCount))) := by
  rcases execute_cases createUuid hp e o with h | h
  · exact Or.inl (by rw [h])
  · exact Or.inr ⟨h, by rw [execute_accepted h]⟩

end BackTestEngine

end QuantForge
