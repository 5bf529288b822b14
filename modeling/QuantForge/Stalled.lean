import QuantForge.Steps
import QuantForge.Updates

/-!
# A loop that does not end

With fractional shares an order of which nothing may be filled is filled with zero shares and put back whole.  A
sell-limit heap with such an order within reach keeps its loop busy forever (`Stalled.not_halts`).
-/

namespace QuantForge

namespace BackTestEngine

open Executor

variable {createUuid : ℕ → Uuid} {hp : HostParams}

/-- The commission on a fill of zero shares. -/
def zeroFillCommission (hp : HostParams) : Money :=
  match hp.commissionType with
  | some .flat => Money.fromDollars (hp.commission.getD 0)
  | _ => 0

/-- A sell-limit heap with a single order `o` within reach, of which nothing may be filled, above a long position. -/
structure Stalled (hp : HostParams) (o : Order) (limit : Money) (e : BackTestEngine) : Prop where
  fractional : hp.fractional = true
  cap : ∃ p, hp.fillMaxPctOfVolume = some p ∧ e.state.getSymbolVolume o.symbol * p = 0
  limitOrder : o.isLimitOrder = true
  limitPrice : o.limitPrice = some limit
  isBuy : o.isBuy = false
  isExitOrder : o.isExitOrder = false
  leverage : 1 ≤ o.leverage.getD 1 ∧ o.leverage.getD 1 ≤ hp.maxLeverage.getD 1
  quantity : 0 < o.quantity
  heap : (e.limitOrderBook.heap .sell o.symbol).toList = [⟨o, limit⟩]
  prices : e.state.hasSymbolPrices o.symbol = true
  volume : e.state.hasSymbolVolume o.symbol = true
  reached : limit ≤ e.state.getSymbolHigh o.symbol
  named : ∀ p, e.state.positions.lookup o.symbol = some p → p.symbol = o.symbol
  position : Constants.epsilon ≤ e.state.positionQuantity o.symbol
  cash : zeroFillCommission hp ≤ e.state.cash
  free : o.isSell = true → zeroFillCommission hp = 0

namespace Stalled

variable {o : Order} {limit : Money} {e : BackTestEngine}

private theorem fillable (h : Stalled hp o limit e) :
    fillableQuantity o hp e.state = 0 ∧ remainingQuantity o hp e.state = o.quantity := by
  obtain ⟨p, hcap, hzero⟩ := h.cap
  have hq : getFillableAndRemainingQuantities o hp e.state = (0, o.quantity) := by
    simp [getFillableAndRemainingQuantities, hcap, hzero, h.quantity]
  simp [fillableQuantity, remainingQuantity, hq, h.fractional]

private theorem opening (h : Stalled hp o limit e) : positionOpeningQuantity o hp e.state = 0 := by
  have hlong : 0 < e.state.positionQuantity o.symbol := lt_of_lt_of_le Constants.epsilon_pos h.position
  simp [positionOpeningQuantity, calculatePositionOpeningQuantity, newPositionQuantity, h.isBuy, h.fillable.1,
    not_le.2 hlong, hlong.le]

private theorem commission_eq (h : Stalled hp o limit e) (uuid : Uuid) :
    commission o hp e.state uuid = zeroFillCommission hp := by
  unfold commission Exchange.calculateCommision zeroFillCommission
  rcases hp.commissionType with _ | (_ | _ | _)
  · rfl
  · simp [makeFill, h.fillable.1]
  · simp [makeFill, h.fillable.1]
  · by_cases h0 : hp.commission.getD 0 = 0
    · simp [h0, Money.fromDollars]
    · simp [h0]

private theorem accepted (h : Stalled hp o limit e) (uuid : Uuid) : Accepted o hp e.state uuid where
  quantity_pos := h.quantity
  prices := h.prices
  volume := h.volume
  source := fun hx => by rw [h.isExitOrder] at hx; cases hx
  whole := fun hf => by rw [h.fractional] at hf; cases hf
  margin := by
    have hlong : 0 ≤ e.state.positionQuantity o.symbol := Constants.epsilon_pos.le.trans h.position
    have hnew : ¬ newPositionQuantity o hp e.state < 0 := by
      simp [newPositionQuantity, h.fillable.1, hlong]
    have hclose : calculateClosingMarginInfo o (calculateFillPrice o e.state) 0 e.state = ⟨0, 0⟩ := by
      simp [calculateClosingMarginInfo, Constants.epsilon_pos.le]
    simp only [validateMargin, hnew, h.opening, h.fillable.1, h.commission_eq, hclose]
    simpa [not_lt.2 h.leverage.1, not_lt.2 h.leverage.2, Constants.epsilon_pos.le] using fun _ => h.cash

private theorem cashDelta (h : Stalled hp o limit e) (uuid : Uuid) : (success o hp e.state uuid).cashDelta = 0 := by
  have hmargin : marginRequired o hp e.state = 0 := by
    simp [marginRequired, h.opening, Constants.epsilon_pos.le]
  simp only [success, calculateCashDelta, h.opening, h.fillable.1, hmargin, h.commission_eq, h.isBuy, sub_zero]
  by_cases hs : o.isSell = true
  · simp [hs, h.free hs, calculateClosingMarginInfo, Constants.epsilon_pos.le]
  · simp [hs]

private theorem position_eq (h : Stalled hp o limit e) (uuid : Uuid) :
    (success o hp e.state uuid).position.quantity = e.state.positionQuantity o.symbol := by
  have hbig : ¬ |e.state.positionQuantity o.symbol| < Constants.epsilon :=
    not_lt.2 (h.position.trans (le_abs_self _))
  show (PositionCalc.calculatePosition o (fillableQuantity o hp e.state) (calculateFillPrice o e.state)
    e.state).quantity
    = _
  by_cases hs : o.isSell = true
  · rw [PositionCalc.calculatePosition_quantity (d := .sell) hs, h.fillable.1]
    simp [hbig]
  · rw [PositionCalc.calculatePosition_quantity_unknown h.isBuy (by simpa using hs), if_neg hbig]

private theorem remainder (h : Stalled hp o limit e) : partialOrder o hp e.state = some o := by
  unfold partialOrder
  rw [h.fillable.2, if_pos h.quantity]

private theorem top (h : Stalled hp o limit e) : (e.limitOrderBook.heap .sell o.symbol).top = some ⟨o, limit⟩ := by
  have := h.heap
  simp only [BinaryHeap.toList] at this
  simp [BinaryHeap.top, ← Array.getElem?_toList, this]

private theorem pop (h : Stalled hp o limit e) : (e.limitOrderBook.heap .sell o.symbol).pop.toList = [] := by
  have hlen := (BinaryHeap.toList_pop h.top).length_eq
  rw [h.heap] at hlen
  simpa using hlen

variable (o e) in
/-- The engine with the order taken out of its heap. -/
private def popped : BackTestEngine :=
  { e with limitOrderBook := e.limitOrderBook.setHeap .sell o.symbol (e.limitOrderBook.heap .sell o.symbol).pop }

/-- The remainder is the order itself, and it is the only one in the heap again. -/
private theorem heap_execute (h : Stalled hp o limit e) (createUuid : ℕ → Uuid) :
    ((execute createUuid hp (popped o e) o).limitOrderBook.heap .sell o.symbol).toList = [⟨o, limit⟩] := by
  have ha : Accepted o hp (popped o e).state (createUuid (popped o e).uuidCount) := h.accepted _
  have hbook : (execute createUuid hp (popped o e) o).limitOrderBook =
      (popped o e).limitOrderBook.addLimitOrder .sell ⟨o, limit⟩ := by
    rw [execute_accepted ha]
    show ((popped o e).scheduleRemainder _ hp).limitOrderBook = _
    unfold scheduleRemainder
    rw [show (success o hp (popped o e).state (createUuid (popped o e).uuidCount)).partialOrder = some o
      from h.remainder]
    simp [schedule, h.limitPrice, h.limitOrder, h.isBuy]
  have hpush := BinaryHeap.toList_push (e.limitOrderBook.heap .sell o.symbol).pop ⟨o, limit⟩
  rw [h.pop, List.perm_singleton] at hpush
  rw [hbook]
  simpa [LimitOrderBook.addLimitOrder, LimitOrderBook.setHeap, LimitOrderBook.setLimits, LimitOrderBook.heap,
    LimitOrderBook.limits, popped] using hpush

/-- An execution that fills nothing leaves the account as it finds it: the loop is where it was. -/
private theorem execute_popped (h : Stalled hp o limit e) (createUuid : ℕ → Uuid) :
    Stalled hp o limit (execute createUuid hp (popped o e) o) := by
  have ha : Accepted o hp (popped o e).state (createUuid (popped o e).uuidCount) := h.accepted _
  have hb := State.updateState_booking (s := e.state) (r := success o hp e.state (createUuid e.uuidCount)) rfl
  have hsym : (success o hp e.state (createUuid e.uuidCount)).position.symbol = o.symbol :=
    PositionCalc.calculatePosition_symbol h.named _ _
  have hstate : (execute createUuid hp (popped o e) o).state =
      e.state.updateState (success o hp e.state (createUuid e.uuidCount)) := by
    rw [execute_accepted ha]
    rfl
  have hvol : (execute createUuid hp (popped o e) o).state.currentBarVolumes = e.state.currentBarVolumes := by
    rw [hstate, hb.currentBarVolumes]
  have hprices : (execute createUuid hp (popped o e) o).state.currentBarPrices = e.state.currentBarPrices := by
    rw [hstate, hb.currentBarPrices]
  have hquantity : (execute createUuid hp (popped o e) o).state.positionQuantity o.symbol =
      e.state.positionQuantity o.symbol := by
    rw [hstate, State.updateState_positionQuantity (r := success o hp e.state (createUuid e.uuidCount)) hsym,
      h.position_eq]
    exact if_pos rfl
  exact {
    h with
    cap := by simpa only [State.getSymbolVolume, hvol] using h.cap
    prices := by simpa only [State.hasSymbolPrices, hprices] using h.prices
    volume := by simpa only [State.hasSymbolVolume, hvol] using h.volume
    reached := by simpa only [State.getSymbolHigh, State.symbolPrices, hprices] using h.reached
    position := by rw [hquantity]; exact h.position
    cash := by rw [hstate, hb.cash, h.cashDelta, add_zero]; exact h.cash
    heap := h.heap_execute createUuid
    named := by
      intro p hp
      rw [hstate, hb.positions, hsym, if_neg (by
        rw [h.position_eq]
        exact (lt_of_lt_of_le Constants.epsilon_pos h.position).ne'), AList.lookup_insert] at hp
      cases hp
      exact hsym }

/-- The order is taken out, filled with nothing, and put back. -/
private theorem step (h : Stalled hp o limit e) (createUuid : ℕ → Uuid) (symbols : List Symbol) :
    ∃ e', processSellLimits createUuid hp (o.symbol :: symbols, e) = some (o.symbol :: symbols, e') ∧
      Stalled hp o limit e' := by
  refine ⟨execute createUuid hp (popped o e) o, ?_, h.execute_popped createUuid⟩
  have hreach : limitOutOfReach e.state .sell o.symbol ⟨o, limit⟩ = false := by
    simpa [limitOutOfReach] using h.reached
  simp only [processSellLimits, processLimits, h.prices, h.top, hreach]
  rfl

/-- The sell-limit loop does not end. -/
theorem not_halts (h : Stalled hp o limit e) (createUuid : ℕ → Uuid) (symbols : List Symbol) :
    ¬ Loop.Halts (processSellLimits createUuid hp) (o.symbol :: symbols, e) := by
  refine Loop.not_halts_of_closed (P := fun p => p.1 = o.symbol :: symbols ∧ Stalled hp o limit p.2) ?_ ⟨rfl, h⟩
  rintro ⟨-, e⟩ ⟨rfl, h⟩
  obtain ⟨e', he', h'⟩ := h.step createUuid symbols
  exact ⟨_, he', rfl, h'⟩

end Stalled

end BackTestEngine

end QuantForge
