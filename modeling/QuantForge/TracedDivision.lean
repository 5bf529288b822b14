import Mathlib.Control.Monad.Writer
import QuantForge.Divisors

/-!
# Divisions on record

The functions that divide, with the divisors written down as they are met.  Each yields what the function of the model
yields, and its record is the list of divisors given for that function (`Traced.execute_eq`, `Traced.endOfBar_eq`,
`Traced.stepDivisors_eq`).  The constant base of `Money` is no divisor.
-/

namespace QuantForge

/-- A value, and the numbers divided by on the way to it. -/
abbrev Traced := Writer (List ℚ)

namespace Traced

variable {α β : Type}

def divide (x divisor : ℚ) : Traced ℚ := do
  tell [divisor]
  return x / divisor

theorem divide_eq (x divisor : ℚ) : (divide x divisor).run = (x / divisor, [divisor]) := rfl

theorem pure_eq (a : α) : (pure a : Traced α).run = (a, []) := rfl

/-- Two computations one after the other. -/
theorem bind_eq {m : Traced α} {a : α} {l : List ℚ} (h : m.run = (a, l)) (f : α → Traced β) :
    (m >>= f).run = ((f a).run.1, l ++ (f a).run.2) := by
  show ((f m.run.1).run.1, m.run.2 ++ (f m.run.1).run.2) = _
  rw [h]

/-- A computation and a function of its value. -/
theorem bind_pure_eq {m : Traced α} {a : α} {l : List ℚ} (h : m.run = (a, l)) (f : α → β) :
    (m >>= fun x => pure (f x)).run = (f a, l) := by
  rw [bind_eq h, pure_eq, List.append_nil]

/-! ### Slippage, sizes and positions -/

def calculateSlippageTimeNs (order : Order) (hp : HostParams) (s : State) : Traced ℤ :=
  match hp.slippageModel with
  | none => return s.currentTimestampNs
  | some .none => return s.currentTimestampNs
  | some .timeBased =>
    return s.currentTimestampNs + Rounding.truncZero (hp.slippage.getD 0 * Constants.nanosecondsPerMillisecond)
  | some .timeVolumeBased =>
    if !s.hasSymbolVolume order.symbol then return s.currentTimestampNs
    else do
      let sizeRatio ← divide order.quantity (s.getSymbolVolume order.symbol)
      let delaySeconds := hp.slippage.getD 1 * sizeRatio
      return s.currentTimestampNs + Rounding.truncZero (delaySeconds * Constants.nanosecondsPerSecond)

theorem calculateSlippageTimeNs_eq (order : Order) (hp : HostParams) (s : State) :
    (calculateSlippageTimeNs order hp s).run =
      (QuantForge.calculateSlippageTimeNs order hp s, slippageDivisors order hp s) := by
  unfold calculateSlippageTimeNs QuantForge.calculateSlippageTimeNs slippageDivisors
  rcases hp.slippageModel with _ | (_ | _ | _)
  · rfl
  · rfl
  · rfl
  · dsimp only
    split <;> rfl

def moneyDiv (m : Money) (scalar : ℚ) : Traced Money := return Rounding.roundAway (← divide m scalar)

theorem moneyDiv_eq (m : Money) (scalar : ℚ) : (moneyDiv m scalar).run = (Money.div m scalar, [scalar]) := rfl

def calculateSignalPositionSize (signal : Signal) (hp : HostParams) (s : State) : Traced ℚ :=
  let currentPrice := s.getSymbolClose signal.symbol
  let equity := s.calculateEquity
  let positionSizeValue := hp.positionSizeValue.getD Constants.defaultPositionSizeValue
  let clamp (quantity : ℚ) : ℚ :=
    match hp.maxPositionSize with
    | some m => if quantity > m then m else quantity
    | none => quantity
  match hp.positionSizingMethod.getD .fixedPercentage with
  | .fixedPercentage =>
    return clamp (← divide (Money.toDollars (Money.mul equity positionSizeValue)) (Money.toDollars currentPrice))
  | .fixedDollar => return clamp (← divide positionSizeValue (Money.toDollars currentPrice))
  | .equalWeight =>
    if hp.symbols.length = 0 then return 0
    else do
      let share ← moneyDiv equity hp.symbols.length
      return clamp (← divide (Money.toDollars share) (Money.toDollars currentPrice))

theorem calculateSignalPositionSize_eq (signal : Signal) (hp : HostParams) (s : State) :
    (calculateSignalPositionSize signal hp s).run =
      (PositionCalc.calculateSignalPositionSize signal hp s, PositionCalc.signalSizeDivisors signal hp s) := by
  unfold calculateSignalPositionSize PositionCalc.calculateSignalPositionSize PositionCalc.signalSizeDivisors
  dsimp only
  rcases hp.positionSizingMethod.getD .fixedPercentage with _ | _ | _
  · rfl
  · rfl
  · dsimp only
    split <;> rfl

def blendedPrice (average : Money) (held : ℚ) (price : Money) (quantity total : ℚ) : Traced Money :=
  moneyDiv (Money.mul average held + Money.mul price quantity) total

def calculatePosition (order : Order) (fillableQuantity : ℚ) (fillPrice : Money) (s : State) : Traced Position := do
  let position := s.getSymbolPositionOr order.symbol ⟨order.symbol, 0, 0⟩
  let oldQuantity := position.quantity
  let position ←
    if order.isBuy then do
      let newQuantity := oldQuantity + fillableQuantity
      let averagePrice ←
        if oldQuantity < 0 ∧ newQuantity > 0 then pure fillPrice
        else if oldQuantity ≥ 0 then
          blendedPrice position.averagePrice oldQuantity fillPrice fillableQuantity newQuantity
        else pure position.averagePrice
      pure { position with averagePrice := averagePrice, quantity := newQuantity }
    else if order.isSell then do
      let newQuantity := oldQuantity - fillableQuantity
      let averagePrice ←
        if oldQuantity > 0 ∧ newQuantity < 0 then pure fillPrice
        else if oldQuantity ≤ 0 then
          blendedPrice position.averagePrice |oldQuantity| fillPrice fillableQuantity |newQuantity|
        else pure position.averagePrice
      pure { position with averagePrice := averagePrice, quantity := newQuantity }
    else pure position
  return if |position.quantity| < Constants.epsilon then { position with quantity := 0, averagePrice := 0 }
    else position

theorem calculatePosition_eq (order : Order) (fillableQuantity : ℚ) (fillPrice : Money) (s : State) :
    (calculatePosition order fillableQuantity fillPrice s).run =
      (PositionCalc.calculatePosition order fillableQuantity fillPrice s,
        PositionCalc.positionDivisors order fillableQuantity s) := by
  unfold calculatePosition PositionCalc.calculatePosition PositionCalc.positionDivisors
  dsimp only
  split
  · split
    · rfl
    · split <;> rfl
  · split
    · split
      · rfl
      · split <;> rfl
    · rfl

/-! ### The state -/

def closeLot (s : State) (side : Side) (uuid : Uuid) (available toClose : ℚ) : Traced State := do
  let quantity := available - toClose
  let s := s.setActive side
    (if quantity ≤ Constants.epsilon then (s.active side).erase uuid else (s.active side).insert uuid quantity)
  match s.activeMarginForFills.lookup uuid with
  | none => return s
  | some totalMarginForFill =>
    let marginToFree := Money.mul totalMarginForFill (← divide toClose available)
    let margin := totalMarginForFill - marginToFree
    if Money.toDollars margin ≤ Constants.epsilon then
      return { s with
        marginInUse := s.marginInUse - marginToFree
        activeMarginForFills := s.activeMarginForFills.erase uuid
        activeLeverageForFills := s.activeLeverageForFills.erase uuid }
    else
      return { s with
        marginInUse := s.marginInUse - marginToFree
        activeMarginForFills := s.activeMarginForFills.insert uuid margin }

theorem closeLot_eq (s : State) (side : Side) (uuid : Uuid) (available toClose : ℚ) :
    (closeLot s side uuid available toClose).run =
      (s.closeLot side uuid available toClose, s.lotDivisors uuid available) := by
  have hmargin : ∀ m, (s.setActive side m).activeMarginForFills = s.activeMarginForFills := by
    intro m
    cases side <;> rfl
  unfold closeLot State.closeLot State.lotDivisors
  dsimp only
  rw [hmargin]
  rcases s.activeMarginForFills.lookup uuid with _ | total
  · rfl
  · dsimp only
    rw [bind_eq (divide_eq toClose available)]
    split <;> rfl

def reduceFifo (side : Side) (symbol : Symbol) : List Fill → ℚ → State → Traced State
  | [], _, s => return s
  | fill :: fills, remaining, s =>
    if remaining ≤ Constants.epsilon then return s
    else if fill.symbol = symbol ∧ fill.isOn side then
      match (s.active side).lookup fill.uuid with
      | none => reduceFifo side symbol fills remaining s
      | some available => do
        let toClose := min available remaining
        reduceFifo side symbol fills (remaining - toClose) (← closeLot s side fill.uuid available toClose)
    else reduceFifo side symbol fills remaining s

theorem reduceFifo_eq (side : Side) (symbol : Symbol) (fills : List Fill) (remaining : ℚ) (s : State) :
    (reduceFifo side symbol fills remaining s).run =
      (State.reduceFifo side symbol fills remaining s, s.reduceFifoDivisors side symbol fills remaining) := by
  induction fills generalizing remaining s with
  | nil => rfl
  | cons fill fills ih =>
    unfold reduceFifo State.reduceFifo State.reduceFifoDivisors
    split
    · rfl
    · split
      · rcases (s.active side).lookup fill.uuid with _ | available
        · exact ih remaining s
        · dsimp only
          rw [bind_eq (closeLot_eq s side fill.uuid available _), ih]
      · exact ih remaining s

def populateActiveFills (s : State) (fill : Fill) (currentQty : ℚ) (comparison : Bool) :
    Traced (State × Option (Uuid × ℚ)) :=
  if !comparison then return (s, some (fill.uuid, fill.quantity))
  else do
    let diffQty := min fill.quantity |currentQty|
    let s ←
      if diffQty > 0 then
        if fill.isBuy then reduceFifo .sell fill.symbol s.fills diffQty s
        else reduceFifo .buy fill.symbol s.fills diffQty s
      else pure s
    let openQty := fill.quantity - diffQty
    return (s, if openQty > Constants.epsilon then some (fill.uuid, openQty) else none)

theorem populateActiveFills_eq (s : State) (fill : Fill) (currentQty : ℚ) (comparison : Bool) :
    (populateActiveFills s fill currentQty comparison).run = (s.populateActiveFills fill currentQty comparison,
      if !comparison then []
      else if min fill.quantity |currentQty| > 0 then
        if fill.isBuy then s.reduceFifoDivisors .sell fill.symbol s.fills (min fill.quantity |currentQty|)
        else s.reduceFifoDivisors .buy fill.symbol s.fills (min fill.quantity |currentQty|)
      else []) := by
  unfold populateActiveFills State.populateActiveFills State.reduceActiveBuyFillsFifo State.reduceActiveSellFillsFifo
  dsimp only
  cases comparison
  · rfl
  · simp only [Bool.not_true, Bool.false_eq_true, ↓reduceIte]
    split
    · split
      · exact bind_pure_eq (reduceFifo_eq ..) _
      · exact bind_pure_eq (reduceFifo_eq ..) _
    · rfl

def openLot (s : State) (r : ExecutionResultSuccess) (uuid : Uuid) (quantity : ℚ) : Traced State := do
  let s :=
    if r.fill.isBuy then { s with activeBuyFills := s.activeBuyFills.insert uuid quantity }
    else if r.fill.isSell then { s with activeSellFills := s.activeSellFills.insert uuid quantity }
    else s
  let proportionalMargin := Money.mul r.marginUsed (← divide quantity r.fill.quantity)
  return { s with
    activeMarginForFills := s.activeMarginForFills.insert uuid proportionalMargin
    activeLeverageForFills := s.activeLeverageForFills.insert uuid r.leverage
    marginInUse := s.marginInUse + proportionalMargin }

theorem openLot_eq (s : State) (r : ExecutionResultSuccess) (uuid : Uuid) (quantity : ℚ) :
    (openLot s r uuid quantity).run = (s.openLot r uuid quantity, [r.fill.quantity]) := rfl

def openActiveFill (s : State) (r : ExecutionResultSuccess) : Option (Uuid × ℚ) → Traced State
  | some (uuid, quantity) => openLot s r uuid quantity
  | none => return s

theorem openActiveFill_eq (s : State) (r : ExecutionResultSuccess) (activeFill : Option (Uuid × ℚ)) :
    (openActiveFill s r activeFill).run = (match activeFill with
      | some (uuid, quantity) => s.openLot r uuid quantity
      | none => s, (activeFill.map fun _ => r.fill.quantity).toList) := by
  rcases activeFill with _ | ⟨uuid, quantity⟩ <;> rfl

def updateState (s : State) (r : ExecutionResultSuccess) : Traced State := do
  let s := { s with cash := s.cash + r.cashDelta, fills := s.fills ++ [r.fill], newFills := s.newFills ++ [r.fill] }
  let currentQty := s.positionQuantity r.fill.symbol
  let comparison : Bool := if r.fill.isBuy then currentQty < 0 else currentQty > 0
  let p ← populateActiveFills s r.fill currentQty comparison
  let s ← openActiveFill p.1 r p.2
  let s := { s with
    exitOrders := s.exitOrders ++ r.exitOrders
    newExitOrders := s.newExitOrders ++ r.exitOrders }
  return s.storePosition r.position

theorem updateState_eq (s : State) (r : ExecutionResultSuccess) :
    (updateState s r).run = (s.updateState r, s.updateStateDivisors r) := by
  unfold updateState State.updateStateDivisors
  rw [bind_eq (populateActiveFills_eq ..), bind_eq (openActiveFill_eq ..)]
  refine Prod.ext rfl ?_
  dsimp only
  generalize { s with cash := s.cash + r.cashDelta, fills := s.fills ++ [r.fill],
                      newFills := s.newFills ++ [r.fill] } = s
  generalize (if r.fill.isBuy then decide (s.positionQuantity r.fill.symbol < 0)
    else decide (s.positionQuantity r.fill.symbol > 0)) = comparison
  cases comparison
  · rfl
  · simp only [Bool.not_true, Bool.false_eq_true, ↓reduceIte, State.populateActiveFills, pure_eq, List.append_nil]
    congr 1
    -- whether the fill opens a lot after it has closed others
    split <;> rfl

def calculateReturn (hp : HostParams) (equity : Money) : Traced ℚ :=
  divide (Money.toDollars (equity - hp.initialCapital)) (Money.toDollars hp.initialCapital)

theorem calculateReturn_eq (hp : HostParams) (equity : Money) :
    (calculateReturn hp equity).run = (State.calculateReturn hp equity, [Money.toDollars hp.initialCapital]) := rfl

def calculateMaxDrawdown (s : State) (currentEquity : Money) : Traced ℚ := do
  let currentDrawdown ←
    if Money.toDollars s.peakEquity > Constants.epsilon then
      divide (Money.toDollars (s.peakEquity - currentEquity)) (Money.toDollars s.peakEquity)
    else pure 0
  return max currentDrawdown s.maxDrawdown

theorem calculateMaxDrawdown_eq (s : State) (currentEquity : Money) :
    (calculateMaxDrawdown s currentEquity).run = (s.calculateMaxDrawdown currentEquity,
      if Money.toDollars s.peakEquity > Constants.epsilon then [Money.toDollars s.peakEquity] else []) := by
  unfold calculateMaxDrawdown State.calculateMaxDrawdown
  dsimp only
  split <;> rfl

def recordBarEquitySnapshot (s : State) (hp : HostParams) : Traced State := do
  let equity := s.calculateEquity
  let s := if equity > s.peakEquity then { s with peakEquity := equity } else s
  let currentDrawdown ← calculateMaxDrawdown s equity
  let s := if currentDrawdown > s.maxDrawdown then { s with maxDrawdown := currentDrawdown } else s
  let snapshot : EquitySnapshot := ⟨s.currentTimestampNs, equity, ← calculateReturn hp equity, s.maxDrawdown⟩
  match s.equityCurve.getLast? with
  | none => return { s with equityCurve := s.equityCurve ++ [snapshot] }
  | some last =>
    if last.timestampNs ≠ s.currentTimestampNs then return { s with equityCurve := s.equityCurve ++ [snapshot] }
    else return { s with
      equityCurve := s.equityCurve.dropLast ++ [{ snapshot with timestampNs := last.timestampNs }] }

theorem recordBarEquitySnapshot_eq (s : State) (hp : HostParams) :
    (recordBarEquitySnapshot s hp).run = (s.recordBarEquitySnapshot hp, s.snapshotDivisors hp) := by
  unfold recordBarEquitySnapshot State.recordBarEquitySnapshot State.snapshotDivisors
  dsimp only
  generalize (if s.calculateEquity > s.peakEquity then { s with peakEquity := s.calculateEquity } else s) = s'
  rw [bind_eq (calculateMaxDrawdown_eq s' s.calculateEquity)]
  generalize (if s'.calculateMaxDrawdown s.calculateEquity > s'.maxDrawdown then
    { s' with maxDrawdown := s'.calculateMaxDrawdown s.calculateEquity } else s') = s''
  rcases s''.equityCurve.getLast? with _ | last
  · rfl
  · dsimp only
    rw [bind_eq (calculateReturn_eq hp s.calculateEquity)]
    split <;> rfl

/-! ### Executing an order -/

open Executor

/-- The margin that closing a part of a lot frees. -/
def lotMargin (s : State) (uuid : Uuid) (available toClose : ℚ) : Traced Money :=
  match s.activeMarginForFills.lookup uuid with
  | some m => return Money.mul m (← divide toClose available)
  | none => return 0

theorem lotMargin_eq (s : State) (uuid : Uuid) (available toClose : ℚ) :
    (lotMargin s uuid available toClose).run = (match s.activeMarginForFills.lookup uuid with
      | some m => Money.mul m (toClose / available)
      | none => 0, s.lotDivisors uuid available) := by
  unfold lotMargin State.lotDivisors
  rcases s.activeMarginForFills.lookup uuid with _ | m <;> rfl

def closingMarginLoop (order : Order) (fillPrice : Money) (s : State) :
    List Fill → ℚ → ClosingMarginInfo → Traced ClosingMarginInfo
  | [], _, info => return info
  | fill :: fills, remaining, info =>
    if remaining ≤ Constants.epsilon then return info
    else
      let activeFills := if order.isSell then s.activeBuyFills else s.activeSellFills
      let isMatchingFill : Bool := (order.isSell && fill.isBuy) || (order.isBuy && fill.isSell)
      if fill.symbol = order.symbol ∧ isMatchingFill then
        match activeFills.lookup fill.uuid with
        | none => closingMarginLoop order fillPrice s fills remaining info
        | some available => do
          let toClose := min available remaining
          let margin ← lotMargin s fill.uuid available toClose
          let pnl :=
            if order.isSell then Money.mul (fillPrice - fill.price) toClose
            else Money.mul (fill.price - fillPrice) toClose
          closingMarginLoop order fillPrice s fills (remaining - toClose)
            ⟨info.marginToRelease + margin, info.realizedPnl + pnl⟩
      else closingMarginLoop order fillPrice s fills remaining info

theorem closingMarginLoop_eq (order : Order) (fillPrice : Money) (s : State) (fills : List Fill) (remaining : ℚ)
    (info : ClosingMarginInfo) :
    (closingMarginLoop order fillPrice s fills remaining info).run =
      (Executor.closingMarginLoop order fillPrice s fills remaining info,
        closingLoopDivisors order s fills remaining) := by
  induction fills generalizing remaining info with
  | nil => rfl
  | cons fill fills ih =>
    unfold closingMarginLoop Executor.closingMarginLoop closingLoopDivisors
    dsimp only
    split
    · rfl
    · split
      · rcases (if order.isSell then s.activeBuyFills else s.activeSellFills).lookup fill.uuid with _ | available
        · exact ih remaining info
        · dsimp only
          rewrite [bind_eq (lotMargin_eq s fill.uuid available _), ih]
          rfl
      · exact ih remaining info

def calculateClosingMarginInfo (order : Order) (fillPrice : Money) (positionClosingQuantity : ℚ) (s : State) :
    Traced ClosingMarginInfo :=
  if positionClosingQuantity ≤ Constants.epsilon then return ⟨0, 0⟩
  else closingMarginLoop order fillPrice s s.fills positionClosingQuantity ⟨0, 0⟩

theorem calculateClosingMarginInfo_eq (order : Order) (fillPrice : Money) (positionClosingQuantity : ℚ) (s : State) :
    (calculateClosingMarginInfo order fillPrice positionClosingQuantity s).run =
      (Executor.calculateClosingMarginInfo order fillPrice positionClosingQuantity s,
        closingDivisors order positionClosingQuantity s) := by
  unfold calculateClosingMarginInfo Executor.calculateClosingMarginInfo closingDivisors
  split
  · rfl
  · exact closingMarginLoop_eq ..

def calculateCashDelta (order : Order) (fillPrice : Money) (fillableQuantity : ℚ) (commission : Money)
    (positionOpeningQuantity : ℚ) (marginRequired : Money) (s : State) : Traced Money := do
  let closingInfo ← calculateClosingMarginInfo order fillPrice (fillableQuantity - positionOpeningQuantity) s
  let closingReturn := closingInfo.marginToRelease + closingInfo.realizedPnl
  return if order.isBuy then closingReturn - marginRequired - commission
    else if order.isSell then closingReturn - marginRequired - commission
    else 0

theorem calculateCashDelta_eq (order : Order) (fillPrice : Money) (fillableQuantity : ℚ) (commission : Money)
    (positionOpeningQuantity : ℚ) (marginRequired : Money) (s : State) :
    (calculateCashDelta order fillPrice fillableQuantity commission positionOpeningQuantity marginRequired s).run =
      (Executor.calculateCashDelta order fillPrice fillableQuantity commission positionOpeningQuantity
        marginRequired s,
        closingDivisors order (fillableQuantity - positionOpeningQuantity) s) := by
  unfold calculateCashDelta
  exact bind_pure_eq (calculateClosingMarginInfo_eq ..) _

def calculateMarginRequired (hp : HostParams) (fillPrice : Money) (positionOpeningQuantity leverage : ℚ) :
    Traced Money := do
  let initialMarginPct := hp.initialMarginPct.getD 1
  let openingValueDollars := Money.toDollars fillPrice * positionOpeningQuantity
  return Money.fromDollars (max (← divide openingValueDollars leverage) (openingValueDollars * initialMarginPct))

def marginRequired (order : Order) (hp : HostParams) (s : State) : Traced Money :=
  if positionOpeningQuantity order hp s > Constants.epsilon then
    calculateMarginRequired hp (calculateFillPrice order s) (positionOpeningQuantity order hp s) (orderLeverage order)
  else return 0

theorem marginRequired_eq (order : Order) (hp : HostParams) (s : State) :
    (marginRequired order hp s).run = (Executor.marginRequired order hp s, marginDivisors order hp s) := by
  unfold marginRequired Executor.marginRequired marginDivisors
  split <;> rfl

def validateMargin (order : Order) (fillPrice commission : Money) (hp : HostParams) (s : State)
    (positionOpeningQuantity newPositionQuantity : ℚ) (marginRequired : Money) (fillableQuantity : ℚ) :
    Traced (Option String) :=
  let leverage := order.leverage.getD 1
  if order.isSell && !hp.allowShortSelling.getD true && newPositionQuantity < 0 then
    return some "Short selling is not allowed"
  else if leverage < 1 then return some "Leverage must be >= 1.0"
  else if leverage > hp.maxLeverage.getD 1 then return some "Order leverage exceeds maximum allowed"
  else if positionOpeningQuantity ≤ Constants.epsilon then do
    let closingInfo ← calculateClosingMarginInfo order fillPrice fillableQuantity s
    let netCashFlow := closingInfo.marginToRelease + closingInfo.realizedPnl - commission
    return if netCashFlow < 0 ∧ 0 - netCashFlow > s.cash then some "Insufficient cash to close position." else none
  else if marginRequired + commission > s.calculateAvailableMargin then return some "Insufficient margin."
  else return none

/-- The divisors are those of `execute_order`'s call. -/
theorem validateMargin_eq (order : Order) (fillPrice commission : Money) (hp : HostParams) (s : State)
    (marginRequired : Money) :
    (validateMargin order fillPrice commission hp s (positionOpeningQuantity order hp s)
        (newPositionQuantity order hp s) marginRequired (fillableQuantity order hp s)).run =
      (Executor.validateMargin order fillPrice commission hp s (positionOpeningQuantity order hp s)
          (newPositionQuantity order hp s) marginRequired (fillableQuantity order hp s),
        validateMarginDivisors order hp s) := by
  unfold validateMargin Executor.validateMargin validateMarginDivisors
  dsimp only
  split
  · rfl
  split
  · rfl
  split
  · rfl
  split
  · exact bind_pure_eq (calculateClosingMarginInfo_eq ..) _
  · split <;> rfl

/-- What `execute_order` does once it has a quantity to fill. -/
def executeQuantity (order : Order) (hp : HostParams) (s : State) (uuid : Uuid) : Traced ExecutionResult := do
  let margin ← marginRequired order hp s
  match ← validateMargin order (calculateFillPrice order s) (commission order hp s uuid) hp s
      (positionOpeningQuantity order hp s) (newPositionQuantity order hp s) margin (fillableQuantity order hp s) with
  | some message => return .error message
  | none =>
    let cashDelta ← calculateCashDelta order (calculateFillPrice order s) (fillableQuantity order hp s)
      (commission order hp s uuid) (positionOpeningQuantity order hp s) margin s
    let position ← calculatePosition order (fillableQuantity order hp s) (calculateFillPrice order s) s
    return .ok { success order hp s uuid with cashDelta, position, marginUsed := margin }

theorem executeQuantity_eq (order : Order) (hp : HostParams) (s : State) (uuid : Uuid) :
    (executeQuantity order hp s uuid).run =
      match Executor.validateMargin order (calculateFillPrice order s) (commission order hp s uuid) hp s
        (positionOpeningQuantity order hp s) (newPositionQuantity order hp s) (Executor.marginRequired order hp s)
        (fillableQuantity order hp s) with
      | some message => (.error message, marginDivisors order hp s ++ (validateMarginDivisors order hp s ++ []))
      | none => (.ok (success order hp s uuid), marginDivisors order hp s ++ (validateMarginDivisors order hp s ++
          (closingDivisors order (fillableQuantity order hp s - positionOpeningQuantity order hp s) s ++
            PositionCalc.positionDivisors order (fillableQuantity order hp s) s))) := by
  unfold executeQuantity
  rw [bind_eq (marginRequired_eq ..), bind_eq (validateMargin_eq ..)]
  split
  · rfl
  · rw [bind_eq (calculateCashDelta_eq ..), bind_pure_eq (calculatePosition_eq ..)]
    rfl

def executeOrder (order : Order) (hp : HostParams) (s : State) (uuid : Uuid) : Traced ExecutionResult :=
  if order.quantity ≤ 0 then return .error "Order quantity must be positive"
  else if !s.hasSymbolPrices order.symbol then return .error ("No price data for symbol: " ++ order.symbol)
  else if !s.hasSymbolVolume order.symbol then return .error ("No volume data for symbol: " ++ order.symbol)
  else if order.isExitOrder && sourceInactive order s then
    return .error "Exit order source fill no longer active - skipping"
  else if !hp.fractional && fillableQuantity order hp s ≤ 0 then
    return .error "Order quantity is too small to execute"
  else executeQuantity order hp s uuid

theorem executeOrder_eq (order : Order) (hp : HostParams) (s : State) (uuid : Uuid) :
    (executeOrder order hp s uuid).run =
      (Executor.executeOrder order hp s uuid, executeOrderDivisors order hp s uuid) := by
  unfold executeOrder executeOrderDivisors Executor.executeOrder
  split_ifs
  · rfl
  · rfl
  · rfl
  · rfl
  · rfl
  · rw [executeQuantity_eq]
    rcases Executor.validateMargin order (calculateFillPrice order s) (commission order hp s uuid) hp s
        (positionOpeningQuantity order hp s) (newPositionQuantity order hp s) (Executor.marginRequired order hp s)
        (fillableQuantity order hp s) with _ | message
    · simp
    · simp

/-! ### The engine -/

open BackTestEngine

variable (createUuid : ℕ → Uuid) (hp : HostParams)

def createScheduledOrder (order : Order) (s : State) : Traced ScheduledOrder :=
  return ⟨order, ← calculateSlippageTimeNs order hp s⟩

def schedule (e : BackTestEngine) (order : Order) : Traced BackTestEngine :=
  match order.limitPrice with
  | some limit =>
    if order.isLimitOrder then
      return { e with
        limitOrderBook := e.limitOrderBook.addLimitOrder (if order.isBuy then .buy else .sell) ⟨order, limit⟩ }
    else return { e with orderBook := e.orderBook.push (← createScheduledOrder hp order e.state) }
  | none => return { e with orderBook := e.orderBook.push (← createScheduledOrder hp order e.state) }

theorem schedule_eq (e : BackTestEngine) (order : Order) :
    (schedule hp e order).run = (e.schedule order hp, scheduleDivisors hp e.state order) := by
  have hmarket : (createScheduledOrder hp order e.state).run =
      (BackTestEngine.createScheduledOrder order hp e.state, slippageDivisors order hp e.state) := by
    unfold createScheduledOrder
    exact bind_pure_eq (calculateSlippageTimeNs_eq ..) _
  unfold schedule BackTestEngine.schedule scheduleDivisors
  rcases hlimit : order.limitPrice with _ | limit
  · have hno : order.isLimitOrder = false := by simp [Order.isLimitOrder, hlimit]
    rw [hno]
    exact bind_pure_eq hmarket _
  · dsimp only
    split
    · rfl
    · exact bind_pure_eq hmarket _

def scheduleRemainder (e : BackTestEngine) (r : ExecutionResultSuccess) : Traced BackTestEngine :=
  match r.partialOrder with
  | some order => schedule hp e order
  | none => return e

theorem scheduleRemainder_eq (e : BackTestEngine) (r : ExecutionResultSuccess) :
    (scheduleRemainder hp e r).run =
      (e.scheduleRemainder r hp, r.partialOrder.toList.flatMap (scheduleDivisors hp e.state)) := by
  unfold scheduleRemainder BackTestEngine.scheduleRemainder
  rcases r.partialOrder with _ | order
  · rfl
  · simpa using schedule_eq hp e order

def applySuccess (e : BackTestEngine) (r : ExecutionResultSuccess) : Traced BackTestEngine := do
  let e := { e with exitOrderBook := e.exitOrderBook.reduceExitOrdersByFills (fillsClosedBy r.fill e.state) }
  let e := { e with exitOrderBook := r.exitOrders.foldl ExitOrderBook.addExitOrder e.exitOrderBook }
  let e ← scheduleRemainder hp e r
  return { e with state := ← updateState e.state r }

theorem applySuccess_eq (e : BackTestEngine) (r : ExecutionResultSuccess) :
    (applySuccess hp e r).run = (e.applySuccess r hp,
      r.partialOrder.toList.flatMap (scheduleDivisors hp e.state) ++ e.state.updateStateDivisors r) := by
  -- scheduling leaves the state alone
  have hstate : ∀ e : BackTestEngine, (e.scheduleRemainder r hp).state = e.state := by
    intro e
    unfold BackTestEngine.scheduleRemainder
    split
    · exact (sameAccount_schedule ..).state
    · rfl
  unfold applySuccess
  rw [bind_eq (scheduleRemainder_eq ..), bind_pure_eq (updateState_eq ..)]
  refine Prod.ext rfl ?_
  dsimp only
  rw [hstate]

def handleExecutionResult (e : BackTestEngine) (r : ExecutionResult) : Traced BackTestEngine :=
  match r with
  | .error _ => return e
  | .ok r => applySuccess hp e r

def execute (e : BackTestEngine) (order : Order) : Traced BackTestEngine := do
  let r ← executeOrder order hp e.state (createUuid e.uuidCount)
  let e := { e with uuidCount := e.uuidCount + 1 }
  let e' ← handleExecutionResult hp e r
  match r with
  | .error _ => return e'
  | .ok r => return { e' with executions := e'.executions ++ [⟨order, r, e'.processed.length⟩] }

theorem execute_eq (e : BackTestEngine) (order : Order) :
    (execute createUuid hp e order).run =
      (e.execute createUuid hp order, executeDivisors createUuid hp e order) := by
  unfold execute executeDivisors BackTestEngine.execute
  rw [bind_eq (executeOrder_eq ..)]
  rcases Executor.executeOrder order hp e.state (createUuid e.uuidCount) with m | r
  · rfl
  · dsimp only
    rw [bind_pure_eq (show (handleExecutionResult hp _ (.ok r)).run = _ from applySuccess_eq ..)]
    rfl

/-! ### Scheduling the plugin's instructions -/

def signalToOrder (signal : Signal) (s : State) : Traced Order :=
  return { Executor.signalToOrder signal hp s with quantity := ← calculateSignalPositionSize signal hp s }

theorem signalToOrder_eq (signal : Signal) (s : State) :
    (signalToOrder hp signal s).run =
      (Executor.signalToOrder signal hp s, PositionCalc.signalSizeDivisors signal hp s) := by
  unfold signalToOrder
  exact bind_pure_eq (calculateSignalPositionSize_eq ..) _

def instructionToOrder (s : State) : Instruction → Traced (Except String Order)
  | .signal signal =>
    if s.hasSymbolPrices signal.symbol then return .ok (← signalToOrder hp signal s) else return .error "map::at"
  | .order order => return .ok order

def instructionOrder (e : BackTestEngine) (c : CInstruction) : Traced (Except String Order) := do
  match toInstruction c with
  | .error message => return .error message
  | .ok instruction =>
    match ← instructionToOrder hp e.state instruction with
    | .error message => return .error message
    | .ok order => return .ok { order with issuedAt := some e.processed.length }

theorem instructionOrder_eq (e : BackTestEngine) (c : CInstruction) :
    (instructionOrder hp e c).run = (BackTestEngine.instructionOrder hp e c,
      match BackTestEngine.instructionOrder hp e c with
      | .error _ => []
      | .ok _ => instructionDivisors hp e.state c) := by
  cases c with
  | signal inst =>
    have hmodel : BackTestEngine.instructionOrder hp e (.signal inst) =
        if e.state.hasSymbolPrices inst.symbol then
          .ok { Executor.signalToOrder ⟨inst.symbol, inst.action⟩ hp e.state with
            issuedAt := some e.processed.length }
        else .error "map::at" := by
      simp only [BackTestEngine.instructionOrder, toInstruction, BackTestEngine.instructionToOrder, bind, Except.bind]
      by_cases hprices : e.state.hasSymbolPrices inst.symbol = true
      · simp only [if_pos hprices]
        rfl
      · simp only [if_neg hprices]
    rw [hmodel]
    unfold instructionOrder toInstruction instructionToOrder instructionDivisors
    dsimp only
    split
    · rw [bind_eq (bind_eq (signalToOrder_eq ..) _)]
      simp only [pure_eq, List.append_nil]
    · rfl
  | order inst => rfl
  | invalid => rfl

def scheduleInstructions (e : BackTestEngine) : List CInstruction → Traced (Except Thrown BackTestEngine)
  | [] => return .ok e
  | c :: l => do
    match ← instructionOrder hp e c with
    | .error message => return .error ⟨message, e⟩
    | .ok order => scheduleInstructions (← schedule hp e order) l

theorem instructionsDivisors_congr {e e' : BackTestEngine} (h : SameAccount e e') (l : List CInstruction) :
    instructionsDivisors hp e' l = instructionsDivisors hp e l := by
  induction l with
  | nil => rfl
  | cons c l ih =>
    unfold instructionsDivisors BackTestEngine.instructionOrder
    rw [h.state, h.processed, ih]

theorem scheduleInstructions_eq (e : BackTestEngine) (l : List CInstruction) :
    (scheduleInstructions hp e l).run = (l.foldlM (scheduleInstruction hp) e, instructionsDivisors hp e l) := by
  induction l generalizing e with
  | nil => rfl
  | cons c l ih =>
    unfold scheduleInstructions instructionsDivisors
    rw [bind_eq (instructionOrder_eq ..), List.foldlM_cons]
    unfold scheduleInstruction
    rcases BackTestEngine.instructionOrder hp e c with message | order
    · rfl
    · dsimp only
      rw [bind_eq (schedule_eq ..), ih, instructionsDivisors_congr hp (sameAccount_schedule e order hp)]
      simp only [List.append_assoc]
      rfl

/-- The instructions of a bar and its snapshot. -/
def endOfBar (e : BackTestEngine) (result : PluginResult) : Traced (Except Thrown BackTestEngine) := do
  match ← scheduleInstructions hp e result.instructions with
  | .error t => return .error t
  | .ok e => return .ok { e with state := (← recordBarEquitySnapshot e.state hp).clearPreviousBarState }

theorem endOfBar_eq (e : BackTestEngine) (result : PluginResult) :
    (endOfBar hp e result).run = ((schedulePluginInstructions hp e result).map (finishBar hp),
      instructionsDivisors hp e result.instructions ++ match schedulePluginInstructions hp e result with
        | .error _ => []
        | .ok e => e.state.snapshotDivisors hp) := by
  unfold endOfBar schedulePluginInstructions
  rw [bind_eq (scheduleInstructions_eq ..)]
  rcases result.instructions.foldlM (scheduleInstruction hp) e with t | e'
  · rfl
  · dsimp only
    rw [bind_pure_eq (recordBarEquitySnapshot_eq ..)]
    rfl

/-- What a step divides by is what its execution, or the end of its bar, has written down. -/
theorem stepDivisors_eq (c : Config) :
    stepDivisors createUuid hp c = match nextExecution c with
      | some (o, e) => (execute createUuid hp e o).run.2
      | none => if c.phase = .onBar ∧ c.result.code = 0 then (endOfBar hp c.engine c.result).run.2 else [] := by
  unfold stepDivisors
  rcases nextExecution c with _ | ⟨o, e⟩
  · dsimp only
    rewrite [endOfBar_eq]
    rcases schedulePluginInstructions hp c.engine c.result with t | e <;> rfl
  · dsimp only
    rw [execute_eq]

end Traced

end QuantForge
