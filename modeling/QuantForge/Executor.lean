import QuantForge.State

/-!
# Executing an order

Commissions and market hours (`exchange.cpp`, `time_utils.cpp`), slippage (`slippage_calculator.cpp`), positions and
sizing (`position_calculator.cpp`) and `execute_order` with its helpers (`executor.cpp`).  `executeOrder` only reads
the state; its result is applied by `State.updateState` and the books.
-/

namespace QuantForge

/-! ### `time_utils.cpp` and `exchange.cpp` -/

namespace Exchange

def marketOpenHour : ℤ := 9
def marketCloseHour : ℤ := 16

/-- Days since 1970-01-01, a Thursday; weekdays are counted from Sunday. -/
def isWithinMarketHours (timestampNs : ℤ) : Bool :=
  let nsPerDay : ℤ := 86400000000000
  let day := timestampNs / nsPerDay
  let weekday := (day + 4) % 7
  let hour := timestampNs % nsPerDay / 3600000000000
  !(weekday = 0 || weekday = 6) && !(hour < marketOpenHour || hour ≥ marketCloseHour)

def isWithinMarketHourRestrictions (timestampNs : ℤ) (hp : HostParams) : Bool :=
  if hp.marketHoursOnly ≠ some true then true else isWithinMarketHours timestampNs

def calculateCommision (fill : Fill) (hp : HostParams) : Money :=
  let commissionValue := hp.commission.getD 0
  match hp.commissionType with
  | none => 0
  | some kind =>
    if commissionValue = 0 then 0
    else match kind with
      | .perShare => Money.mul (Money.fromDollars commissionValue) fill.quantity
      | .percentage => Money.mul (Money.mul fill.price fill.quantity) commissionValue
      | .flat => Money.fromDollars commissionValue

end Exchange

/-! ### `slippage_calculator.cpp` -/

/-- The time at which an order becomes due. -/
def calculateSlippageTimeNs (order : Order) (hp : HostParams) (s : State) : ℤ :=
  match hp.slippageModel with
  | none => s.currentTimestampNs
  | some .none => s.currentTimestampNs
  | some .timeBased =>
    s.currentTimestampNs + Rounding.truncZero (hp.slippage.getD 0 * Constants.nanosecondsPerMillisecond)
  | some .timeVolumeBased =>
    if !s.hasSymbolVolume order.symbol then s.currentTimestampNs
    else
      let sizeRatio := order.quantity / s.getSymbolVolume order.symbol
      let delaySeconds := hp.slippage.getD 1 * sizeRatio
      s.currentTimestampNs + Rounding.truncZero (delaySeconds * Constants.nanosecondsPerSecond)

/-! ### `position_calculator.cpp` -/

namespace PositionCalc

def calculateSignalPositionSize (signal : Signal) (hp : HostParams) (s : State) : ℚ :=
  let currentPrice := s.getSymbolClose signal.symbol
  let equity := s.calculateEquity
  let positionSizeValue := hp.positionSizeValue.getD Constants.defaultPositionSizeValue
  let clamp (quantity : ℚ) : ℚ :=
    match hp.maxPositionSize with
    | some m => if quantity > m then m else quantity
    | none => quantity
  match hp.positionSizingMethod.getD .fixedPercentage with
  | .fixedPercentage => clamp (Money.toDollars (Money.mul equity positionSizeValue) / Money.toDollars currentPrice)
  | .fixedDollar => clamp (positionSizeValue / Money.toDollars currentPrice)
  | .equalWeight =>
    if hp.symbols.length = 0 then 0
    else clamp (Money.toDollars (Money.div equity hp.symbols.length) / Money.toDollars currentPrice)

/-- The stop-loss and take-profit price of a signal: the current price moved by `pct`, down for the side given as
`down`, up for the other one. -/
def signalPrice (enabled : Option Bool) (pct : Option ℚ) (down up : Bool) (currentPrice : Money) : Option Money :=
  if !enabled.getD false then none
  else match pct with
    | none => none
    | some pct =>
      if down then some (Money.mul currentPrice (1 - pct))
      else if up then some (Money.mul currentPrice (1 + pct))
      else none

def calculateSignalStopLossPrice (signal : Signal) (hp : HostParams) (s : State) : Option Money :=
  signalPrice hp.useStopLoss hp.stopLossPct signal.isBuy signal.isSell (s.getSymbolClose signal.symbol)

def calculateSignalTakeProfitPrice (signal : Signal) (hp : HostParams) (s : State) : Option Money :=
  signalPrice hp.useTakeProfit hp.takeProfitPct signal.isSell signal.isBuy (s.getSymbolClose signal.symbol)

/-- The average price after adding `quantity` shares at `price` to `held` shares, `total` shares together. -/
def blendedPrice (average : Money) (held : ℚ) (price : Money) (quantity total : ℚ) : Money :=
  Money.div (Money.mul average held + Money.mul price quantity) total

def calculatePosition (order : Order) (fillableQuantity : ℚ) (fillPrice : Money) (s : State) : Position :=
  let position := s.getSymbolPositionOr order.symbol ⟨order.symbol, 0, 0⟩
  let oldQuantity := position.quantity
  let position :=
    if order.isBuy then
      let newQuantity := oldQuantity + fillableQuantity
      let averagePrice :=
        if oldQuantity < 0 ∧ newQuantity > 0 then fillPrice
        else if oldQuantity ≥ 0 then
          blendedPrice position.averagePrice oldQuantity fillPrice fillableQuantity newQuantity
        else position.averagePrice
      { position with averagePrice := averagePrice, quantity := newQuantity }
    else if order.isSell then
      let newQuantity := oldQuantity - fillableQuantity
      let averagePrice :=
        if oldQuantity > 0 ∧ newQuantity < 0 then fillPrice
        else if oldQuantity ≤ 0 then
          blendedPrice position.averagePrice |oldQuantity| fillPrice fillableQuantity |newQuantity|
        else position.averagePrice
      { position with averagePrice := averagePrice, quantity := newQuantity }
    else position
  -- also reached when the action is unknown
  if |position.quantity| < Constants.epsilon then { position with quantity := 0, averagePrice := 0 } else position

/-- The loop of `find_buy_fill_uuids_closed_by_sell` and `find_sell_fill_uuids_closed_by_buy`. -/
def closedFills (s : State) (side : Side) (symbol : Symbol) : List Fill → ℚ → List (Uuid × ℚ)
  | [], _ => []
  | fill :: fills, remaining =>
    if remaining ≤ Constants.epsilon then []
    else if fill.symbol = symbol ∧ fill.isOn side then
      match (s.active side).lookup fill.uuid with
      | none => closedFills s side symbol fills remaining
      | some available =>
        let toClose := min available remaining
        (fill.uuid, toClose) :: closedFills s side symbol fills (remaining - toClose)
    else closedFills s side symbol fills remaining

def findBuyFillUuidsClosedBySell (sellFill : Fill) (s : State) : List (Uuid × ℚ) :=
  match s.positions.lookup sellFill.symbol with
  | none => []
  | some position =>
    if position.quantity ≤ 0 then []
    else closedFills s .buy sellFill.symbol s.fills (min sellFill.quantity position.quantity)

def findSellFillUuidsClosedByBuy (buyFill : Fill) (s : State) : List (Uuid × ℚ) :=
  match s.positions.lookup buyFill.symbol with
  | none => []
  | some position =>
    if position.quantity ≥ 0 then []
    else closedFills s .sell buyFill.symbol s.fills (min buyFill.quantity |position.quantity|)

end PositionCalc

/-! ### `executor.cpp` -/

namespace Executor

/-- What can be filled of an order on the current bar, and what remains. -/
def getFillableAndRemainingQuantities (order : Order) (hp : HostParams) (s : State) : ℚ × ℚ :=
  match hp.fillMaxPctOfVolume with
  | some pct =>
    let maxFillQuantity := s.getSymbolVolume order.symbol * pct
    if order.quantity > maxFillQuantity then (maxFillQuantity, order.quantity - maxFillQuantity)
    else (order.quantity, 0)
  | none => (order.quantity, 0)

def calculatePositionOpeningQuantity (order : Order)
    (fillableQuantity currentPositionQuantity newPositionQuantity : ℚ) : ℚ :=
  if order.isBuy then
    if currentPositionQuantity ≥ 0 then fillableQuantity else max 0 newPositionQuantity
  -- sells, and every action that is not a buy
  else if currentPositionQuantity ≤ 0 then fillableQuantity
  else max 0 (-newPositionQuantity)

def createExitOrders (order : Order) (fill : Fill) (s : State) (positionOpeningQuantity newPositionQuantity : ℚ) :
    List ExitOrder :=
  if positionOpeningQuantity ≤ Constants.epsilon then []
  else
    let isShortPositionFill : Bool := order.isSell && newPositionQuantity ≤ 0
    let exitOrder (kind : ExitKind) (price : Money) : ExitOrder :=
      ⟨kind, isShortPositionFill, positionOpeningQuantity, price, fill.price, s.currentTimestampNs, order.symbol,
        fill.uuid⟩
    (order.stopLossPrice.map (exitOrder .stopLoss)).toList ++
      (order.takeProfitPrice.map (exitOrder .takeProfit)).toList

structure ClosingMarginInfo where
  marginToRelease : Money
  realizedPnl : Money
  deriving DecidableEq

/-- The loop of `calculate_closing_margin_info` over `fills_`. -/
def closingMarginLoop (order : Order) (fillPrice : Money) (s : State) :
    List Fill → ℚ → ClosingMarginInfo → ClosingMarginInfo
  | [], _, info => info
  | fill :: fills, remaining, info =>
    if remaining ≤ Constants.epsilon then info
    else
      let activeFills := if order.isSell then s.activeBuyFills else s.activeSellFills
      let isMatchingFill : Bool := (order.isSell && fill.isBuy) || (order.isBuy && fill.isSell)
      if fill.symbol = order.symbol ∧ isMatchingFill then
        match activeFills.lookup fill.uuid with
        | none => closingMarginLoop order fillPrice s fills remaining info
        | some available =>
          let toClose := min available remaining
          let margin := match s.activeMarginForFills.lookup fill.uuid with
            | some m => Money.mul m (toClose / available)
            | none => 0
          let pnl :=
            if order.isSell then Money.mul (fillPrice - fill.price) toClose
            else Money.mul (fill.price - fillPrice) toClose
          closingMarginLoop order fillPrice s fills (remaining - toClose)
            ⟨info.marginToRelease + margin, info.realizedPnl + pnl⟩
      else closingMarginLoop order fillPrice s fills remaining info

def calculateClosingMarginInfo (order : Order) (fillPrice : Money) (positionClosingQuantity : ℚ) (s : State) :
    ClosingMarginInfo :=
  if positionClosingQuantity ≤ Constants.epsilon then ⟨0, 0⟩
  else closingMarginLoop order fillPrice s s.fills positionClosingQuantity ⟨0, 0⟩

def calculateCashDelta (order : Order) (fillPrice : Money) (fillableQuantity : ℚ) (commission : Money)
    (positionOpeningQuantity : ℚ) (marginRequired : Money) (s : State) : Money :=
  let closingInfo := calculateClosingMarginInfo order fillPrice (fillableQuantity - positionOpeningQuantity) s
  let closingReturn := closingInfo.marginToRelease + closingInfo.realizedPnl
  if order.isBuy then closingReturn - marginRequired - commission
  else if order.isSell then closingReturn - marginRequired - commission
  else 0

def calculateFillPrice (order : Order) (s : State) : Money :=
  let currentBarClose := s.getSymbolClose order.symbol
  match order.limitPrice with
  | some limit =>
    if order.isLimitOrder then
      if order.isBuy then min limit currentBarClose else max limit currentBarClose
    else currentBarClose
  | none => currentBarClose

def signalToOrder (signal : Signal) (hp : HostParams) (s : State) : Order where
  quantity := PositionCalc.calculateSignalPositionSize signal hp s
  symbol := signal.symbol
  action := signal.action
  orderType := Constants.market
  stopLossPrice := PositionCalc.calculateSignalStopLossPrice signal hp s
  takeProfitPrice := PositionCalc.calculateSignalTakeProfitPrice signal hp s

def calculateMarginRequired (hp : HostParams) (fillPrice : Money) (positionOpeningQuantity leverage : ℚ) : Money :=
  let initialMarginPct := hp.initialMarginPct.getD 1
  let openingValueDollars := Money.toDollars fillPrice * positionOpeningQuantity
  Money.fromDollars (max (openingValueDollars / leverage) (openingValueDollars * initialMarginPct))

/-- The reason to refuse an execution, if there is one. -/
def validateMargin (order : Order) (fillPrice commission : Money) (hp : HostParams) (s : State)
    (positionOpeningQuantity newPositionQuantity : ℚ) (marginRequired : Money) (fillableQuantity : ℚ) :
    Option String :=
  let leverage := order.leverage.getD 1
  if order.isSell && !hp.allowShortSelling.getD true && newPositionQuantity < 0 then
    some "Short selling is not allowed"
  else if leverage < 1 then some "Leverage must be >= 1.0"
  else if leverage > hp.maxLeverage.getD 1 then some "Order leverage exceeds maximum allowed"
  else if positionOpeningQuantity ≤ Constants.epsilon then
    -- a pure close is checked against cash, everything else against the available margin
    let closingInfo := calculateClosingMarginInfo order fillPrice fillableQuantity s
    let netCashFlow := closingInfo.marginToRelease + closingInfo.realizedPnl - commission
    if netCashFlow < 0 ∧ 0 - netCashFlow > s.cash then some "Insufficient cash to close position." else none
  else if marginRequired + commission > s.calculateAvailableMargin then some "Insufficient margin."
  else none

/-! The local variables of `execute_order`, as functions of its arguments. -/

/-- `fillable_quantity`, floored unless fractional shares are allowed. -/
def fillableQuantity (order : Order) (hp : HostParams) (s : State) : ℚ :=
  let fillable := (getFillableAndRemainingQuantities order hp s).1
  if hp.fractional then fillable else ⌊fillable⌋

def remainingQuantity (order : Order) (hp : HostParams) (s : State) : ℚ :=
  (getFillableAndRemainingQuantities order hp s).2

/-- `current_position_quantity` plus or minus the fill. -/
def newPositionQuantity (order : Order) (hp : HostParams) (s : State) : ℚ :=
  s.positionQuantity order.symbol +
    (if order.isBuy then fillableQuantity order hp s else -fillableQuantity order hp s)

def positionOpeningQuantity (order : Order) (hp : HostParams) (s : State) : ℚ :=
  calculatePositionOpeningQuantity order (fillableQuantity order hp s) (s.positionQuantity order.symbol)
    (newPositionQuantity order hp s)

def orderLeverage (order : Order) : ℚ := order.leverage.getD 1

def marginRequired (order : Order) (hp : HostParams) (s : State) : Money :=
  if positionOpeningQuantity order hp s > Constants.epsilon then
    calculateMarginRequired hp (calculateFillPrice order s) (positionOpeningQuantity order hp s)
      (orderLeverage order)
  else 0

/-- The fill of an execution.  The source builds a second, temporary fill for the commission; its uuid is not read. -/
def makeFill (order : Order) (hp : HostParams) (s : State) (uuid : Uuid) : Fill where
  quantity := fillableQuantity order hp s
  leverage := orderLeverage order
  createdAtNs := s.currentTimestampNs
  price := calculateFillPrice order s
  marginUsed := marginRequired order hp s
  symbol := order.symbol
  uuid := uuid
  action := order.action

/-- `calculate_commision` of the temporary fill. -/
def commission (order : Order) (hp : HostParams) (s : State) (uuid : Uuid) : Money :=
  Exchange.calculateCommision
    { makeFill order hp s uuid with leverage := 1, marginUsed := 0 } hp

/-- An exit order whose source fill has no active shares left. -/
def sourceInactive (order : Order) (s : State) : Bool :=
  match order.sourceFillUuid with
  | some uuid => !((s.activeBuyFills.lookup uuid).isSome || (s.activeSellFills.lookup uuid).isSome)
  | none => false

/-- The remainder of a partly filled order. -/
def partialOrder (order : Order) (hp : HostParams) (s : State) : Option Order :=
  if remainingQuantity order hp s > 0 then some { order with quantity := remainingQuantity order hp s } else none

/-- The result of an execution that passes every check. -/
def success (order : Order) (hp : HostParams) (s : State) (uuid : Uuid) : ExecutionResultSuccess where
  cashDelta := calculateCashDelta order (calculateFillPrice order s) (fillableQuantity order hp s)
    (commission order hp s uuid) (positionOpeningQuantity order hp s) (marginRequired order hp s) s
  marginUsed := marginRequired order hp s
  leverage := orderLeverage order
  position := PositionCalc.calculatePosition order (fillableQuantity order hp s) (calculateFillPrice order s) s
  fill := makeFill order hp s uuid
  exitOrders := createExitOrders order (makeFill order hp s uuid) s (positionOpeningQuantity order hp s)
    (newPositionQuantity order hp s)
  partialOrder := partialOrder order hp s

/-- Execute an order against the current bar; `uuid` is what `create_uuid` returns for the fill. -/
def executeOrder (order : Order) (hp : HostParams) (s : State) (uuid : Uuid) : ExecutionResult :=
  if order.quantity ≤ 0 then .error "Order quantity must be positive"
  else if !s.hasSymbolPrices order.symbol then .error ("No price data for symbol: " ++ order.symbol)
  else if !s.hasSymbolVolume order.symbol then .error ("No volume data for symbol: " ++ order.symbol)
  else if order.isExitOrder && sourceInactive order s then
    .error "Exit order source fill no longer active - skipping"
  else if !hp.fractional && fillableQuantity order hp s ≤ 0 then .error "Order quantity is too small to execute"
  else
    match validateMargin order (calculateFillPrice order s) (commission order hp s uuid) hp s
        (positionOpeningQuantity order hp s) (newPositionQuantity order hp s) (marginRequired order hp s)
        (fillableQuantity order hp s) with
    | some message => .error message
    | none => .ok (success order hp s uuid)

end Executor

end QuantForge
