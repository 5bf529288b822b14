import QuantForge.Models

/-!
# The account state

`State` (`state.hpp`), its valuation (`equity_calculator.cpp`) and its updates (`state.cpp`).
-/

namespace QuantForge

structure CurrentBarPrices where
  close : Money
  openPrice : Money
  high : Money
  low : Money
  deriving DecidableEq

/-- The prices of a bar in microdollars. -/
def AggregateBarResult.prices (bar : AggregateBarResult) : CurrentBarPrices :=
  ⟨Money.fromDollars bar.close, Money.fromDollars bar.openPrice, Money.fromDollars bar.high,
    Money.fromDollars bar.low⟩

structure State where
  cash : Money := 0
  marginInUse : Money := 0
  currentTimestampNs : ℤ := 0
  positions : Map Symbol Position := ∅
  currentBarPrices : Map Symbol CurrentBarPrices := ∅
  currentBarVolumes : Map Symbol ℤ := ∅
  fills : List Fill := []
  exitOrders : List ExitOrder := []
  equityCurve : List EquitySnapshot := []
  newFills : List Fill := []
  newExitOrders : List ExitOrder := []
  activeBuyFills : Map Uuid ℚ := ∅
  activeSellFills : Map Uuid ℚ := ∅
  activeMarginForFills : Map Uuid Money := ∅
  activeLeverageForFills : Map Uuid ℚ := ∅
  peakEquity : Money := 0
  maxDrawdown : ℚ := 0

namespace State

/-! ### Reading the state -/

def hasSymbolPrices (s : State) (symbol : Symbol) : Bool := (s.currentBarPrices.lookup symbol).isSome

def hasSymbolVolume (s : State) (symbol : Symbol) : Bool := (s.currentBarVolumes.lookup symbol).isSome

/-- The prices of a symbol.  The source uses `at`, which throws on a missing symbol; every caller but the sizing of a
signal has checked `has_symbol_prices` before. -/
def symbolPrices (s : State) (symbol : Symbol) : CurrentBarPrices :=
  (s.currentBarPrices.lookup symbol).getD ⟨0, 0, 0, 0⟩

def getSymbolClose (s : State) (symbol : Symbol) : Money := (s.symbolPrices symbol).close

def getSymbolHigh (s : State) (symbol : Symbol) : Money := (s.symbolPrices symbol).high

def getSymbolLow (s : State) (symbol : Symbol) : Money := (s.symbolPrices symbol).low

def getSymbolVolume (s : State) (symbol : Symbol) : ℤ := (s.currentBarVolumes.lookup symbol).getD 0

def getSymbolPositionOr (s : State) (symbol : Symbol) (default : Position) : Position :=
  (s.positions.lookup symbol).getD default

/-- The quantity held of a symbol, zero when there is no position. -/
def positionQuantity (s : State) (symbol : Symbol) : ℚ := (s.positions.lookup symbol).elim 0 (·.quantity)

/-- `active_buy_fills_` or `active_sell_fills_`. -/
def active (s : State) : Side → Map Uuid ℚ
  | .buy => s.activeBuyFills
  | .sell => s.activeSellFills

def setActive (s : State) (side : Side) (m : Map Uuid ℚ) : State :=
  match side with
  | .buy => { s with activeBuyFills := m }
  | .sell => { s with activeSellFills := m }

/-! ### `equity_calculator.cpp` -/

/-- The unrealized profit of one position at the current close; a symbol without prices counts nothing. -/
def positionPnl (s : State) (symbol : Symbol) (position : Position) : Money :=
  if s.hasSymbolPrices symbol then
    Money.mul (s.getSymbolClose symbol - position.averagePrice) position.quantity
  else 0

def calculateEquity (s : State) : Money :=
  s.cash + s.marginInUse + s.positions.sumBy s.positionPnl

def calculateReturn (hp : HostParams) (equity : Money) : ℚ :=
  Money.toDollars (equity - hp.initialCapital) / Money.toDollars hp.initialCapital

def calculateMaxDrawdown (s : State) (currentEquity : Money) : ℚ :=
  let currentDrawdown :=
    if Money.toDollars s.peakEquity > Constants.epsilon then
      Money.toDollars (s.peakEquity - currentEquity) / Money.toDollars s.peakEquity
    else 0
  max currentDrawdown s.maxDrawdown

def calculateAvailableMargin (s : State) : Money := s.calculateEquity - s.marginInUse

/-! ### `state.cpp` -/

def prepareInitialState (s : State) (hp : HostParams) : State :=
  { s with cash := hp.initialCapital, marginInUse := 0, peakEquity := hp.initialCapital, maxDrawdown := 0 }

/-- Close `toClose` of the `available` shares of one active lot and free its margin in proportion. -/
def closeLot (s : State) (side : Side) (uuid : Uuid) (available toClose : ℚ) : State :=
  let quantity := available - toClose
  let s := s.setActive side
    (if quantity ≤ Constants.epsilon then (s.active side).erase uuid else (s.active side).insert uuid quantity)
  match s.activeMarginForFills.lookup uuid with
  | none => s
  | some totalMarginForFill =>
    let marginToFree := Money.mul totalMarginForFill (toClose / available)
    let margin := totalMarginForFill - marginToFree
    -- shares and margin are each held against `EPSILON`, so one entry can go while the other stays
    if Money.toDollars margin ≤ Constants.epsilon then
      { s with
        marginInUse := s.marginInUse - marginToFree
        activeMarginForFills := s.activeMarginForFills.erase uuid
        activeLeverageForFills := s.activeLeverageForFills.erase uuid }
    else
      { s with
        marginInUse := s.marginInUse - marginToFree
        activeMarginForFills := s.activeMarginForFills.insert uuid margin }

/-- The loop of the two FIFO reducers over `fills_`: close the oldest active lots of the symbol first. -/
def reduceFifo (side : Side) (symbol : Symbol) : List Fill → ℚ → State → State
  | [], _, s => s
  | fill :: fills, remaining, s =>
    if remaining ≤ Constants.epsilon then s
    else if fill.symbol = symbol ∧ fill.isOn side then
      match (s.active side).lookup fill.uuid with
      | none => reduceFifo side symbol fills remaining s
      | some available =>
        let toClose := min available remaining
        reduceFifo side symbol fills (remaining - toClose) (s.closeLot side fill.uuid available toClose)
    else reduceFifo side symbol fills remaining s

def reduceActiveBuyFillsFifo (s : State) (symbol : Symbol) (quantity : ℚ) : State :=
  reduceFifo .buy symbol s.fills quantity s

def reduceActiveSellFillsFifo (s : State) (symbol : Symbol) (quantity : ℚ) : State :=
  reduceFifo .sell symbol s.fills quantity s

/-- The lot a fill opens, if any, after it has closed lots of the other side. -/
def populateActiveFills (s : State) (fill : Fill) (currentQty : ℚ) (comparison : Bool) :
    State × Option (Uuid × ℚ) :=
  if !comparison then (s, some (fill.uuid, fill.quantity))
  else
    let diffQty := min fill.quantity |currentQty|
    let s :=
      if diffQty > 0 then
        if fill.isBuy then s.reduceActiveSellFillsFifo fill.symbol diffQty
        else s.reduceActiveBuyFillsFifo fill.symbol diffQty
      else s
    let openQty := fill.quantity - diffQty
    (s, if openQty > Constants.epsilon then some (fill.uuid, openQty) else none)

/-- Record an opened lot with its share of the margin. -/
def openLot (s : State) (r : ExecutionResultSuccess) (uuid : Uuid) (quantity : ℚ) : State :=
  let s :=
    if r.fill.isBuy then { s with activeBuyFills := s.activeBuyFills.insert uuid quantity }
    else if r.fill.isSell then { s with activeSellFills := s.activeSellFills.insert uuid quantity }
    else s
  -- `marginUsed` is the margin of the opening quantity only, and is scaled down once more
  let proportionalMargin := Money.mul r.marginUsed (quantity / r.fill.quantity)
  { s with
    activeMarginForFills := s.activeMarginForFills.insert uuid proportionalMargin
    activeLeverageForFills := s.activeLeverageForFills.insert uuid r.leverage
    marginInUse := s.marginInUse + proportionalMargin }

/-- Write the position of an execution, or erase it when it is flat. -/
def storePosition (s : State) (p : Position) : State :=
  if p.quantity = 0 then { s with positions := s.positions.erase p.symbol }
  else { s with positions := s.positions.insert p.symbol p }

def updateState (s : State) (r : ExecutionResultSuccess) : State :=
  let s := { s with cash := s.cash + r.cashDelta, fills := s.fills ++ [r.fill], newFills := s.newFills ++ [r.fill] }
  let currentQty := s.positionQuantity r.fill.symbol
  -- the position is still the one before the fill; what is not a buy is compared like a sell
  let comparison : Bool := if r.fill.isBuy then currentQty < 0 else currentQty > 0
  let (s, activeFill) := s.populateActiveFills r.fill currentQty comparison
  let s := match activeFill with
    | some (uuid, quantity) => s.openLot r uuid quantity
    | none => s
  let s := { s with
    exitOrders := s.exitOrders ++ r.exitOrders
    newExitOrders := s.newExitOrders ++ r.exitOrders }
  s.storePosition r.position

def recordBarEquitySnapshot (s : State) (hp : HostParams) : State :=
  let equity := s.calculateEquity
  let s := if equity > s.peakEquity then { s with peakEquity := equity } else s
  let currentDrawdown := s.calculateMaxDrawdown equity
  let s := if currentDrawdown > s.maxDrawdown then { s with maxDrawdown := currentDrawdown } else s
  let snapshot : EquitySnapshot := ⟨s.currentTimestampNs, equity, calculateReturn hp equity, s.maxDrawdown⟩
  match s.equityCurve.getLast? with
  | none => { s with equityCurve := s.equityCurve ++ [snapshot] }
  | some last =>
    -- a second snapshot at one timestamp replaces the first
    if last.timestampNs ≠ s.currentTimestampNs then { s with equityCurve := s.equityCurve ++ [snapshot] }
    else { s with equityCurve := s.equityCurve.dropLast ++ [{ snapshot with timestampNs := last.timestampNs }] }

def clearPreviousBarState (s : State) : State := { s with newFills := [], newExitOrders := [] }

def prepareNextBarState (s : State) (bar : AggregateBarResult) : State :=
  { s with
    currentTimestampNs := bar.unixTsNs
    currentBarPrices := s.currentBarPrices.insert bar.symbol bar.prices
    currentBarVolumes := s.currentBarVolumes.insert bar.symbol (Rounding.truncZero bar.volume) }

def recalculateMarginInUse (s : State) : Money := s.activeMarginForFills.sumBy fun _ m => m

end State

end QuantForge
