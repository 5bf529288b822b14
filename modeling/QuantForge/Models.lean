import QuantForge.Money
import QuantForge.AssocMap
import QuantForge.BinaryHeap

/-!
# The data model

Orders, fills, exit orders, positions and execution results (`models.hpp`), the plugin's instructions (`abi.h`), the
host parameters (`manifest.hpp`) and the bars (`stock_api.hpp`).

Action and order-type strings come unchecked from the plugin, so they stay strings; the commission type, slippage
model and sizing method are checked against their lists when the manifest is parsed, so they are enumerations.
Fields no function of the back test reads are left out: `created_at_ns_` of orders and signals, `is_triggered_`, the
manifest fields of the other components and the unused numbers of a bar.
-/

namespace QuantForge

abbrev Symbol := String
abbrev Uuid := String

/-! ### `manifest.hpp` -/

inductive CommissionType
  | perShare | percentage | flat
  deriving DecidableEq

inductive SlippageModel
  | none | timeBased | timeVolumeBased
  deriving DecidableEq

inductive PositionSizingMethod
  | fixedPercentage | fixedDollar | equalWeight
  deriving DecidableEq

structure HostParams where
  marketHoursOnly : Option Bool := none
  allowFractionalShares : Option Bool := none
  commission : Option ℚ := none
  slippage : Option ℚ := none
  initialCapital : ℤ
  commissionType : Option CommissionType := none
  slippageModel : Option SlippageModel := none
  symbols : List Symbol := []
  positionSizingMethod : Option PositionSizingMethod := none
  positionSizeValue : Option ℚ := none
  maxPositionSize : Option ℚ := none
  useStopLoss : Option Bool := none
  stopLossPct : Option ℚ := none
  useTakeProfit : Option Bool := none
  takeProfitPct : Option ℚ := none
  fillMaxPctOfVolume : Option ℚ := none
  allowShortSelling : Option Bool := none
  initialMarginPct : Option ℚ := none
  maxLeverage : Option ℚ := none

/-- `allow_fractional_shares_.value_or(false)`. -/
def HostParams.fractional (hp : HostParams) : Bool := hp.allowFractionalShares.getD false

/-! ### `stock_api.hpp` -/

structure AggregateBarResult where
  symbol : Symbol
  volume : ℚ
  openPrice : ℚ
  close : ℚ
  high : ℚ
  low : ℚ
  unixTsNs : ℤ
  deriving DecidableEq

/-! ### `abi.h` -/

structure CSignal where
  symbol : Symbol
  action : String

structure COrder where
  symbol : Symbol
  action : String
  quantity : ℚ
  leverage : ℚ
  limitPrice : ℤ
  stopLossPrice : ℤ
  takeProfitPrice : ℤ
  orderType : String

/-- An instruction of the plugin; `invalid` stands for a `type_` outside the enumeration. -/
inductive CInstruction
  | signal (inst : CSignal)
  | order (inst : COrder)
  | invalid

structure PluginResult where
  code : ℤ := 0
  message : String := ""
  instructions : List CInstruction := []

/-! ### `models.hpp` -/

/-- `INT64_MIN`, the plugin's spelling of an absent price. -/
def nullMarketTriggerPrice : ℤ := -9223372036854775808

structure Signal where
  symbol : Symbol
  action : String

def Signal.isBuy (s : Signal) : Bool := s.action = Constants.buy
def Signal.isSell (s : Signal) : Bool := s.action = Constants.sell

/-- An order.  `issuedAt` is bookkeeping of the model: the number of bars processed when the plugin issued the order,
carried along when the order is copied, read by no function (`none` on the orders the exit book makes). -/
structure Order where
  isExitOrder : Bool := false
  quantity : ℚ
  symbol : Symbol
  action : String
  orderType : String
  sourceFillUuid : Option Uuid := none
  limitPrice : Option Money := none
  stopLossPrice : Option Money := none
  takeProfitPrice : Option Money := none
  leverage : Option ℚ := none
  issuedAt : Option ℕ := none
  deriving DecidableEq

namespace Order

def isBuy (o : Order) : Bool := o.action = Constants.buy
def isSell (o : Order) : Bool := o.action = Constants.sell
def isLimitOrder (o : Order) : Bool := o.orderType = Constants.limit && o.limitPrice.isSome
def isMarketOrder (o : Order) : Bool := o.orderType = Constants.market || !o.limitPrice.isSome

/-- `Order(const COrder&)`. -/
def ofCOrder (inst : COrder) : Order where
  quantity := inst.quantity
  symbol := inst.symbol
  action := inst.action
  orderType := inst.orderType
  limitPrice := if inst.limitPrice = nullMarketTriggerPrice then none else some inst.limitPrice
  stopLossPrice := if inst.stopLossPrice = nullMarketTriggerPrice then none else some inst.stopLossPrice
  takeProfitPrice := if inst.takeProfitPrice = nullMarketTriggerPrice then none else some inst.takeProfitPrice
  leverage := if inst.leverage ≤ 0 then none else some inst.leverage

end Order

inductive Instruction
  | signal (s : Signal)
  | order (o : Order)

structure Fill where
  quantity : ℚ
  leverage : ℚ := 1
  createdAtNs : ℤ
  price : Money
  marginUsed : Money := 0
  symbol : Symbol
  uuid : Uuid
  action : String
  deriving DecidableEq

def Fill.isBuy (f : Fill) : Bool := f.action = Constants.buy
def Fill.isSell (f : Fill) : Bool := f.action = Constants.sell

/-- The index of the variant `ExitOrder`. -/
inductive ExitKind
  | stopLoss | takeProfit
  deriving DecidableEq

/-- `StopLossExitOrder` and `TakeProfitExitOrder`, told apart by `kind`; `triggerPrice` is the `stop_loss_price_` of
the one and the `take_profit_price_` of the other. -/
structure ExitOrder where
  kind : ExitKind
  isShortPosition : Bool
  triggerQuantity : ℚ
  triggerPrice : Money
  price : Money
  createdAtNs : ℤ
  symbol : Symbol
  fillUuid : Uuid
  deriving DecidableEq

namespace ExitOrder

/-- The order of both exit heaps.  Stop losses are in a `MinHeap`, which uses their `operator<`; take profits are in a
`MaxHeap`, which uses their `operator>`, and that compares with `<`. -/
def before (a b : ExitOrder) : Bool := a.triggerPrice < b.triggerPrice

/-- `to_close_instruction`. -/
def toCloseInstruction (x : ExitOrder) : Order where
  isExitOrder := true
  quantity := x.triggerQuantity
  symbol := x.symbol
  action := if x.isShortPosition then Constants.buy else Constants.sell
  orderType := Constants.market
  sourceFillUuid := some x.fillUuid

end ExitOrder

structure Position where
  symbol : Symbol
  quantity : ℚ
  averagePrice : Money
  deriving DecidableEq

structure EquitySnapshot where
  timestampNs : ℤ
  equity : Money
  returns : ℚ
  maxDrawdown : ℚ
  deriving DecidableEq

structure ExecutionResultSuccess where
  cashDelta : Money
  marginUsed : Money
  leverage : ℚ
  position : Position
  fill : Fill
  exitOrders : List ExitOrder
  partialOrder : Option Order
  deriving DecidableEq

/-- `ExecutionResult`: a success or an error message. -/
abbrev ExecutionResult := Except String ExecutionResultSuccess

structure ScheduledOrder where
  order : Order
  scheduledFillAtNs : ℤ
  deriving DecidableEq

def ScheduledOrder.before (a b : ScheduledOrder) : Bool := a.scheduledFillAtNs < b.scheduledFillAtNs

/-- The side of a book or of a lot. -/
inductive Side
  | buy | sell
  deriving DecidableEq

/-- `LimitBuyOrder` and `LimitSellOrder`. -/
structure LimitOrder where
  order : Order
  limitPrice : Money
  deriving DecidableEq

/-- Buy limits are in a `MaxHeap` over `>`, sell limits in a `MinHeap` over `<`. -/
def LimitOrder.before : Side → LimitOrder → LimitOrder → Bool
  | .buy, a, b => a.limitPrice > b.limitPrice
  | .sell, a, b => a.limitPrice < b.limitPrice

def Fill.isOn (f : Fill) : Side → Bool
  | .buy => f.isBuy
  | .sell => f.isSell

end QuantForge
