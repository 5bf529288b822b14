import QuantForge.Executor

/-!
# The exit-order book and the limit-order book

`exit_order_book.cpp` and `limit_order_book.cpp`, without the loops that fire orders: these call back into the engine
and are in `QuantForge.Engine`.
-/

namespace QuantForge

/-- `ExitOrderBook`. -/
structure ExitOrderBook where
  stopLossHeap : BinaryHeap ExitOrder.before := .empty
  takeProfitHeap : BinaryHeap ExitOrder.before := .empty

namespace ExitOrderBook

def heap (b : ExitOrderBook) : ExitKind → BinaryHeap ExitOrder.before
  | .stopLoss => b.stopLossHeap
  | .takeProfit => b.takeProfitHeap

def setHeap (b : ExitOrderBook) (kind : ExitKind) (h : BinaryHeap ExitOrder.before) : ExitOrderBook :=
  match kind with
  | .stopLoss => { b with stopLossHeap := h }
  | .takeProfit => { b with takeProfitHeap := h }

def addExitOrder (b : ExitOrderBook) (order : ExitOrder) : ExitOrderBook :=
  b.setHeap order.kind ((b.heap order.kind).push order)

/-- What `reduce_exit_orders_by_fill_uuid` keeps of one exit order. -/
def reduceOrder (fillUuid : Uuid) (quantitySold : ℚ) (x : ExitOrder) : Option ExitOrder :=
  if x.fillUuid = fillUuid then
    if x.triggerQuantity > quantitySold then some { x with triggerQuantity := x.triggerQuantity - quantitySold }
    else none
  else some x

/-- Drain a heap, keep what remains of its orders, and push it back. -/
def reduceHeap (h : BinaryHeap ExitOrder.before) (fillUuid : Uuid) (quantitySold : ℚ) : BinaryHeap ExitOrder.before :=
  BinaryHeap.empty.pushAll (h.drain.filterMap (reduceOrder fillUuid quantitySold))

def reduceExitOrdersByFillUuid (b : ExitOrderBook) (fillUuid : Uuid) (quantitySold : ℚ) : ExitOrderBook where
  stopLossHeap := reduceHeap b.stopLossHeap fillUuid quantitySold
  takeProfitHeap := reduceHeap b.takeProfitHeap fillUuid quantitySold

def reduceExitOrdersByFills (b : ExitOrderBook) (closedFills : List (Uuid × ℚ)) : ExitOrderBook :=
  closedFills.foldl (fun b c => b.reduceExitOrdersByFillUuid c.1 c.2) b

end ExitOrderBook

/-- `LimitOrderBook`: a heap of limit orders for each symbol and side. -/
structure LimitOrderBook where
  buyLimits : Map Symbol (BinaryHeap (LimitOrder.before .buy)) := ∅
  sellLimits : Map Symbol (BinaryHeap (LimitOrder.before .sell)) := ∅

namespace LimitOrderBook

def limits (b : LimitOrderBook) : (side : Side) → Map Symbol (BinaryHeap (LimitOrder.before side))
  | .buy => b.buyLimits
  | .sell => b.sellLimits

def setLimits (b : LimitOrderBook) : (side : Side) → Map Symbol (BinaryHeap (LimitOrder.before side)) → LimitOrderBook
  | .buy, m => { b with buyLimits := m }
  | .sell, m => { b with sellLimits := m }

/-- The heap of a symbol, empty when there is none yet (`operator[]`). -/
def heap (b : LimitOrderBook) (side : Side) (symbol : Symbol) : BinaryHeap (LimitOrder.before side) :=
  ((b.limits side).lookup symbol).getD .empty

def setHeap (b : LimitOrderBook) (side : Side) (symbol : Symbol) (h : BinaryHeap (LimitOrder.before side)) :
    LimitOrderBook :=
  b.setLimits side ((b.limits side).insert symbol h)

def addLimitOrder (b : LimitOrderBook) (side : Side) (x : LimitOrder) : LimitOrderBook :=
  b.setHeap side x.order.symbol ((b.heap side x.order.symbol).push x)

end LimitOrderBook

end QuantForge
