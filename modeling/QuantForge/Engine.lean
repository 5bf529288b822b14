import Mathlib.Data.String.Basic
import QuantForge.Books
import QuantForge.Loop

/-!
# The back-test engine

`back_test_engine.cpp` with the loops of the two books.  A `while` loop is given by its body, a function that makes
one iteration and answers `none` when the loop is left (`QuantForge.Loop`); `BackTestEngine.step` strings the loops of
a bar together, so that a run is a sequence of steps and its intermediate states are visible.  What the run takes from
outside are the bars, the answers of the plugin to them, and the uuids.
-/

namespace QuantForge

/-- An accepted execution: the order, the result and the number of bars processed so far (the current one
included). -/
structure Execution where
  order : Order
  result : ExecutionResultSuccess
  bar : ℕ
  deriving DecidableEq

/-- `BackTestEngine`.  `uuidCount` counts the uuids drawn; `processed` and `executions` are histories that no function
reads. -/
structure BackTestEngine where
  state : State := {}
  orderBook : BinaryHeap ScheduledOrder.before := .empty
  exitOrderBook : ExitOrderBook := {}
  limitOrderBook : LimitOrderBook := {}
  uuidCount : ℕ := 0
  processed : List AggregateBarResult := []
  executions : List Execution := []

namespace BackTestEngine

def createScheduledOrder (order : Order) (hp : HostParams) (s : State) : ScheduledOrder :=
  ⟨order, calculateSlippageTimeNs order hp s⟩

/-- Put a limit order into its book and any other order into the order book.  `create_scheduled_limit_order` throws
without a limit price, but a limit order has one; what is not a buy is filed as a sell. -/
def schedule (e : BackTestEngine) (order : Order) (hp : HostParams) : BackTestEngine :=
  match order.limitPrice with
  | some limit =>
    if order.isLimitOrder then
      { e with
        limitOrderBook :=
          e.limitOrderBook.addLimitOrder (if order.isBuy then .buy else .sell) ⟨order, limit⟩ }
    else { e with orderBook := e.orderBook.push (createScheduledOrder order hp e.state) }
  | none => { e with orderBook := e.orderBook.push (createScheduledOrder order hp e.state) }

/-- The lots an accepted fill is about to close. -/
def fillsClosedBy (fill : Fill) (s : State) : List (Uuid × ℚ) :=
  if fill.isSell then PositionCalc.findBuyFillUuidsClosedBySell fill s
  else if fill.isBuy then PositionCalc.findSellFillUuidsClosedByBuy fill s
  else []

/-- Schedule the remainder of a partial fill. -/
def scheduleRemainder (e : BackTestEngine) (r : ExecutionResultSuccess) (hp : HostParams) : BackTestEngine :=
  match r.partialOrder with
  | some order => e.schedule order hp
  | none => e

/-- The success branch of `handle_execution_result`. -/
def applySuccess (e : BackTestEngine) (r : ExecutionResultSuccess) (hp : HostParams) : BackTestEngine :=
  -- the exit orders are reduced against the account before the fill
  let e := { e with exitOrderBook := e.exitOrderBook.reduceExitOrdersByFills (fillsClosedBy r.fill e.state) }
  let e := { e with exitOrderBook := r.exitOrders.foldl ExitOrderBook.addExitOrder e.exitOrderBook }
  let e := e.scheduleRemainder r hp
  { e with state := e.state.updateState r }

def handleExecutionResult (e : BackTestEngine) (r : ExecutionResult) (hp : HostParams) : BackTestEngine :=
  match r with
  | .error _ => e
  | .ok r => e.applySuccess r hp

section

variable (createUuid : ℕ → Uuid) (hp : HostParams)

/-- The callback of every loop: `execute_order` and `handle_execution_result`. -/
def execute (e : BackTestEngine) (order : Order) : BackTestEngine :=
  let r := Executor.executeOrder order hp e.state (createUuid e.uuidCount)
  let e := { e with uuidCount := e.uuidCount + 1 }
  let e' := e.handleExecutionResult r hp
  match r with
  | .error _ => e'
  | .ok r => { e' with executions := e'.executions ++ [⟨order, r, e'.processed.length⟩] }

/-- One iteration of `execute_order_book`. -/
def executeOrderBook (bar : AggregateBarResult) (e : BackTestEngine) : Option BackTestEngine :=
  match e.orderBook.top with
  | none => none
  | some x =>
    if x.scheduledFillAtNs > bar.unixTsNs then none
    -- the remainder of this order, if due at once, is found by the next iteration
    else some (execute createUuid hp { e with orderBook := e.orderBook.pop } x.order)

/-- The price has not reached a limit order: the low is above a buy limit, the high below a sell limit. -/
def limitOutOfReach (s : State) (side : Side) (symbol : Symbol) (x : LimitOrder) : Bool :=
  match side with
  | .buy => s.getSymbolLow symbol > x.limitPrice
  | .sell => s.getSymbolHigh symbol < x.limitPrice

/-- One iteration of the nested loops of `process_buy_limits` and `process_sell_limits`: fire an order of the first
symbol still to be visited, or go on to the next symbol. -/
def processLimits (side : Side) : List Symbol × BackTestEngine → Option (List Symbol × BackTestEngine)
  | ([], _) => none
  | (symbol :: symbols, e) =>
    if !e.state.hasSymbolPrices symbol then some (symbols, e)
    else match (e.limitOrderBook.heap side symbol).top with
      | none => some (symbols, e)
      | some x =>
        if limitOutOfReach e.state side symbol x then some (symbols, e)
        else
          let popped := (e.limitOrderBook.heap side symbol).pop
          let e := { e with limitOrderBook := e.limitOrderBook.setHeap side symbol popped }
          some (symbol :: symbols, execute createUuid hp e x.order)

def processBuyLimits := processLimits createUuid hp .buy

def processSellLimits := processLimits createUuid hp .sell

/-- The price has reached an exit order. -/
def shouldTrigger (s : State) (x : ExitOrder) : Bool :=
  match x.kind with
  | .stopLoss =>
    if x.isShortPosition then s.getSymbolHigh x.symbol ≥ x.triggerPrice else s.getSymbolLow x.symbol ≤ x.triggerPrice
  | .takeProfit =>
    if x.isShortPosition then s.getSymbolLow x.symbol ≤ x.triggerPrice else s.getSymbolHigh x.symbol ≥ x.triggerPrice

/-- One iteration of `process_stop_loss_heap` and `process_take_profit_heap`.  The list holds the orders that did not
trigger; they are out of the heap until the pass is over. -/
def processExitHeap (kind : ExitKind) : List ExitOrder × BackTestEngine → Option (List ExitOrder × BackTestEngine)
  | (notTriggered, e) =>
    match (e.exitOrderBook.heap kind).top with
    | none => none
    | some x =>
      let popped := { e with exitOrderBook := e.exitOrderBook.setHeap kind (e.exitOrderBook.heap kind).pop }
      -- without a position or prices the order is lost
      if (e.state.positions.lookup x.symbol).isNone then some (notTriggered, popped)
      else if !e.state.hasSymbolPrices x.symbol then some (notTriggered, popped)
      else if shouldTrigger e.state x then
        some (notTriggered, execute createUuid hp popped x.toCloseInstruction)
      else some (notTriggered ++ [x], popped)

def processStopLossHeap := processExitHeap createUuid hp .stopLoss

def processTakeProfitHeap := processExitHeap createUuid hp .takeProfit

/-- The end of an exit pass: the orders that did not trigger go back into the heap. -/
def restoreExitOrders (kind : ExitKind) (notTriggered : List ExitOrder) (e : BackTestEngine) : BackTestEngine :=
  { e with
    exitOrderBook := e.exitOrderBook.setHeap kind ((e.exitOrderBook.heap kind).pushAll notTriggered) }

/-! ### Scheduling the plugin's instructions -/

/-- `ABIConverter::to_instruction`. -/
def toInstruction : CInstruction → Except String Instruction
  | .signal inst => .ok (.signal ⟨inst.symbol, inst.action⟩)
  | .order inst => .ok (.order (Order.ofCOrder inst))
  | .invalid => .error "Invalid instruction type"

/-- The order of an instruction.  Sizing a signal reads the close of its symbol with `at`. -/
def instructionToOrder (hp : HostParams) (s : State) : Instruction → Except String Order
  | .signal signal =>
    if s.hasSymbolPrices signal.symbol then .ok (Executor.signalToOrder signal hp s) else .error "map::at"
  | .order order => .ok order

/-- The order of an instruction, with the bar in which it is issued. -/
def instructionOrder (e : BackTestEngine) (c : CInstruction) : Except String Order := do
  let instruction ← toInstruction c
  let order ← instructionToOrder hp e.state instruction
  return { order with issuedAt := some e.processed.length }

/-- An exception, and the engine as it leaves it. -/
structure Thrown where
  message : String
  engine : BackTestEngine

def scheduleInstruction (e : BackTestEngine) (c : CInstruction) : Except Thrown BackTestEngine :=
  match instructionOrder hp e c with
  | .ok order => .ok (e.schedule order hp)
  | .error message => .error ⟨message, e⟩

/-- The instructions are scheduled one by one: those before the first that throws are in the books by then. -/
def schedulePluginInstructions (e : BackTestEngine) (result : PluginResult) : Except Thrown BackTestEngine :=
  result.instructions.foldlM (scheduleInstruction hp) e

/-! ### The run -/

/-- Where `run` stands: before the next bar, in one of the loops of a bar, or stopped by an exception. -/
inductive Phase
  | nextBar
  | orderBook (bar : AggregateBarResult)
  | buyLimits (symbols : List Symbol)
  | sellLimits (symbols : List Symbol)
  | stopLosses (notTriggered : List ExitOrder)
  | takeProfits (notTriggered : List ExitOrder)
  | onBar
  | failed (message : String)
  deriving DecidableEq

/-- A bar of the feed and what the plugin's `on_bar` answers to it. -/
structure FeedItem where
  bar : AggregateBarResult
  result : PluginResult

structure Config where
  feed : List FeedItem
  phase : Phase := .nextBar
  result : PluginResult := {}
  engine : BackTestEngine

/-- The engine when a bar has been taken up. -/
def prepareNextBar (e : BackTestEngine) (bar : AggregateBarResult) : BackTestEngine :=
  { e with state := e.state.prepareNextBarState bar, processed := e.processed ++ [bar] }

/-- The end of a bar. -/
def finishBar (e : BackTestEngine) : BackTestEngine :=
  { e with state := (e.state.recordBarEquitySnapshot hp).clearPreviousBarState }

/-- One step of `run`; `none` when the feed is used up or an exception has ended the run. -/
def step (c : Config) : Option Config :=
  match c.phase with
  | .nextBar =>
    match c.feed with
    | [] => none
    | item :: feed =>
      -- a bar outside the market hours is skipped before the state sees it
      if !Exchange.isWithinMarketHourRestrictions item.bar.unixTsNs hp then some { c with feed := feed }
      else some ⟨feed, .orderBook item.bar, item.result, c.engine.prepareNextBar item.bar⟩
  | .orderBook bar =>
    match executeOrderBook createUuid hp bar c.engine with
    | some e => some { c with engine := e }
    | none => some { c with phase := .buyLimits (c.engine.limitOrderBook.limits .buy).sortedKeys }
  | .buyLimits symbols =>
    match processBuyLimits createUuid hp (symbols, c.engine) with
    | some (symbols, e) => some { c with phase := .buyLimits symbols, engine := e }
    | none => some { c with phase := .sellLimits (c.engine.limitOrderBook.limits .sell).sortedKeys }
  | .sellLimits symbols =>
    match processSellLimits createUuid hp (symbols, c.engine) with
    | some (symbols, e) => some { c with phase := .sellLimits symbols, engine := e }
    | none => some { c with phase := .stopLosses [] }
  | .stopLosses notTriggered =>
    match processStopLossHeap createUuid hp (notTriggered, c.engine) with
    | some (notTriggered, e) => some { c with phase := .stopLosses notTriggered, engine := e }
    | none => some { c with phase := .takeProfits [], engine := c.engine.restoreExitOrders .stopLoss notTriggered }
  | .takeProfits notTriggered =>
    match processTakeProfitHeap createUuid hp (notTriggered, c.engine) with
    | some (notTriggered, e) => some { c with phase := .takeProfits notTriggered, engine := e }
    | none => some { c with phase := .onBar, engine := c.engine.restoreExitOrders .takeProfit notTriggered }
  | .onBar =>
    if c.result.code ≠ 0 then some { c with phase := .failed ("Plugin on_bar failed: " ++ c.result.message) }
    else match schedulePluginInstructions hp c.engine c.result with
      | .error t => some { c with phase := .failed t.message, engine := t.engine }
      | .ok e => some { c with phase := .nextBar, engine := e.finishBar hp }
  | .failed _ => none

/-- The engine at the start of a run over `feed`. -/
def start (feed : List FeedItem) : Config where
  feed := feed
  engine := { state := ({} : State).prepareInitialState hp }

/-- A configuration some run over `feed` passes through. -/
def Reachable (feed : List FeedItem) (c : Config) : Prop :=
  StateTransition.Reaches (step createUuid hp) (start hp feed) c

end

end BackTestEngine

end QuantForge
