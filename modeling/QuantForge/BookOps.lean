import QuantForge.ServiceOrder
import QuantForge.OrderFlow

/-!
# What goes into the books and what comes out

The order that a pass over the order book or over the limit books takes out next (`dueOrder`, `firedLimit`), and the
orders that a step puts in (`arrivals`): the remainder of the order it executes, or the orders of the plugin's answer
in the order of its instructions.  The order book and every limit heap are what these operations make of an empty heap
(`orderBook_history`, `limitHeap_history`).
-/

namespace QuantForge

open BinaryHeap

/-! ### Keys -/

/-- What the heap of a side goes by: the highest buy limit first, the lowest sell limit first. -/
def LimitOrder.key : Side → LimitOrder → ℤ
  | .buy, x => -x.limitPrice
  | .sell, x => x.limitPrice

theorem ScheduledOrder.keyedBy : KeyedBy ScheduledOrder.before ScheduledOrder.scheduledFillAtNs :=
  fun _ _ => decide_eq_true_iff

theorem LimitOrder.keyedBy (side : Side) : KeyedBy (LimitOrder.before side) (LimitOrder.key side) := by
  intro a b
  cases side with
  | buy => simp [LimitOrder.before, LimitOrder.key]
  | sell => simp [LimitOrder.before, LimitOrder.key]

namespace BackTestEngine

variable {createUuid : ℕ → Uuid} {hp : HostParams}

/-! ### What a pass takes out -/

/-- The order that `execute_order_book` takes out next. -/
def dueOrder (bar : AggregateBarResult) (e : BackTestEngine) : Option ScheduledOrder :=
  e.orderBook.top.filter fun x => x.scheduledFillAtNs ≤ bar.unixTsNs

/-- The limit order of a symbol that `process_buy_limits` or `process_sell_limits` takes out next. -/
def firedLimit (side : Side) (symbol : Symbol) (e : BackTestEngine) : Option LimitOrder :=
  if e.state.hasSymbolPrices symbol then
    (e.limitOrderBook.heap side symbol).top.filter fun x => !limitOutOfReach e.state side symbol x
  else none

/-- The engine without the order at the top of the order book. -/
def popOrder (e : BackTestEngine) : BackTestEngine := { e with orderBook := e.orderBook.pop }

/-- The engine without the order at the top of a limit heap. -/
def popLimit (side : Side) (symbol : Symbol) (e : BackTestEngine) : BackTestEngine :=
  { e with limitOrderBook := e.limitOrderBook.setHeap side symbol (e.limitOrderBook.heap side symbol).pop }

theorem executeOrderBook_eq (bar : AggregateBarResult) (e : BackTestEngine) :
    executeOrderBook createUuid hp bar e =
      (dueOrder bar e).map fun x => execute createUuid hp (popOrder e) x.order := by
  unfold executeOrderBook dueOrder
  split
  · rename_i htop
    simp [htop]
  · rename_i x htop
    split
    · rename_i hlate
      simpa [htop] using hlate
    · rename_i hdue
      simp [htop, not_lt.1 hdue, popOrder]

theorem processLimits_eq (side : Side) (symbol : Symbol) (symbols : List Symbol) (e : BackTestEngine) :
    processLimits createUuid hp side (symbol :: symbols, e) = some (match firedLimit side symbol e with
      | none => (symbols, e)
      | some x => (symbol :: symbols, execute createUuid hp (popLimit side symbol e) x.order)) := by
  simp only [processLimits, firedLimit]
  split
  · rename_i hprices
    simp [show e.state.hasSymbolPrices symbol = false by simpa using hprices]
  · rename_i hprices
    have hprices : e.state.hasSymbolPrices symbol = true := by simpa using hprices
    split
    · rename_i htop
      simp [hprices, htop]
    · rename_i x htop
      split
      · rename_i hout
        simp [htop, Option.filter_some, hout]
      · rename_i hin
        simp [htop, Option.filter_some, hin, popLimit]

theorem dueOrder_eq_some {bar : AggregateBarResult} {e : BackTestEngine} {x : ScheduledOrder} :
    dueOrder bar e = some x ↔ e.orderBook.top = some x ∧ x.scheduledFillAtNs ≤ bar.unixTsNs := by
  simp [dueOrder, Option.filter_eq_some_iff]

theorem firedLimit_eq_some {side : Side} {symbol : Symbol} {e : BackTestEngine} {x : LimitOrder} :
    firedLimit side symbol e = some x ↔ e.state.hasSymbolPrices symbol = true ∧
      (e.limitOrderBook.heap side symbol).top = some x ∧ limitOutOfReach e.state side symbol x = false := by
  unfold firedLimit
  split
  · rename_i hprices
    simp [hprices, Option.filter_eq_some_iff]
  · rename_i hprices
    simp [hprices]

theorem nextExecution_orderBook {c : Config} {bar : AggregateBarResult} (hphase : c.phase = .orderBook bar) :
    nextExecution c = (dueOrder bar c.engine).map fun x => (x.order, popOrder c.engine) := by
  simp only [nextExecution, hphase, dueOrder]
  split
  · rename_i htop
    simp [htop]
  · rename_i x htop
    split
    · rename_i hlate
      simpa [htop] using hlate
    · rename_i hdue
      simp [htop, not_lt.1 hdue, popOrder]

theorem nextExecution_limits {c : Config} {side : Side} {symbol : Symbol} {symbols : List Symbol}
    (hphase : c.phase = .limits side (symbol :: symbols)) :
    nextExecution c = (firedLimit side symbol c.engine).map fun x => (x.order, popLimit side symbol c.engine) := by
  have hn : nextExecution c = nextLimit side (symbol :: symbols) c.engine := by
    unfold nextExecution
    rw [hphase]
    cases side <;> rfl
  rw [hn]
  simp only [nextLimit, firedLimit]
  split
  · rename_i hprices
    simp [show c.engine.state.hasSymbolPrices symbol = false by simpa using hprices]
  · rename_i hprices
    rw [if_pos (by simpa using hprices)]
    split
    · rename_i htop
      simp [htop]
    · rename_i x htop
      split
      · rename_i hout
        simp [htop, Option.filter_some, hout]
      · rename_i hin
        simp [htop, Option.filter_some, hin, popLimit]

/-! ### What scheduling puts in -/

/-- An order as it goes into the order book; a limit order does not. -/
def marketOrderOf (hp : HostParams) (s : State) (o : Order) : Option ScheduledOrder :=
  if o.isLimitOrder then none else some (createScheduledOrder o hp s)

/-- An order as it goes into the heap of a side and a symbol. -/
def limitOrderOf (side : Side) (symbol : Symbol) (o : Order) : Option LimitOrder :=
  if o.isLimitOrder ∧ o.isBuy = decide (side = .buy) ∧ o.symbol = symbol then o.limitPrice.map (⟨o, ·⟩) else none

theorem orderBook_schedule (e : BackTestEngine) (o : Order) :
    (e.schedule o hp).orderBook = e.orderBook.pushAll (marketOrderOf hp e.state o).toList := by
  rcases schedule_cases e o hp with ⟨hmarket, he⟩ | ⟨limit, -, hlimit, he⟩
  · rw [he, marketOrderOf, if_neg (by simp [hmarket])]
    rfl
  · rw [he, marketOrderOf, if_pos hlimit]
    rfl

theorem limitHeap_schedule (e : BackTestEngine) (o : Order) (side : Side) (symbol : Symbol) :
    (e.schedule o hp).limitOrderBook.heap side symbol =
      (e.limitOrderBook.heap side symbol).pushAll (limitOrderOf side symbol o).toList := by
  rcases schedule_cases e o hp with ⟨hmarket, he⟩ | ⟨limit, hprice, hlimit, he⟩
  · rw [he, limitOrderOf, if_neg (by simp [hmarket])]
    rfl
  · rw [he]
    show (e.limitOrderBook.setHeap _ o.symbol _).heap side symbol = _
    by_cases hside : side = (if o.isBuy then .buy else .sell) ∧ symbol = o.symbol
    · have hof : limitOrderOf side symbol o = some ⟨o, limit⟩ := by
        rw [limitOrderOf, if_pos, hprice]
        · rfl
        · refine ⟨hlimit, ?_, hside.2.symm⟩
          rw [hside.1]
          cases o.isBuy <;> rfl
      obtain ⟨rfl, rfl⟩ := hside
      rw [limitHeap_setHeap_self, hof]
      rfl
    · rw [limitHeap_setHeap_ne _ hside, limitOrderOf, if_neg]
      · rfl
      · rintro ⟨-, hbuy, rfl⟩
        refine hside ⟨?_, rfl⟩
        rw [hbuy]
        cases side <;> rfl

/-- Scheduling a list of orders, first to last. -/
def scheduleAll (hp : HostParams) (e : BackTestEngine) (l : List Order) : BackTestEngine :=
  l.foldl (fun e o => e.schedule o hp) e

theorem orderBook_scheduleAll (e : BackTestEngine) (l : List Order) :
    (scheduleAll hp e l).orderBook = e.orderBook.pushAll (l.filterMap (marketOrderOf hp e.state)) := by
  induction l generalizing e with
  | nil => rfl
  | cons o l ih =>
    show (scheduleAll hp (e.schedule o hp) l).orderBook = _
    rw [ih, orderBook_schedule, (sameAccount_schedule e o hp).state, List.filterMap_cons]
    cases marketOrderOf hp e.state o <;> rfl

theorem limitHeap_scheduleAll (e : BackTestEngine) (l : List Order) (side : Side) (symbol : Symbol) :
    (scheduleAll hp e l).limitOrderBook.heap side symbol =
      (e.limitOrderBook.heap side symbol).pushAll (l.filterMap (limitOrderOf side symbol)) := by
  induction l generalizing e with
  | nil => rfl
  | cons o l ih =>
    show (scheduleAll hp (e.schedule o hp) l).limitOrderBook.heap side symbol = _
    rw [ih, limitHeap_schedule, List.filterMap_cons]
    cases limitOrderOf side symbol o <;> rfl

/-- The orders of a plugin's answer: those of the instructions before the first that throws. -/
def issuedOrders (hp : HostParams) (e : BackTestEngine) : List CInstruction → List Order
  | [] => []
  | c :: l => match instructionOrder hp e c with
    | .ok o => o :: issuedOrders hp e l
    | .error _ => []

/-- The plugin's answer is turned into orders, which are scheduled one after the other up to an exception. -/
theorem leftBy_schedulePluginInstructions (e : BackTestEngine) (r : PluginResult) :
    leftBy (schedulePluginInstructions hp e r) = scheduleAll hp e (issuedOrders hp e r.instructions) := by
  unfold schedulePluginInstructions
  generalize r.instructions = l
  -- the account, which is what the instructions are read with, stays as scheduling goes on
  suffices h : ∀ e', SameAccount e e' →
      leftBy (l.foldlM (scheduleInstruction hp) e') = scheduleAll hp e' (issuedOrders hp e l) from
    h e (SameAccount.refl e)
  induction l with
  | nil => exact fun e' _ => rfl
  | cons c l ih =>
    intro e' he
    have hc : instructionOrder hp e' c = instructionOrder hp e c := by
      unfold instructionOrder
      rw [he.state, he.processed]
    rw [List.foldlM_cons, issuedOrders, scheduleInstruction, hc]
    rcases instructionOrder hp e c with m | o
    · rfl
    · exact ih _ (he.trans (sameAccount_schedule e' o hp))

/-! ### What a step puts in and takes out -/

/-- What an execution schedules: the remainder of the order, if there is one. -/
def remainders (createUuid : ℕ → Uuid) (hp : HostParams) (e : BackTestEngine) (o : Order) : List Order :=
  match Executor.executeOrder o hp e.state (createUuid e.uuidCount) with
  | .ok r => r.partialOrder.toList
  | .error _ => []

/-- The orders that the next step schedules, first to last. -/
def arrivals (createUuid : ℕ → Uuid) (hp : HostParams) (c : Config) : List Order :=
  match nextExecution c with
  | some (o, e) => remainders createUuid hp e o
  | none =>
    if c.phase = .onBar ∧ c.result.code = 0 then issuedOrders hp c.engine c.result.instructions else []

/-- The order that the next step takes out of the order book. -/
def servedOrder (c : Config) : Option ScheduledOrder :=
  match c.phase with
  | .orderBook bar => dueOrder bar c.engine
  | _ => none

/-- The symbol whose limit orders of a side are next. -/
def Phase.visited (side : Side) : Phase → Option Symbol
  | .buyLimits symbols => if side = .buy then symbols.head? else none
  | .sellLimits symbols => if side = .sell then symbols.head? else none
  | _ => none

theorem Phase.visited_eq_some {side : Side} {p : Phase} {symbol : Symbol} :
    p.visited side = some symbol ↔ ∃ symbols, p = .limits side (symbol :: symbols) := by
  constructor
  · intro h
    cases p with
    | buyLimits l =>
      cases side with
      | buy => cases l <;> simp_all [Phase.visited, Phase.limits]
      | sell => cases h
    | sellLimits l =>
      cases side with
      | buy => cases h
      | sell => cases l <;> simp_all [Phase.visited, Phase.limits]
    | _ => cases h
  · rintro ⟨symbols, rfl⟩
    cases side <;> rfl

/-- The order that the next step takes out of the heap of a side and a symbol. -/
def servedLimit (side : Side) (symbol : Symbol) (c : Config) : Option LimitOrder :=
  if c.phase.visited side = some symbol then firedLimit side symbol c.engine else none

theorem nextExecution_of_servedOrder {c : Config} {x : ScheduledOrder} (h : servedOrder c = some x) :
    nextExecution c = some (x.order, popOrder c.engine) := by
  unfold servedOrder at h
  split at h
  · rename_i bar hphase
    rw [nextExecution_orderBook hphase, h]
    rfl
  · cases h

theorem nextExecution_of_servedLimit {side : Side} {symbol : Symbol} {c : Config} {x : LimitOrder}
    (h : servedLimit side symbol c = some x) :
    nextExecution c = some (x.order, popLimit side symbol c.engine) := by
  unfold servedLimit at h
  split at h
  · rename_i hv
    obtain ⟨symbols, hphase⟩ := Phase.visited_eq_some.1 hv
    rw [nextExecution_limits hphase, h]
    rfl
  · cases h

/-- The engine without the order that the next step takes out. -/
def withoutServed (c : Config) : BackTestEngine :=
  match nextExecution c with
  | some (_, e) => e
  | none => c.engine

theorem step_of_nextExecution {c : Config} {o : Order} {e : BackTestEngine} (hn : nextExecution c = some (o, e)) :
    step createUuid hp c = some { c with engine := execute createUuid hp e o } := by
  obtain ⟨feed, phase, result, engine⟩ := c
  cases nextExecution_cases hn with
  | orderBook bar x hphase htop hdue ho he =>
    obtain rfl : phase = _ := hphase
    simp only [step, executeOrderBook_eq, dueOrder_eq_some.2 ⟨htop, hdue⟩, Option.map_some, ho, he]
    rfl
  | limit side symbol symbols x hphase hprices htop hreach ho he =>
    obtain rfl : phase = _ := hphase
    have hfired := firedLimit_eq_some.2 ⟨hprices, htop, hreach⟩
    cases side <;>
      simp only [step, Phase.limits, processBuyLimits, processSellLimits, processLimits_eq, hfired, ho, he] <;> rfl
  | exit kind l x hphase htop hpos hprices htrig ho he =>
    obtain rfl : phase = _ := hphase
    have hsome : (engine.state.positions.lookup x.symbol).isNone = false := by
      rw [Option.isNone_eq_false_iff]
      exact hpos
    cases kind <;>
      simp only [step, Phase.exits, processStopLossHeap, processTakeProfitHeap, processExitHeap, htop, hsome, hprices,
        htrig, ho, he, Bool.not_true, Bool.false_eq_true, if_true, if_false] <;> rfl

variable (createUuid hp) in
/-- The books after an execution. -/
theorem execute_books (e : BackTestEngine) (o : Order) :
    (execute createUuid hp e o).orderBook = (scheduleAll hp e (remainders createUuid hp e o)).orderBook ∧
      (execute createUuid hp e o).limitOrderBook =
        (scheduleAll hp e (remainders createUuid hp e o)).limitOrderBook := by
  unfold remainders
  rcases Executor.executeOrder_cases o hp e.state (createUuid e.uuidCount) with ⟨m, hm⟩ | ⟨ha, hok⟩
  · rw [hm, execute_of_error hm]
    exact ⟨rfl, rfl⟩
  · rw [hok, execute_accepted ha]
    dsimp only
    rw [scheduleRemainder]
    cases (Executor.success o hp e.state (createUuid e.uuidCount)).partialOrder <;> exact ⟨rfl, rfl⟩

/-- A step takes out the order it executes and schedules what arrives. -/
theorem step_books {c c' : Config} (h : step createUuid hp c = some c') :
    c'.engine.orderBook = (scheduleAll hp (withoutServed c) (arrivals createUuid hp c)).orderBook ∧
      c'.engine.limitOrderBook = (scheduleAll hp (withoutServed c) (arrivals createUuid hp c)).limitOrderBook := by
  rcases hn : nextExecution c with _ | ⟨o, e⟩
  · unfold withoutServed arrivals
    rw [hn]
    dsimp only
    by_cases hphase : c.phase = .onBar
    · unfold step at h
      rw [hphase] at h
      dsimp only at h
      split at h
      · rename_i hcode
        cases h
        rw [if_neg fun hc => hcode hc.2]
        exact ⟨rfl, rfl⟩
      · rename_i hcode
        rw [if_pos ⟨hphase, not_not.1 hcode⟩]
        rw [← leftBy_schedulePluginInstructions]
        rcases hl : schedulePluginInstructions hp c.engine c.result with t | e
        · rw [hl] at h
          cases h
          exact ⟨rfl, rfl⟩
        · rw [hl] at h
          cases h
          obtain ⟨curve, peak, drawdown, hf⟩ := finishBar_frame e hp
          rw [hf]
          exact ⟨rfl, rfl⟩
    · rw [if_neg fun hc => hphase hc.1]
      cases step_kinds h with
      | execute o e hn' _ _ _ _ => rw [hn] at hn'; cases hn'
      | closed item _ _ hc => rw [hc]; exact ⟨rfl, rfl⟩
      | bar item _ _ hc => rw [hc]; exact ⟨rfl, rfl⟩
      | finish e hphase' _ _ => exact absurd hphase' hphase
      | throw t hphase' _ _ => exact absurd hphase' hphase
      | move _ _ _ _ ho hl => exact ⟨ho, hl⟩
  · rw [step_of_nextExecution hn] at h
    cases h
    unfold withoutServed arrivals
    rw [hn]
    exact execute_books createUuid hp e o

/-! ### Histories -/

/-- What the next step does to the order book. -/
def orderBookOps (createUuid : ℕ → Uuid) (hp : HostParams) (c : Config) : List (Op ScheduledOrder) :=
  (servedOrder c).toList.map .serve ++
    ((arrivals createUuid hp c).filterMap (marketOrderOf hp c.engine.state)).map .add

/-- What the next step does to the heap of a side and a symbol. -/
def limitOps (createUuid : ℕ → Uuid) (hp : HostParams) (side : Side) (symbol : Symbol) (c : Config) :
    List (Op LimitOrder) :=
  (servedLimit side symbol c).toList.map .serve ++
    ((arrivals createUuid hp c).filterMap (limitOrderOf side symbol)).map .add

theorem withoutServed_state (c : Config) : (withoutServed c).state = c.engine.state := by
  unfold withoutServed
  split
  · rename_i hn
    exact (nextExecution_sameAccount hn).state
  · rfl

/-- The order book without the order that the next step takes out. -/
theorem served_orderBook (c : Config) : Served c.engine.orderBook (servedOrder c) (withoutServed c).orderBook := by
  unfold withoutServed
  rcases hn : nextExecution c with _ | ⟨o, e⟩
  · have hnone : servedOrder c = none := by
      unfold servedOrder
      split
      · rename_i bar hphase
        rwa [nextExecution_orderBook hphase, Option.map_eq_none_iff] at hn
      · rfl
    rw [hnone]
    exact .none
  · unfold servedOrder
    cases nextExecution_cases hn with
    | orderBook bar x hphase htop hdue _ he =>
      rw [hphase, he]
      dsimp only
      rw [dueOrder_eq_some.2 ⟨htop, hdue⟩]
      exact .some htop
    | limit side symbol symbols x hphase _ _ _ _ he =>
      rw [hphase, he]
      cases side <;> exact .none
    | exit kind l x hphase _ _ _ _ _ he =>
      rw [hphase, he]
      cases kind <;> exact .none

/-- A limit heap without the order that the next step takes out. -/
theorem served_limitHeap (side : Side) (symbol : Symbol) (c : Config) :
    Served (c.engine.limitOrderBook.heap side symbol) (servedLimit side symbol c)
      ((withoutServed c).limitOrderBook.heap side symbol) := by
  unfold withoutServed servedLimit
  rcases hn : nextExecution c with _ | ⟨o, e⟩
  · split
    · rename_i hv
      obtain ⟨symbols, hphase⟩ := Phase.visited_eq_some.1 hv
      rw [nextExecution_limits hphase, Option.map_eq_none_iff] at hn
      rw [hn]
      exact .none
    · exact .none
  · cases nextExecution_cases hn with
    | orderBook bar x hphase _ _ _ he =>
      rw [hphase, he]
      exact .none
    | limit side' symbol' symbols x hphase hprices htop hreach _ he =>
      rw [hphase, he]
      dsimp only
      by_cases heq : side = side' ∧ symbol = symbol'
      · obtain ⟨rfl, rfl⟩ := heq
        rw [if_pos (Phase.visited_eq_some.2 ⟨symbols, rfl⟩), firedLimit_eq_some.2 ⟨hprices, htop, hreach⟩,
          limitHeap_setHeap_self]
        exact .some htop
      · rw [limitHeap_setHeap_ne _ heq, if_neg]
        · exact .none
        · intro hv
          obtain ⟨symbols', hl⟩ := Phase.visited_eq_some.1 hv
          refine heq ?_
          cases side <;> cases side' <;> cases hl <;> exact ⟨rfl, rfl⟩
    | exit kind l x hphase _ _ _ _ _ he =>
      rw [hphase, he]
      cases kind <;> exact .none

/-- One step of the order book's history. -/
theorem orderBook_history_step {c c' : Config} {ops : List (Op ScheduledOrder)}
    (hist : History c.engine.orderBook ops)
    (hs : step createUuid hp c = some c') : History c'.engine.orderBook (ops ++ orderBookOps createUuid hp c) := by
  rw [(step_books hs).1, orderBook_scheduleAll, withoutServed_state]
  exact hist.serve (served_orderBook c) _

/-- One step of the history of a limit heap. -/
theorem limitHeap_history_step {side : Side} {symbol : Symbol} {c c' : Config} {ops : List (Op LimitOrder)}
    (hist : History (c.engine.limitOrderBook.heap side symbol) ops) (hs : step createUuid hp c = some c') :
    History (c'.engine.limitOrderBook.heap side symbol) (ops ++ limitOps createUuid hp side symbol c) := by
  rw [(step_books hs).2, limitHeap_scheduleAll]
  exact hist.serve (served_limitHeap side symbol c) _

/-- The order book is what the operations of the run make of an empty heap. -/
theorem orderBook_history {feed : List FeedItem} {c : Config} {ops : List (Op ScheduledOrder)}
    (ht : Loop.Trace (step createUuid hp) (orderBookOps createUuid hp) (start hp feed) ops c) :
    History c.engine.orderBook ops := by
  induction ht with
  | refl => exact .empty
  | tail _ hs ih => exact orderBook_history_step ih hs

/-- A limit heap is what the operations of the run make of an empty heap. -/
theorem limitHeap_history {side : Side} {symbol : Symbol} {feed : List FeedItem} {c : Config}
    {ops : List (Op LimitOrder)}
    (ht : Loop.Trace (step createUuid hp) (limitOps createUuid hp side symbol) (start hp feed) ops c) :
    History (c.engine.limitOrderBook.heap side symbol) ops := by
  induction ht with
  | refl => cases side <;> exact .empty
  | tail _ hs ih => exact limitHeap_history_step ih hs

theorem exists_orderBook_history {feed : List FeedItem} {c : Config} (hr : Reachable createUuid hp feed c) :
    ∃ ops, History c.engine.orderBook ops := by
  obtain ⟨ops, ht⟩ := Loop.exists_trace (orderBookOps createUuid hp) hr
  exact ⟨ops, orderBook_history ht⟩

theorem exists_limitHeap_history {feed : List FeedItem} {c : Config} (hr : Reachable createUuid hp feed c)
    (side : Side) (symbol : Symbol) : ∃ ops, History (c.engine.limitOrderBook.heap side symbol) ops := by
  obtain ⟨ops, ht⟩ := Loop.exists_trace (limitOps createUuid hp side symbol) hr
  exact ⟨ops, limitHeap_history ht⟩

end BackTestEngine

end QuantForge
