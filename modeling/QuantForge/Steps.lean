import QuantForge.Execution

/-!
# Steps of a run

What one step of a run can do.  `nextExecution` is the order the next step hands to `execute_order`; every other step
moves between the loops of a bar (`step_cases`).  A step leaves the account alone, takes up a bar, executes that order
or closes the bar (`step_account`).
-/

namespace QuantForge

namespace BackTestEngine

/-! ### The order a step executes -/

/-- The order fired next by the loop over the limit books, and the engine with that order popped. -/
def nextLimit (side : Side) : List Symbol → BackTestEngine → Option (Order × BackTestEngine)
  | [], _ => none
  | symbol :: _, e =>
    if !e.state.hasSymbolPrices symbol then none
    else match (e.limitOrderBook.heap side symbol).top with
      | none => none
      | some x =>
        if limitOutOfReach e.state side symbol x then none
        else some (x.order, { e with
          limitOrderBook := e.limitOrderBook.setHeap side symbol (e.limitOrderBook.heap side symbol).pop })

/-- The exit order at the top of a heap. -/
def popExit (kind : ExitKind) (e : BackTestEngine) : BackTestEngine :=
  { e with exitOrderBook := e.exitOrderBook.setHeap kind (e.exitOrderBook.heap kind).pop }

/-- The exit order fired next by a pass over an exit heap. -/
def nextExit (kind : ExitKind) (e : BackTestEngine) : Option ExitOrder :=
  match (e.exitOrderBook.heap kind).top with
  | none => none
  | some x =>
    if (e.state.positions.lookup x.symbol).isNone then none
    else if !e.state.hasSymbolPrices x.symbol then none
    else if shouldTrigger e.state x then some x
    else none

/-- The order the next step executes, and the engine it is executed in. -/
def nextExecution (c : Config) : Option (Order × BackTestEngine) :=
  match c.phase with
  | .orderBook bar =>
    match c.engine.orderBook.top with
    | none => none
    | some x =>
      if x.scheduledFillAtNs > bar.unixTsNs then none
      else some (x.order, { c.engine with orderBook := c.engine.orderBook.pop })
  | .buyLimits symbols => nextLimit .buy symbols c.engine
  | .sellLimits symbols => nextLimit .sell symbols c.engine
  | .stopLosses _ => (nextExit .stopLoss c.engine).map fun x => (x.toCloseInstruction, popExit .stopLoss c.engine)
  | .takeProfits _ =>
    (nextExit .takeProfit c.engine).map fun x => (x.toCloseInstruction, popExit .takeProfit c.engine)
  | _ => none

/-- The phase in which the limit orders of a side are processed. -/
def Phase.limits : Side → List Symbol → Phase
  | .buy => .buyLimits
  | .sell => .sellLimits

/-- The phase in which an exit heap is processed. -/
def Phase.exits : ExitKind → List ExitOrder → Phase
  | .stopLoss => .stopLosses
  | .takeProfit => .takeProfits

/-- Where the order a step executes comes from. -/
inductive NextCase (c : Config) (o : Order) (e : BackTestEngine) : Prop
  | orderBook (bar : AggregateBarResult) (x : ScheduledOrder) (hphase : c.phase = .orderBook bar)
      (htop : c.engine.orderBook.top = some x) (hdue : x.scheduledFillAtNs ≤ bar.unixTsNs) (ho : o = x.order)
      (he : e = { c.engine with orderBook := c.engine.orderBook.pop })
  | limit (side : Side) (symbol : Symbol) (symbols : List Symbol) (x : LimitOrder)
      (hphase : c.phase = .limits side (symbol :: symbols))
      (hprices : c.engine.state.hasSymbolPrices symbol = true)
      (htop : (c.engine.limitOrderBook.heap side symbol).top = some x)
      (hreach : limitOutOfReach c.engine.state side symbol x = false) (ho : o = x.order)
      (he : e = { c.engine with limitOrderBook :=
        c.engine.limitOrderBook.setHeap side symbol (c.engine.limitOrderBook.heap side symbol).pop })
  | exit (kind : ExitKind) (l : List ExitOrder) (x : ExitOrder) (hphase : c.phase = .exits kind l)
      (htop : (c.engine.exitOrderBook.heap kind).top = some x)
      (hpos : (c.engine.state.positions.lookup x.symbol).isSome)
      (hprices : c.engine.state.hasSymbolPrices x.symbol = true) (htrig : shouldTrigger c.engine.state x = true)
      (ho : o = x.toCloseInstruction) (he : e = popExit kind c.engine)

/-- The limit order fired next is the top of the heap of the first symbol, and the price has reached it. -/
theorem nextLimit_cases {side : Side} {symbols : List Symbol} {e e' : BackTestEngine} {o : Order}
    (h : nextLimit side symbols e = some (o, e')) :
    ∃ symbol rest x, symbols = symbol :: rest ∧ (e.limitOrderBook.heap side symbol).top = some x ∧ o = x.order ∧
      e' = { e with limitOrderBook :=
        e.limitOrderBook.setHeap side symbol (e.limitOrderBook.heap side symbol).pop } := by
  cases symbols with
  | nil => cases h
  | cons symbol symbols =>
    simp only [nextLimit] at h
    split at h
    · cases h
    · split at h
      · cases h
      · rename_i x htop
        split at h
        · cases h
        · cases h
          exact ⟨symbol, symbols, x, rfl, htop, rfl, rfl⟩

/-- The exit order fired next is the top of its heap; there are a position and prices for it, and it triggers. -/
theorem nextExit_eq_some {kind : ExitKind} {e : BackTestEngine} {x : ExitOrder} (h : nextExit kind e = some x) :
    (e.exitOrderBook.heap kind).top = some x ∧ (e.state.positions.lookup x.symbol).isSome ∧
      e.state.hasSymbolPrices x.symbol = true ∧ shouldTrigger e.state x = true := by
  simp only [nextExit] at h
  split at h
  · cases h
  · rename_i y htop
    split at h
    · cases h
    · rename_i hpos
      split at h
      · cases h
      · rename_i hprices
        split at h
        · rename_i htrig
          cases h
          exact ⟨htop, by simpa [Option.isSome_iff_ne_none] using hpos, by simpa using hprices, htrig⟩
        · cases h

theorem nextExecution_cases {c : Config} {o : Order} {e : BackTestEngine} (h : nextExecution c = some (o, e)) :
    NextCase c o e := by
  have limit : ∀ side symbols, c.phase = .limits side symbols → nextLimit side symbols c.engine = some (o, e) →
      NextCase c o e := by
    intro side symbols hphase h
    cases symbols with
    | nil => cases h
    | cons symbol symbols =>
      simp only [nextLimit] at h
      split at h
      · cases h
      · rename_i hprices
        split at h
        · cases h
        · rename_i x htop
          split at h
          · cases h
          · rename_i hreach
            cases h
            exact .limit side symbol symbols x hphase (by simpa using hprices) htop (by simpa using hreach) rfl rfl
  have exit : ∀ kind l, c.phase = .exits kind l →
      (nextExit kind c.engine).map (fun x => (x.toCloseInstruction, popExit kind c.engine)) = some (o, e) →
      NextCase c o e := by
    intro kind l hphase h
    obtain ⟨x, hx, he⟩ := Option.map_eq_some_iff.1 h
    cases he
    obtain ⟨htop, hpos, hprices, htrig⟩ := nextExit_eq_some hx
    exact .exit kind l x hphase htop hpos hprices htrig rfl rfl
  unfold nextExecution at h
  split at h
  · rename_i bar hphase
    split at h
    · cases h
    · rename_i x htop
      split at h
      · cases h
      · rename_i hdue
        cases h
        exact .orderBook bar x hphase htop (not_lt.1 hdue) rfl rfl
  · exact limit .buy _ ‹_› h
  · exact limit .sell _ ‹_› h
  · exact exit .stopLoss _ ‹_› h
  · exact exit .takeProfit _ ‹_› h
  · cases h

/-! ### What a step does to the account -/

/-- Two engines that differ at most in their books. -/
structure SameAccount (e e' : BackTestEngine) : Prop where
  state : e'.state = e.state
  uuidCount : e'.uuidCount = e.uuidCount
  processed : e'.processed = e.processed
  executions : e'.executions = e.executions

theorem SameAccount.refl (e : BackTestEngine) : SameAccount e e := ⟨rfl, rfl, rfl, rfl⟩

theorem SameAccount.trans {e e' e'' : BackTestEngine} (h : SameAccount e e') (h' : SameAccount e' e'') :
    SameAccount e e'' :=
  ⟨h'.state.trans h.state, h'.uuidCount.trans h.uuidCount, h'.processed.trans h.processed,
    h'.executions.trans h.executions⟩

theorem sameAccount_schedule (e : BackTestEngine) (o : Order) (hp : HostParams) :
    SameAccount e (e.schedule o hp) := by
  unfold schedule
  split
  · split <;> exact ⟨rfl, rfl, rfl, rfl⟩
  · exact ⟨rfl, rfl, rfl, rfl⟩

theorem exitOrderBook_schedule (e : BackTestEngine) (o : Order) (hp : HostParams) :
    (e.schedule o hp).exitOrderBook = e.exitOrderBook := by
  unfold schedule
  split
  · split <;> rfl
  · rfl

variable {createUuid : ℕ → Uuid} {hp : HostParams}

theorem instructionOrder_ok {e : BackTestEngine} {c : CInstruction} {o' : Order}
    (h : instructionOrder hp e c = .ok o') :
    ∃ i o, toInstruction c = .ok i ∧ instructionToOrder hp e.state i = .ok o ∧
      o' = { o with issuedAt := some e.processed.length } := by
  unfold instructionOrder at h
  rcases hi : toInstruction c with m | i
  · rw [hi] at h; cases h
  · rcases ho : instructionToOrder hp e.state i with m | o
    · rw [hi] at h
      simp only [bind, Except.bind, ho] at h
      cases h
    · rw [hi] at h
      simp only [bind, Except.bind, ho, pure, Except.pure] at h
      exact ⟨i, o, rfl, ho, (Except.ok.inj h).symm⟩

theorem scheduleInstruction_ok {e e' : BackTestEngine} {c : CInstruction}
    (h : scheduleInstruction hp e c = .ok e') :
    ∃ i o, toInstruction c = .ok i ∧ instructionToOrder hp e.state i = .ok o ∧
      e' = e.schedule { o with issuedAt := some e.processed.length } hp := by
  unfold scheduleInstruction at h
  split at h
  · rename_i o' ho'
    obtain ⟨i, o, hi, ho, rfl⟩ := instructionOrder_ok ho'
    exact ⟨i, o, hi, ho, (Except.ok.inj h).symm⟩
  · cases h

/-- An instruction that throws leaves the engine as it is. -/
theorem scheduleInstruction_error {e : BackTestEngine} {c : CInstruction} {t : Thrown}
    (h : scheduleInstruction hp e c = .error t) : t.engine = e := by
  unfold scheduleInstruction at h
  split at h
  · cases h
  · exact Except.error.inj h ▸ rfl

/-- The engine that scheduling leaves, with or without an exception. -/
def leftBy : Except Thrown BackTestEngine → BackTestEngine
  | .ok e => e
  | .error t => t.engine

/-- A property of engines that scheduling an instruction keeps is kept by scheduling the plugin's answer, also when an
exception ends it. -/
theorem schedulePluginInstructions_induction {P : BackTestEngine → Prop} {e : BackTestEngine}
    {r : PluginResult} (h0 : P e)
    (hs : ∀ e c i o, P e → c ∈ r.instructions → toInstruction c = .ok i → instructionToOrder hp e.state i = .ok o →
      P (e.schedule { o with issuedAt := some e.processed.length } hp)) :
    P (leftBy (schedulePluginInstructions hp e r)) := by
  unfold schedulePluginInstructions
  revert hs
  generalize r.instructions = l
  intro hs
  induction l generalizing e with
  | nil => exact h0
  | cons c l ih =>
    rw [List.foldlM_cons]
    rcases hc : scheduleInstruction hp e c with t | e1
    · show P t.engine
      rwa [scheduleInstruction_error hc]
    · obtain ⟨i, o, hi, ho, rfl⟩ := scheduleInstruction_ok hc
      exact ih (hs e c i o h0 (by simp) hi ho) fun e c i o hP hm => hs e c i o hP (by simp [hm])

theorem sameAccount_schedulePluginInstructions (hp : HostParams) (e : BackTestEngine) (r : PluginResult) :
    SameAccount e (leftBy (schedulePluginInstructions hp e r)) :=
  schedulePluginInstructions_induction (SameAccount.refl e) fun _ _ _ _ hP _ _ _ =>
    hP.trans (sameAccount_schedule _ _ _)

theorem sameAccount_scheduled {e e' : BackTestEngine} {r : PluginResult}
    (h : schedulePluginInstructions hp e r = .ok e') :
    SameAccount e e' := by
  have hsame := sameAccount_schedulePluginInstructions hp e r
  rwa [h] at hsame

theorem sameAccount_thrown {e : BackTestEngine} {r : PluginResult} {t : Thrown}
    (h : schedulePluginInstructions hp e r = .error t) : SameAccount e t.engine := by
  have hsame := sameAccount_schedulePluginInstructions hp e r
  rwa [h] at hsame

theorem exitOrderBook_schedulePluginInstructions (hp : HostParams) (e : BackTestEngine) (r : PluginResult) :
    (leftBy (schedulePluginInstructions hp e r)).exitOrderBook = e.exitOrderBook :=
  schedulePluginInstructions_induction (P := fun e' => e'.exitOrderBook = e.exitOrderBook) rfl
    fun _ _ _ _ hP _ _ _ => (exitOrderBook_schedule _ _ _).trans hP

/-- Popping the order to execute does not touch the account. -/
theorem nextExecution_sameAccount {c : Config} {o : Order} {e : BackTestEngine}
    (h : nextExecution c = some (o, e)) : SameAccount c.engine e := by
  cases nextExecution_cases h with
  | orderBook bar x _ _ _ _ he => rw [he]; exact ⟨rfl, rfl, rfl, rfl⟩
  | limit side symbol symbols x _ _ _ _ _ he => rw [he]; exact ⟨rfl, rfl, rfl, rfl⟩
  | exit kind l x _ _ _ _ _ _ he => rw [he]; exact ⟨rfl, rfl, rfl, rfl⟩

/-! ### One iteration of each loop -/

theorem executeOrderBook_cases {bar : AggregateBarResult} {e e' : BackTestEngine}
    (h : executeOrderBook createUuid hp bar e = some e') :
    ∃ x, e.orderBook.top = some x ∧ x.scheduledFillAtNs ≤ bar.unixTsNs ∧
      e' = execute createUuid hp { e with orderBook := e.orderBook.pop } x.order := by
  unfold executeOrderBook at h
  split at h
  · cases h
  · rename_i x hx
    split at h
    · cases h
    · rename_i hdue
      exact ⟨x, hx, not_lt.1 hdue, (Option.some.inj h).symm⟩

/-- An iteration of the limit loop fires an order of the first symbol or leaves that symbol. -/
theorem processLimits_cases {side : Side} {symbols symbols' : List Symbol} {e e' : BackTestEngine}
    (h : processLimits createUuid hp side (symbols, e) = some (symbols', e')) :
    (∃ o e₀, nextLimit side symbols e = some (o, e₀) ∧ symbols' = symbols ∧ e' = execute createUuid hp e₀ o) ∨
      (nextLimit side symbols e = none ∧ (∃ s, symbols = s :: symbols') ∧ e' = e) := by
  cases symbols with
  | nil => cases h
  | cons symbol symbols =>
    simp only [processLimits] at h
    split at h
    · rename_i hprices
      cases h
      exact Or.inr ⟨by simp [nextLimit, hprices], ⟨symbol, rfl⟩, rfl⟩
    · rename_i hprices
      split at h
      · rename_i htop
        cases h
        exact Or.inr ⟨by simp [nextLimit, hprices, htop], ⟨symbol, rfl⟩, rfl⟩
      · rename_i x htop
        split at h
        · rename_i hreach
          cases h
          exact Or.inr ⟨by simp [nextLimit, hprices, htop, hreach], ⟨symbol, rfl⟩, rfl⟩
        · rename_i hreach
          cases h
          exact Or.inl ⟨x.order, _, by simp [nextLimit, hprices, htop, hreach], rfl, rfl⟩

/-- The limit loop is left when no symbol is to be visited any more. -/
theorem processLimits_none {side : Side} {symbols : List Symbol} {e : BackTestEngine}
    (h : processLimits createUuid hp side (symbols, e) = none) : symbols = [] := by
  cases symbols with
  | nil => rfl
  | cons symbol symbols =>
    simp only [processLimits] at h
    split at h
    · cases h
    · split at h
      · cases h
      · split at h <;> cases h

/-- An iteration of an exit pass fires the top order, drops it (no position or no prices), or sets it aside. -/
theorem processExitHeap_cases {kind : ExitKind} {l l' : List ExitOrder} {e e' : BackTestEngine}
    (h : processExitHeap createUuid hp kind (l, e) = some (l', e')) :
    ∃ x, (e.exitOrderBook.heap kind).top = some x ∧
      ((nextExit kind e = some x ∧ l' = l ∧ e' = execute createUuid hp (popExit kind e) x.toCloseInstruction) ∨
        (nextExit kind e = none ∧ e' = popExit kind e ∧
          ((l' = l ∧ ((e.state.positions.lookup x.symbol).isNone ∨ e.state.hasSymbolPrices x.symbol = false)) ∨
            (l' = l ++ [x] ∧ shouldTrigger e.state x = false)))) := by
  simp only [processExitHeap] at h
  split at h
  · cases h
  · rename_i x htop
    refine ⟨x, htop, ?_⟩
    split at h
    · rename_i hpos
      cases h
      exact Or.inr ⟨by simp [nextExit, htop, hpos], rfl, Or.inl ⟨rfl, Or.inl hpos⟩⟩
    · rename_i hpos
      split at h
      · rename_i hprices
        cases h
        exact Or.inr ⟨by simp [nextExit, htop, hpos, hprices], rfl, Or.inl ⟨rfl, Or.inr (by simpa using hprices)⟩⟩
      · rename_i hprices
        split at h
        · rename_i htrig
          cases h
          exact Or.inl ⟨by simp [nextExit, htop, hpos, hprices, htrig], rfl, rfl⟩
        · rename_i htrig
          cases h
          exact Or.inr ⟨by simp [nextExit, htop, hpos, hprices, htrig], rfl, Or.inr ⟨rfl, by simpa using htrig⟩⟩

theorem processExitHeap_none {kind : ExitKind} {l : List ExitOrder} {e : BackTestEngine}
    (h : processExitHeap createUuid hp kind (l, e) = none) : (e.exitOrderBook.heap kind).top = none := by
  simp only [processExitHeap] at h
  split at h
  · assumption
  · split at h
    · cases h
    · split at h
      · cases h
      · split at h <;> cases h

/-! ### What a step can do -/

/-- A step: an execution, or one of the moves between them. -/
inductive StepCase (createUuid : ℕ → Uuid) (hp : HostParams) (c c' : Config) : Prop
  | execute (o : Order) (e : BackTestEngine) (hn : nextExecution c = some (o, e))
      (hphase : c'.phase = c.phase) (hfeed : c'.feed = c.feed) (hresult : c'.result = c.result)
      (he : c'.engine = execute createUuid hp e o)
  | closed (item : FeedItem) (hphase : c.phase = .nextBar) (hfeed : c.feed = item :: c'.feed)
      (hc : c' = { c with feed := c'.feed })
  | bar (item : FeedItem) (hphase : c.phase = .nextBar) (hfeed : c.feed = item :: c'.feed)
      (hc : c' = ⟨c'.feed, .orderBook item.bar, item.result, c.engine.prepareNextBar item.bar⟩)
  | toBuyLimits (bar : AggregateBarResult) (hphase : c.phase = .orderBook bar) (hn : nextExecution c = none)
      (hc : c' = { c with phase := .buyLimits (c.engine.limitOrderBook.limits .buy).sortedKeys })
  | nextBuySymbol (symbol : Symbol) (symbols : List Symbol) (hphase : c.phase = .buyLimits (symbol :: symbols))
      (hn : nextExecution c = none) (hc : c' = { c with phase := .buyLimits symbols })
  | toSellLimits (hphase : c.phase = .buyLimits [])
      (hc : c' = { c with phase := .sellLimits (c.engine.limitOrderBook.limits .sell).sortedKeys })
  | nextSellSymbol (symbol : Symbol) (symbols : List Symbol) (hphase : c.phase = .sellLimits (symbol :: symbols))
      (hn : nextExecution c = none) (hc : c' = { c with phase := .sellLimits symbols })
  | toStopLosses (hphase : c.phase = .sellLimits []) (hc : c' = { c with phase := .stopLosses [] })
  | dropStopLoss (l : List ExitOrder) (x : ExitOrder) (hphase : c.phase = .stopLosses l)
      (htop : c.engine.exitOrderBook.stopLossHeap.top = some x) (hn : nextExecution c = none)
      (hx : (c.engine.state.positions.lookup x.symbol).isNone ∨ c.engine.state.hasSymbolPrices x.symbol = false)
      (hc : c' = { c with engine := popExit .stopLoss c.engine })
  | setStopLossAside (l : List ExitOrder) (x : ExitOrder) (hphase : c.phase = .stopLosses l)
      (htop : c.engine.exitOrderBook.stopLossHeap.top = some x) (hn : nextExecution c = none)
      (hx : shouldTrigger c.engine.state x = false)
      (hc : c' = { c with phase := .stopLosses (l ++ [x]), engine := popExit .stopLoss c.engine })
  | toTakeProfits (l : List ExitOrder) (hphase : c.phase = .stopLosses l)
      (htop : c.engine.exitOrderBook.stopLossHeap.top = none)
      (hc : c' = { c with phase := .takeProfits [], engine := c.engine.restoreExitOrders .stopLoss l })
  | dropTakeProfit (l : List ExitOrder) (x : ExitOrder) (hphase : c.phase = .takeProfits l)
      (htop : c.engine.exitOrderBook.takeProfitHeap.top = some x) (hn : nextExecution c = none)
      (hx : (c.engine.state.positions.lookup x.symbol).isNone ∨ c.engine.state.hasSymbolPrices x.symbol = false)
      (hc : c' = { c with engine := popExit .takeProfit c.engine })
  | setTakeProfitAside (l : List ExitOrder) (x : ExitOrder) (hphase : c.phase = .takeProfits l)
      (htop : c.engine.exitOrderBook.takeProfitHeap.top = some x) (hn : nextExecution c = none)
      (hx : shouldTrigger c.engine.state x = false)
      (hc : c' = { c with phase := .takeProfits (l ++ [x]), engine := popExit .takeProfit c.engine })
  | toOnBar (l : List ExitOrder) (hphase : c.phase = .takeProfits l)
      (htop : c.engine.exitOrderBook.takeProfitHeap.top = none)
      (hc : c' = { c with phase := .onBar, engine := c.engine.restoreExitOrders .takeProfit l })
  | fail (message : String) (hphase : c.phase = .onBar) (hcode : c.result.code ≠ 0)
      (hc : c' = { c with phase := .failed message })
  | throw (t : Thrown) (hphase : c.phase = .onBar) (hs : schedulePluginInstructions hp c.engine c.result = .error t)
      (hc : c' = { c with phase := .failed t.message, engine := t.engine })
  | finish (e : BackTestEngine) (hphase : c.phase = .onBar)
      (hs : schedulePluginInstructions hp c.engine c.result = .ok e)
      (hc : c' = { c with phase := .nextBar, engine := e.finishBar hp })

section StepCases

variable {feed : List FeedItem} {result : PluginResult} {e : BackTestEngine} {c' : Config}

theorem step_nextBar (h : step createUuid hp ⟨feed, .nextBar, result, e⟩ = some c') :
    StepCase createUuid hp ⟨feed, .nextBar, result, e⟩ c' := by
  cases feed with
  | nil => cases h
  | cons item feed =>
    simp only [step] at h
    split at h
    · cases h
      exact .closed item rfl rfl rfl
    · cases h
      exact .bar item rfl rfl rfl

theorem step_orderBook {bar : AggregateBarResult}
    (h : step createUuid hp ⟨feed, .orderBook bar, result, e⟩ = some c') :
    StepCase createUuid hp ⟨feed, .orderBook bar, result, e⟩ c' := by
  simp only [step] at h
  split at h
  · rename_i e' he
    obtain ⟨x, hx, hdue, rfl⟩ := executeOrderBook_cases he
    cases h
    refine .execute x.order _ ?_ rfl rfl rfl rfl
    simp [nextExecution, hx, not_lt.2 hdue]
  · rename_i he
    cases h
    refine .toBuyLimits bar rfl ?_ rfl
    simp only [executeOrderBook] at he
    split at he
    · rename_i hx
      simp [nextExecution, hx]
    · rename_i x hx
      split at he
      · rename_i hdue
        simp [nextExecution, hx, hdue]
      · cases he

theorem step_buyLimits {symbols : List Symbol}
    (h : step createUuid hp ⟨feed, .buyLimits symbols, result, e⟩ = some c') :
    StepCase createUuid hp ⟨feed, .buyLimits symbols, result, e⟩ c' := by
  simp only [step, processBuyLimits] at h
  split at h
  · rename_i symbols' e' he
    cases h
    rcases processLimits_cases he with ⟨o, e₀, hn, rfl, rfl⟩ | ⟨hn, ⟨s, rfl⟩, rfl⟩
    · exact .execute o e₀ hn rfl rfl rfl rfl
    · exact .nextBuySymbol s symbols' rfl hn rfl
  · rename_i he
    cases h
    obtain rfl := processLimits_none he
    exact .toSellLimits rfl rfl

theorem step_sellLimits {symbols : List Symbol}
    (h : step createUuid hp ⟨feed, .sellLimits symbols, result, e⟩ = some c') :
    StepCase createUuid hp ⟨feed, .sellLimits symbols, result, e⟩ c' := by
  simp only [step, processSellLimits] at h
  split at h
  · rename_i symbols' e' he
    cases h
    rcases processLimits_cases he with ⟨o, e₀, hn, rfl, rfl⟩ | ⟨hn, ⟨s, rfl⟩, rfl⟩
    · exact .execute o e₀ hn rfl rfl rfl rfl
    · exact .nextSellSymbol s symbols' rfl hn rfl
  · rename_i he
    cases h
    obtain rfl := processLimits_none he
    exact .toStopLosses rfl rfl

theorem step_stopLosses {l : List ExitOrder} (h : step createUuid hp ⟨feed, .stopLosses l, result, e⟩ = some c') :
    StepCase createUuid hp ⟨feed, .stopLosses l, result, e⟩ c' := by
  simp only [step, processStopLossHeap] at h
  split at h
  · rename_i l' e' he
    cases h
    obtain ⟨x, htop, ⟨hx, rfl, rfl⟩ | ⟨hn, rfl, ⟨rfl, hx⟩ | ⟨rfl, hx⟩⟩⟩ := processExitHeap_cases he
    · exact .execute x.toCloseInstruction _ (by simp [nextExecution, hx]) rfl rfl rfl rfl
    · exact .dropStopLoss l' x rfl htop (by simp [nextExecution, hn]) hx rfl
    · exact .setStopLossAside l x rfl htop (by simp [nextExecution, hn]) hx rfl
  · rename_i he
    cases h
    exact .toTakeProfits l rfl (processExitHeap_none he) rfl

theorem step_takeProfits {l : List ExitOrder} (h : step createUuid hp ⟨feed, .takeProfits l, result, e⟩ = some c') :
    StepCase createUuid hp ⟨feed, .takeProfits l, result, e⟩ c' := by
  simp only [step, processTakeProfitHeap] at h
  split at h
  · rename_i l' e' he
    cases h
    obtain ⟨x, htop, ⟨hx, rfl, rfl⟩ | ⟨hn, rfl, ⟨rfl, hx⟩ | ⟨rfl, hx⟩⟩⟩ := processExitHeap_cases he
    · exact .execute x.toCloseInstruction _ (by simp [nextExecution, hx]) rfl rfl rfl rfl
    · exact .dropTakeProfit l' x rfl htop (by simp [nextExecution, hn]) hx rfl
    · exact .setTakeProfitAside l x rfl htop (by simp [nextExecution, hn]) hx rfl
  · rename_i he
    cases h
    exact .toOnBar l rfl (processExitHeap_none he) rfl

theorem step_onBar (h : step createUuid hp ⟨feed, .onBar, result, e⟩ = some c') :
    StepCase createUuid hp ⟨feed, .onBar, result, e⟩ c' := by
  simp only [step] at h
  split at h
  · rename_i hcode
    cases h
    exact .fail _ rfl hcode rfl
  · split at h
    · rename_i t ht
      cases h
      exact .throw t rfl ht rfl
    · rename_i e' he
      cases h
      exact .finish e' rfl he rfl

end StepCases

theorem step_cases {c c' : Config} (h : step createUuid hp c = some c') : StepCase createUuid hp c c' := by
  obtain ⟨feed, phase, result, e⟩ := c
  cases phase with
  | nextBar => exact step_nextBar h
  | orderBook bar => exact step_orderBook h
  | buyLimits symbols => exact step_buyLimits h
  | sellLimits symbols => exact step_sellLimits h
  | stopLosses l => exact step_stopLosses h
  | takeProfits l => exact step_takeProfits h
  | onBar => exact step_onBar h
  | failed m => cases h

/-- The steps as the account and the order books see them: an execution, the next bar of the feed, the end of a bar,
an instruction that throws, or a move that touches at most the exit book. -/
inductive StepKind (createUuid : ℕ → Uuid) (hp : HostParams) (c c' : Config) : Prop
  | execute (o : Order) (e : BackTestEngine) (hn : nextExecution c = some (o, e))
      (hphase : c'.phase = c.phase) (hfeed : c'.feed = c.feed) (hresult : c'.result = c.result)
      (he : c'.engine = execute createUuid hp e o)
  | closed (item : FeedItem) (hphase : c.phase = .nextBar) (hfeed : c.feed = item :: c'.feed)
      (hc : c' = { c with feed := c'.feed })
  | bar (item : FeedItem) (hphase : c.phase = .nextBar) (hfeed : c.feed = item :: c'.feed)
      (hc : c' = ⟨c'.feed, .orderBook item.bar, item.result, c.engine.prepareNextBar item.bar⟩)
  | finish (e : BackTestEngine) (hphase : c.phase = .onBar)
      (hs : schedulePluginInstructions hp c.engine c.result = .ok e)
      (hc : c' = { c with phase := .nextBar, engine := e.finishBar hp })
  | throw (t : Thrown) (hphase : c.phase = .onBar) (hs : schedulePluginInstructions hp c.engine c.result = .error t)
      (hc : c' = { c with phase := .failed t.message, engine := t.engine })
  | move (hphase : c'.phase ≠ .nextBar) (hfeed : c'.feed = c.feed) (hresult : c'.result = c.result)
      (hsame : SameAccount c.engine c'.engine) (horders : c'.engine.orderBook = c.engine.orderBook)
      (hlimits : c'.engine.limitOrderBook = c.engine.limitOrderBook)

theorem step_kinds {c c' : Config} (h : step createUuid hp c = some c') : StepKind createUuid hp c c' := by
  have still : ∀ p, p ≠ .nextBar → c' = { c with phase := p } → StepKind createUuid hp c c' := by
    rintro p hp' rfl
    exact .move hp' rfl rfl (SameAccount.refl _) rfl rfl
  have exits : ∀ p b, p ≠ .nextBar →
      c' = { c with phase := p, engine := { c.engine with exitOrderBook := b } } → StepKind createUuid hp c c' := by
    rintro p b hp' rfl
    exact .move hp' rfl rfl ⟨rfl, rfl, rfl, rfl⟩ rfl rfl
  cases step_cases h with
  | execute o e hn hphase hfeed hresult he => exact .execute o e hn hphase hfeed hresult he
  | closed item hphase hfeed hc => exact .closed item hphase hfeed hc
  | bar item hphase hfeed hc => exact .bar item hphase hfeed hc
  | finish e hphase hs hc => exact .finish e hphase hs hc
  | throw t hphase hs hc => exact .throw t hphase hs hc
  | toBuyLimits _ _ _ hc => exact still _ (by nofun) hc
  | nextBuySymbol _ _ _ _ hc => exact still _ (by nofun) hc
  | toSellLimits _ hc => exact still _ (by nofun) hc
  | nextSellSymbol _ _ _ _ hc => exact still _ (by nofun) hc
  | toStopLosses _ hc => exact still _ (by nofun) hc
  | fail _ _ _ hc => exact still _ (by nofun) hc
  | dropStopLoss l _ hphase _ _ _ hc => exact exits _ _ (by rw [hphase]; nofun) hc
  | setStopLossAside _ _ _ _ _ _ hc => exact exits _ _ (by nofun) hc
  | toTakeProfits _ _ _ hc => exact exits _ _ (by nofun) hc
  | dropTakeProfit l _ hphase _ _ _ hc => exact exits _ _ (by rw [hphase]; nofun) hc
  | setTakeProfitAside _ _ _ _ _ _ hc => exact exits _ _ (by nofun) hc
  | toOnBar _ _ _ hc => exact exits _ _ (by nofun) hc

/-- A step leaves the account alone, takes up a bar, executes an order or closes the bar. -/
theorem step_account {c c' : Config} (h : step createUuid hp c = some c') :
    SameAccount c.engine c'.engine ∨
      (∃ item ∈ c.feed, c.phase = .nextBar ∧ c'.engine = c.engine.prepareNextBar item.bar) ∨
      (∃ o e, nextExecution c = some (o, e) ∧ c'.engine = execute createUuid hp e o) ∨
      (∃ e, SameAccount c.engine e ∧ c'.engine = e.finishBar hp) := by
  cases step_kinds h with
  | execute o e hn _ _ _ he => exact Or.inr (Or.inr (Or.inl ⟨o, e, hn, he⟩))
  | closed item _ _ hc => rw [hc]; exact Or.inl (SameAccount.refl _)
  | bar item hphase hfeed hc =>
    rw [hc]
    exact Or.inr (Or.inl ⟨item, by rw [hfeed]; exact List.mem_cons_self, hphase, rfl⟩)
  | finish e _ hs hc => rw [hc]; exact Or.inr (Or.inr (Or.inr ⟨e, sameAccount_scheduled hs, rfl⟩))
  | throw t _ hs hc => rw [hc]; exact Or.inl (sameAccount_thrown hs)
  | move _ _ _ hsame _ _ => exact Or.inl hsame

end BackTestEngine

end QuantForge
