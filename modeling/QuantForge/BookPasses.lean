import QuantForge.BookOps
import QuantForge.Termination

/-!
# Passes over the books

`execute_order_book` stops at the first order that is not due, and the limit loops go on to the next symbol at the
first order out of reach.  Without a volume cap nothing is put back while they run, and they fire exactly the orders
that a filter over the whole book would select (`passes_filter`).
-/

namespace QuantForge

namespace BackTestEngine

open BinaryHeap

variable {createUuid : ℕ → Uuid} {hp : HostParams}

/-! ### Executions without a volume cap -/

theorem remainders_eq_nil (hcap : hp.fillMaxPctOfVolume = none) (e : BackTestEngine) (o : Order) :
    remainders createUuid hp e o = [] := by
  unfold remainders
  split
  · rename_i r hr
    obtain ⟨-, rfl⟩ := Executor.executeOrder_ok_iff.1 hr
    simp [Executor.success, Executor.partialOrder, Executor.remainingQuantity,
      Executor.getFillableAndRemainingQuantities, hcap]
  · rfl

variable (createUuid) in
/-- Without a volume cap an execution leaves the books alone. -/
theorem execute_books_of_no_cap (hcap : hp.fillMaxPctOfVolume = none) (e : BackTestEngine) (o : Order) :
    (execute createUuid hp e o).orderBook = e.orderBook ∧
      (execute createUuid hp e o).limitOrderBook = e.limitOrderBook := by
  have h := execute_books createUuid hp e o
  rw [remainders_eq_nil hcap] at h
  exact h

/-- The engine with other books. -/
def withBooks (e : BackTestEngine) (orderBook : BinaryHeap ScheduledOrder.before) (limitOrderBook : LimitOrderBook) :
    BackTestEngine :=
  { e with orderBook, limitOrderBook }

/-- Without a volume cap an execution does not look at the books. -/
theorem execute_withBooks (hcap : hp.fillMaxPctOfVolume = none) {e e' : BackTestEngine}
    (h : e' = e.withBooks e'.orderBook e'.limitOrderBook) (o : Order) :
    execute createUuid hp e' o = (execute createUuid hp e o).withBooks e'.orderBook e'.limitOrderBook := by
  have hrem : remainders createUuid hp e o = [] := remainders_eq_nil hcap e o
  rw [h]
  unfold remainders at hrem
  unfold execute withBooks
  dsimp only
  rcases hr : Executor.executeOrder o hp e.state (createUuid e.uuidCount) with m | r
  · rfl
  · have hpartial : r.partialOrder = none := by simpa [hr] using hrem
    simp only [handleExecutionResult, applySuccess, scheduleRemainder, hpartial]

/-- Executing one more order, in an engine that differs from another at most in its books. -/
theorem execute_concat (hcap : hp.fillMaxPctOfVolume = none) {e₀ e e' : BackTestEngine}
    {orders : List Order} {o : Order}
    (h : e = (orders.foldl (execute createUuid hp) e₀).withBooks e.orderBook e.limitOrderBook)
    (he' : e' = e.withBooks e'.orderBook e'.limitOrderBook) :
    execute createUuid hp e' o = ((orders ++ [o]).foldl (execute createUuid hp) e₀).withBooks
      (execute createUuid hp e' o).orderBook (execute createUuid hp e' o).limitOrderBook := by
  have hfold : e' = (orders.foldl (execute createUuid hp) e₀).withBooks e'.orderBook e'.limitOrderBook := by
    rw [h] at he'
    exact he'
  rw [List.foldl_concat, execute_withBooks hcap hfold]
  rfl

theorem bookWeight_execute_of_no_cap (hcap : hp.fillMaxPctOfVolume = none) (e : BackTestEngine) (o : Order) :
    bookWeight (fun _ => 1) (execute createUuid hp e o) < 1 + bookWeight (fun _ => 1) e := by
  obtain ⟨hb, hl⟩ := execute_books_of_no_cap createUuid hcap e o
  rw [bookWeight_congr hb hl]
  exact Nat.lt_add_of_pos_left one_pos

/-! ### The order book -/

/-- What a pass over the order book has done after some iterations. -/
structure OrderPass (createUuid : ℕ → Uuid) (hp : HostParams) (bar : AggregateBarResult) (e₀ : BackTestEngine)
    (evs : List ScheduledOrder) (e : BackTestEngine) : Prop where
  executed : e = ((evs.map (·.order)).foldl (execute createUuid hp) e₀).withBooks e.orderBook e.limitOrderBook
  limitOrderBook : e.limitOrderBook = e₀.limitOrderBook
  drained : Drained ScheduledOrder.scheduledFillAtNs e₀.orderBook evs e.orderBook
  due : ∀ x ∈ evs, x.scheduledFillAtNs ≤ bar.unixTsNs

theorem OrderPass.step (hcap : hp.fillMaxPctOfVolume = none) {bar : AggregateBarResult} {e₀ e e' : BackTestEngine}
    {evs : List ScheduledOrder} (h : OrderPass createUuid hp bar e₀ evs e)
    (hs : executeOrderBook createUuid hp bar e = some e') :
    OrderPass createUuid hp bar e₀ (evs ++ (dueOrder bar e).toList) e' := by
  rw [executeOrderBook_eq] at hs
  obtain ⟨x, hx, rfl⟩ := Option.map_eq_some_iff.1 hs
  obtain ⟨htop, hdue⟩ := dueOrder_eq_some.1 hx
  obtain ⟨hb, hl⟩ := execute_books_of_no_cap createUuid hcap (popOrder e) x.order
  rw [hx]
  refine ⟨?_, hl.trans h.limitOrderBook, ?_, fun y hy => ?_⟩
  · rw [Option.toList_some, List.map_append]
    exact execute_concat hcap h.executed rfl
  · rw [hb]
    exact h.drained.pop ScheduledOrder.keyedBy htop
  · rcases List.mem_append.1 hy with hy | hy
    · exact h.due y hy
    · rw [List.mem_singleton.1 hy]
      exact hdue

/-- At the end of a pass: what is due has been executed, and the rest is left. -/
theorem OrderPass.filter {bar : AggregateBarResult} {e₀ e : BackTestEngine} {evs : List ScheduledOrder}
    (h : OrderPass createUuid hp bar e₀ evs e) (hend : executeOrderBook createUuid hp bar e = none) :
    evs.Perm (e₀.orderBook.toList.filter fun x => x.scheduledFillAtNs ≤ bar.unixTsNs) ∧
      e.orderBook.toList.Perm (e₀.orderBook.toList.filter fun x => !(x.scheduledFillAtNs ≤ bar.unixTsNs)) := by
  refine h.drained.filter (p := fun x => x.scheduledFillAtNs ≤ bar.unixTsNs) (fun x y hxy hy => ?_) (fun x hx => ?_)
    fun x htop => ?_
  · exact decide_eq_true (hxy.trans (of_decide_eq_true hy))
  · exact decide_eq_true (h.due x hx)
  · rw [executeOrderBook_eq, Option.map_eq_none_iff] at hend
    refine decide_eq_false fun hdue => ?_
    rw [dueOrder_eq_some.2 ⟨htop, hdue⟩] at hend
    cases hend

/-! ### The limit books -/

/-- The order an iteration of the limit loop fires, with the symbol it is filed under. -/
def firedByLimits (side : Side) : List Symbol × BackTestEngine → List (Symbol × LimitOrder)
  | ([], _) => []
  | (symbol :: _, e) => (firedLimit side symbol e).toList.map fun x => (symbol, x)

/-- The orders of one symbol. -/
def ofSymbol (symbol : Symbol) (evs : List (Symbol × LimitOrder)) : List LimitOrder :=
  (evs.filter fun p => p.1 = symbol).map Prod.snd

/-- There are prices for the symbol, and the low is not above the limit of a buy, the high not below that of a
sell. -/
def limitReached (s : State) (side : Side) (symbol : Symbol) (x : LimitOrder) : Bool :=
  s.hasSymbolPrices symbol && match side with
    | .buy => decide (s.getSymbolLow symbol ≤ x.limitPrice)
    | .sell => decide (x.limitPrice ≤ s.getSymbolHigh symbol)

theorem limitReached_congr {s s' : State} (h : s'.currentBarPrices = s.currentBarPrices) (side : Side)
    (symbol : Symbol) (x : LimitOrder) : limitReached s' side symbol x = limitReached s side symbol x := by
  have hsome : s'.hasSymbolPrices symbol = s.hasSymbolPrices symbol := by rw [State.hasSymbolPrices, h]; rfl
  have hlow : s'.getSymbolLow symbol = s.getSymbolLow symbol := by rw [State.getSymbolLow, State.symbolPrices, h]; rfl
  have hhigh : s'.getSymbolHigh symbol = s.getSymbolHigh symbol := by
    rw [State.getSymbolHigh, State.symbolPrices, h]; rfl
  unfold limitReached
  rw [hsome, hlow, hhigh]

/-- An order that goes before one that is reached is reached, too. -/
theorem limitReached_mono {s : State} {side : Side} {symbol : Symbol} {x y : LimitOrder}
    (hkey : x.key side ≤ y.key side) (hy : limitReached s side symbol y = true) :
    limitReached s side symbol x = true := by
  unfold limitReached at hy ⊢
  rw [Bool.and_eq_true] at hy ⊢
  refine ⟨hy.1, ?_⟩
  cases side with
  | buy => exact decide_eq_true ((of_decide_eq_true hy.2).trans (neg_le_neg_iff.1 hkey))
  | sell => exact decide_eq_true (le_trans hkey (of_decide_eq_true hy.2))

theorem firedLimit_eq_some_iff {side : Side} {symbol : Symbol} {e : BackTestEngine} {x : LimitOrder} :
    firedLimit side symbol e = some x ↔
      (e.limitOrderBook.heap side symbol).top = some x ∧ limitReached e.state side symbol x = true := by
  unfold limitReached
  rw [firedLimit_eq_some, Bool.and_eq_true, and_left_comm]
  cases side <;> simp [limitOutOfReach]

/-- What a pass over the limit books of a side has done after some iterations. -/
structure LimitPass (createUuid : ℕ → Uuid) (hp : HostParams) (side : Side) (e₀ : BackTestEngine)
    (evs : List (Symbol × LimitOrder)) (symbols : List Symbol) (e : BackTestEngine) : Prop where
  executed : e = ((evs.map (·.2.order)).foldl (execute createUuid hp) e₀).withBooks e.orderBook e.limitOrderBook
  orderBook : e.orderBook = e₀.orderBook
  otherSide : ∀ side', side' ≠ side → ∀ symbol,
    e.limitOrderBook.heap side' symbol = e₀.limitOrderBook.heap side' symbol
  prices : e.state.currentBarPrices = e₀.state.currentBarPrices
  drained : ∀ symbol, Drained (LimitOrder.key side) (e₀.limitOrderBook.heap side symbol) (ofSymbol symbol evs)
    (e.limitOrderBook.heap side symbol)
  reached : ∀ p ∈ evs, limitReached e₀.state side p.1 p.2 = true
  finished : ∀ symbol ∉ symbols, firedLimit side symbol e = none

theorem LimitPass.start {side : Side} {e : BackTestEngine}
    (ho : ∀ symbol, Ordered (LimitOrder.key side) (e.limitOrderBook.heap side symbol)) :
    LimitPass createUuid hp side e [] (e.limitOrderBook.limits side).sortedKeys e := by
  refine ⟨rfl, rfl, fun _ _ _ => rfl, rfl, fun symbol => .start (ho symbol),
    fun _ hp => absurd hp List.not_mem_nil, ?_⟩
  intro symbol hnot
  -- there is no heap for a symbol that is not visited
  have hnone : (e.limitOrderBook.limits side).lookup symbol = none := by
    rw [AList.lookup_eq_none, AList.mem_keys]
    exact fun hmem => hnot (by simpa [Map.sortedKeys] using hmem)
  rw [Option.eq_none_iff_forall_ne_some]
  intro x hx
  have htop := (firedLimit_eq_some_iff.1 hx).1
  rw [LimitOrderBook.heap, hnone] at htop
  cases htop

/-- Nothing fires for the first symbol, which is left behind. -/
theorem LimitPass.skip {side : Side} {e₀ e : BackTestEngine} {evs : List (Symbol × LimitOrder)} {symbol : Symbol}
    {symbols : List Symbol} (h : LimitPass createUuid hp side e₀ evs (symbol :: symbols) e)
    (hfired : firedLimit side symbol e = none) : LimitPass createUuid hp side e₀ evs symbols e := by
  refine { h with finished := fun symbol' hnot => ?_ }
  by_cases heq : symbol' = symbol
  · rw [heq]
    exact hfired
  · exact h.finished symbol' (by simp [heq, hnot])

/-- An order of the first symbol fires. -/
theorem LimitPass.fire (hcap : hp.fillMaxPctOfVolume = none) {side : Side} {e₀ e : BackTestEngine}
    {evs : List (Symbol × LimitOrder)} {symbol : Symbol} {symbols : List Symbol}
    (h : LimitPass createUuid hp side e₀ evs (symbol :: symbols) e) {x : LimitOrder}
    (hfired : firedLimit side symbol e = some x) :
    LimitPass createUuid hp side e₀ (evs ++ [(symbol, x)]) (symbol :: symbols)
      (execute createUuid hp (popLimit side symbol e) x.order) := by
  obtain ⟨htop, hreached⟩ := firedLimit_eq_some_iff.1 hfired
  obtain ⟨hb, hl⟩ := execute_books_of_no_cap createUuid hcap (popLimit side symbol e) x.order
  obtain ⟨-, hprices, -⟩ := execute_marketData createUuid hp (popLimit side symbol e) x.order
  have hheap : (execute createUuid hp (popLimit side symbol e) x.order).limitOrderBook =
      e.limitOrderBook.setHeap side symbol (e.limitOrderBook.heap side symbol).pop := hl
  have hsame : ∀ symbol', symbol' ≠ symbol →
      (execute createUuid hp (popLimit side symbol e) x.order).limitOrderBook.heap side symbol' =
        e.limitOrderBook.heap side symbol' := by
    intro symbol' hne
    rw [hheap, limitHeap_setHeap_ne _ fun h => hne h.2]
  refine ⟨?_, hb.trans h.orderBook, fun side' hne symbol' => ?_, hprices.trans h.prices, fun symbol' => ?_, ?_, ?_⟩
  · rw [List.map_append]
    exact execute_concat hcap h.executed rfl
  · rw [hheap, limitHeap_setHeap_ne _ fun h => hne h.1]
    exact h.otherSide side' hne symbol'
  · by_cases heq : symbol' = symbol
    · subst heq
      rw [hheap, limitHeap_setHeap_self]
      simpa [ofSymbol] using (h.drained symbol').pop (LimitOrder.keyedBy side) htop
    · rw [hsame symbol' heq]
      simpa [ofSymbol, Ne.symm heq] using h.drained symbol'
  · intro p hp
    rcases List.mem_append.1 hp with hp | hp
    · exact h.reached p hp
    · rw [List.mem_singleton.1 hp, ← limitReached_congr h.prices]
      exact hreached
  · intro symbol' hnot
    have hne : symbol' ≠ symbol := fun heq => hnot (by simp [heq])
    have hold := h.finished symbol' hnot
    rw [Option.eq_none_iff_forall_ne_some] at hold ⊢
    intro y hy
    obtain ⟨htop', hreached'⟩ := firedLimit_eq_some_iff.1 hy
    rw [hsame symbol' hne] at htop'
    rw [limitReached_congr hprices] at hreached'
    exact hold y (firedLimit_eq_some_iff.2 ⟨htop', hreached'⟩)

theorem LimitPass.step (hcap : hp.fillMaxPctOfVolume = none) {side : Side} {e₀ e e' : BackTestEngine}
    {evs : List (Symbol × LimitOrder)} {symbols symbols' : List Symbol}
    (h : LimitPass createUuid hp side e₀ evs symbols e)
    (hs : processLimits createUuid hp side (symbols, e) = some (symbols', e')) :
    LimitPass createUuid hp side e₀ (evs ++ firedByLimits side (symbols, e)) symbols' e' := by
  cases symbols with
  | nil => cases hs
  | cons symbol symbols =>
    rw [processLimits_eq] at hs
    rw [firedByLimits]
    rcases hfired : firedLimit side symbol e with _ | x
    · rw [hfired] at hs
      cases hs
      simpa using h.skip hfired
    · rw [hfired] at hs
      cases hs
      exact h.fire hcap hfired

/-- At the end of a pass: what is reached has fired, and the rest is left. -/
theorem LimitPass.filter {side : Side} {e₀ e : BackTestEngine} {evs : List (Symbol × LimitOrder)}
    (h : LimitPass createUuid hp side e₀ evs [] e) (symbol : Symbol) :
    (ofSymbol symbol evs).Perm
        ((e₀.limitOrderBook.heap side symbol).toList.filter (limitReached e₀.state side symbol)) ∧
      (e.limitOrderBook.heap side symbol).toList.Perm
        ((e₀.limitOrderBook.heap side symbol).toList.filter fun x => !limitReached e₀.state side symbol x) := by
  refine (h.drained symbol).filter (fun x y => limitReached_mono) (fun x hx => ?_) fun x htop => ?_
  · obtain ⟨p, hp, rfl⟩ := List.mem_map.1 hx
    obtain ⟨hmem, hsym⟩ := List.mem_filter.1 hp
    rw [← of_decide_eq_true hsym]
    exact h.reached p hmem
  · rw [← limitReached_congr h.prices, Bool.eq_false_iff]
    intro hreached
    have hnone := h.finished symbol List.not_mem_nil
    rw [firedLimit_eq_some_iff.2 ⟨htop, hreached⟩] at hnone
    cases hnone

/-! ### Exactly what a filter selects -/

/-- For an order book that pushes and pops have built: the pass ends, and when it has, it has executed exactly the
orders that are due, in the order of their times, and exactly the others are left.  For limit books that pushes and
pops have built: the pass over a side ends, and when it has, it has fired for every symbol exactly the orders that are
reached, buys from the highest limit down and sells from the lowest up, and exactly the others are left.  Up to its
books the engine is the one that executes these orders one after the other. -/
theorem passes_filter (hcap : hp.fillMaxPctOfVolume = none) :
    (∀ bar e ops, History e.orderBook ops →
      Loop.Halts (executeOrderBook createUuid hp bar) e ∧
      ∀ evs e', Loop.Trace (executeOrderBook createUuid hp bar) (fun e => (dueOrder bar e).toList) e evs e' →
        executeOrderBook createUuid hp bar e' = none →
          evs.Perm (e.orderBook.toList.filter fun x => x.scheduledFillAtNs ≤ bar.unixTsNs) ∧
          evs.Pairwise (fun x y => x.scheduledFillAtNs ≤ y.scheduledFillAtNs) ∧
          e'.orderBook.toList.Perm (e.orderBook.toList.filter fun x => !(x.scheduledFillAtNs ≤ bar.unixTsNs)) ∧
          e'.limitOrderBook = e.limitOrderBook ∧
          e' = ((evs.map (·.order)).foldl (execute createUuid hp) e).withBooks e'.orderBook e'.limitOrderBook) ∧
    ∀ side e, (∀ symbol, ∃ ops, History (e.limitOrderBook.heap side symbol) ops) →
      Loop.Halts (processLimits createUuid hp side) ((e.limitOrderBook.limits side).sortedKeys, e) ∧
      ∀ evs symbols e', Loop.Trace (processLimits createUuid hp side) (firedByLimits side)
          ((e.limitOrderBook.limits side).sortedKeys, e) evs (symbols, e') →
        processLimits createUuid hp side (symbols, e') = none →
          (∀ symbol,
            (ofSymbol symbol evs).Perm
              ((e.limitOrderBook.heap side symbol).toList.filter (limitReached e.state side symbol)) ∧
            (ofSymbol symbol evs).Pairwise (fun x y => x.key side ≤ y.key side) ∧
            (e'.limitOrderBook.heap side symbol).toList.Perm
              ((e.limitOrderBook.heap side symbol).toList.filter fun x => !limitReached e.state side symbol x)) ∧
          (∀ side', side' ≠ side → ∀ symbol,
            e'.limitOrderBook.heap side' symbol = e.limitOrderBook.heap side' symbol) ∧
          e'.orderBook = e.orderBook ∧
          e' = ((evs.map (·.2.order)).foldl (execute createUuid hp) e).withBooks e'.orderBook e'.limitOrderBook := by
  -- an order that is taken out does not come back
  have hlt : ∀ e o, True → bookWeight (fun _ => 1) (execute createUuid hp e o) < 1 + bookWeight (fun _ => 1) e :=
    fun e o _ => bookWeight_execute_of_no_cap hcap e o
  refine ⟨fun bar e ops hist => ⟨?_, fun evs e' ht hend => ?_⟩,
    fun side e hist => ⟨?_, fun evs symbols e' ht hend => ?_⟩⟩
  · exact halts_executeOrderBook (P := fun _ => True) (fun _ _ h => h) hlt bar trivial
  · have hpass : OrderPass createUuid hp bar e evs e' := by
      refine Loop.trace_invariant (P := OrderPass createUuid hp bar e) ?_ (fun _ _ _ _ h hs => h.step hcap hs) ht
      exact ⟨rfl, rfl, .start (hist.ordered ScheduledOrder.keyedBy), fun _ hx => absurd hx List.not_mem_nil⟩
    have hfilter := hpass.filter hend
    exact ⟨hfilter.1, hpass.drained.sorted, hfilter.2, hpass.limitOrderBook, hpass.executed⟩
  · exact halts_processLimits (P := fun _ => True) (fun _ _ h => h) hlt side _ trivial
  · have hpass : LimitPass createUuid hp side e evs symbols e' := by
      refine Loop.trace_invariant (P := fun evs p => LimitPass createUuid hp side e evs p.1 p.2) ?_
        (fun _ _ _ _ h hs => h.step hcap hs) ht
      refine .start fun symbol => ?_
      obtain ⟨ops, h⟩ := hist symbol
      exact h.ordered (LimitOrder.keyedBy side)
    obtain rfl := processLimits_none hend
    refine ⟨fun symbol => ?_, hpass.otherSide, hpass.orderBook, hpass.executed⟩
    have hfilter := hpass.filter symbol
    exact ⟨hfilter.1, (hpass.drained symbol).sorted, hfilter.2⟩

/-- A million dollars, and orders that are due two nanoseconds after they are issued. -/
def delayedParams : HostParams :=
  { sampleParams with slippageModel := some .timeBased, slippage := some (2 / 1000000) }

/-- Two market orders and three limit orders in the first bar and one market order in the second; in the third bar the
limit orders at 101 are reached, the one at 100 is not. -/
def delayedFeed : List FeedItem :=
  let limit quantity limitPrice : CInstruction :=
    .order { sampleOrder "A" "buy" quantity with limitPrice := limitPrice, orderType := Constants.limit }
  [⟨sampleBar "A" 102 1000 1, { instructions :=
      [.order (sampleOrder "A" "buy" 1), .order (sampleOrder "A" "buy" 2), limit 3 100000000, limit 4 101000000,
        limit 5 101000000] }⟩,
    ⟨sampleBar "A" 102 1000 2, { instructions := [.order (sampleOrder "A" "buy" 6)] }⟩,
    ⟨sampleBar "A" (201 / 2) 1000 3, {}⟩]

/-- In the third bar two market orders are due and two limit orders are reached, and one of each is left. -/
theorem passes_filter_third_bar :
    let e := (sampleRun delayedParams delayedFeed 16).engine
    let bar := sampleBar "A" (201 / 2) 1000 3
    let evs := Loop.events (executeOrderBook sampleUuid delayedParams bar) (fun e => (dueOrder bar e).toList) 2 e
    let fired := Loop.events (processLimits sampleUuid delayedParams .buy) (firedByLimits .buy) 3 (["A"], e)
    (evs.map (fun x => x.order.quantity) = [1, 2] ∧
      evs.Perm (e.orderBook.toList.filter fun x => x.scheduledFillAtNs ≤ bar.unixTsNs)) ∧
    (ofSymbol "A" fired).map (fun x => x.order.quantity) = [4, 5] ∧
      (ofSymbol "A" fired).Perm ((e.limitOrderBook.heap .buy "A").toList.filter (limitReached e.state .buy "A")) := by
  intro e bar evs fired
  have hr := reachable_sampleRun delayedParams delayedFeed 16
  obtain ⟨ops, hist⟩ := exists_orderBook_history hr
  obtain ⟨horders, hlimits⟩ := @passes_filter sampleUuid delayedParams rfl
  refine ⟨⟨by decide +kernel, ?_⟩, by decide +kernel, ?_⟩
  · exact ((horders bar e ops hist).2 evs _ (Loop.trace_iter _ _ 2 _)
      (Option.isNone_iff_eq_none.1 (by decide +kernel))).1
  · have hkeys : (e.limitOrderBook.limits .buy).sortedKeys = ["A"] := by decide +kernel
    have htrace : Loop.Trace (processLimits sampleUuid delayedParams .buy) (firedByLimits .buy)
        ((e.limitOrderBook.limits .buy).sortedKeys, e) fired
        (Loop.iter (processLimits sampleUuid delayedParams .buy) 3 (["A"], e)) := by
      rw [hkeys]
      exact Loop.trace_iter _ _ 3 (["A"], e)
    obtain ⟨-, hpass⟩ := hlimits .buy e fun symbol => exists_limitHeap_history hr .buy symbol
    exact ((hpass fired _ _ htrace (Option.isNone_iff_eq_none.1 (by decide +kernel))).1 "A").1

end BackTestEngine

end QuantForge
