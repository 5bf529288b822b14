import QuantForge.ExitPasses

/-!
# Executions and the other symbols

The lots, margins and leverages of all symbols are in maps keyed by the uuid of a fill, and their exit orders in two
heaps that every reduction drains and fills again.  That an execution leaves the other symbols alone rests on each
uuid belonging to one fill and each exit order to a fill of its own symbol (`execution_is_local`).
-/

namespace QuantForge

namespace ExitOrderBook

/-- Closing lots does not concern the exit orders for other lots. -/
theorem reduceOrders_filter {p : ExitOrder → Bool} (closed : List (Uuid × ℚ)) (xs : List ExitOrder)
    (hp : ∀ x q, p { x with triggerQuantity := q } = p x)
    (h : ∀ x ∈ xs, p x = true → ∀ c ∈ closed, x.fillUuid ≠ c.1) :
    (reduceOrders closed xs).filter p = xs.filter p := by
  induction closed generalizing xs with
  | nil => rfl
  | cons c closed ih =>
    have hone : (xs.filterMap (reduceOrder c.1 c.2)).filter p = xs.filter p := by
      rw [List.filter_filterMap]
      conv_rhs => rw [← List.filterMap_eq_filter]
      refine List.filterMap_congr fun x hx => ?_
      by_cases hx' : p x = true
      · rw [reduceOrder, if_neg (h x hx hx' c List.mem_cons_self)]
        simp [Option.guard, hx']
      · unfold reduceOrder
        split
        · split
          · simp [Option.guard, hp, hx']
          · simp [Option.guard, hx']
        · simp [Option.guard, hx']
    refine (ih _ fun y hy hy' c' hc' => ?_).trans hone
    obtain ⟨x, hx, he⟩ := List.mem_filterMap.1 hy
    rcases reduceOrder_eq_some he with ⟨-, rfl⟩ | ⟨-, rfl⟩
    · exact h y hx hy' c' (List.mem_cons_of_mem _ hc')
    · rw [hp] at hy'
      exact h x hx hy' c' (List.mem_cons_of_mem _ hc')

end ExitOrderBook

namespace BackTestEngine

open Executor

variable {createUuid : ℕ → Uuid} {hp : HostParams} {feed : List FeedItem} {c : Config} {e e' : BackTestEngine}
  {o : Order} {T : Symbol}

/-- Two engines agree on a symbol: its position, its fills with what is recorded under their uuids, its exit orders,
its limit orders and its scheduled orders. -/
structure SameSymbol (T : Symbol) (e e' : BackTestEngine) : Prop where
  position : e'.state.positions.lookup T = e.state.positions.lookup T
  fills : (e'.state.fills.filter fun f => f.symbol = T) = e.state.fills.filter fun f => f.symbol = T
  lots : ∀ f ∈ e.state.fills, f.symbol = T → State.SameLot f.uuid e.state e'.state
  exits : ∀ kind, ((e'.exitOrderBook.heap kind).toList.filter fun x => x.symbol = T).Perm
    ((e.exitOrderBook.heap kind).toList.filter fun x => x.symbol = T)
  limits : ∀ side, e'.limitOrderBook.heap side T = e.limitOrderBook.heap side T
  limitOrders : ∀ side symbol, ((e'.limitOrderBook.heap side symbol).toList.filter fun x => x.order.symbol = T).Perm
    ((e.limitOrderBook.heap side symbol).toList.filter fun x => x.order.symbol = T)
  orders : (e'.orderBook.toList.filter fun x => x.order.symbol = T).Perm
    (e.orderBook.toList.filter fun x => x.order.symbol = T)

/-- The exit order is for a fill of its symbol. -/
def NamesFill (e : BackTestEngine) (x : ExitOrder) : Prop :=
  ∃ f ∈ e.state.fills, f.uuid = x.fillUuid ∧ f.symbol = x.symbol

theorem namesFill (hr : Reachable createUuid hp feed c) : ∀ kind, ∀ x ∈ exitOrders c kind, NamesFill c.engine x := by
  refine reachable_exitOrders (P := NamesFill) (G := fun _ _ => True) ?_ ?_ ?_ executionsMeet_true hr
  · rintro e e' x hs ⟨f, hf, h⟩
    rw [NamesFill, hs.fills]
    exact ⟨f, hf, h⟩
  · rintro e o x q ⟨f, hf, h⟩
    refine ⟨f, ?_, h⟩
    rcases execute_cases createUuid hp e o with he | ha
    · rw [he]
      exact hf
    · rw [execute_accepted ha]
      show f ∈ (e.state.updateState _).fills
      rw [(State.updateState_booking rfl).fills]
      exact List.mem_append_left _ hf
  · intro e o _ ha x hx
    obtain ⟨-, -, -, hsym, hu⟩ := mem_createExitOrders hx
    rw [execute_accepted ha]
    refine ⟨(success o hp e.state (createUuid e.uuidCount)).fill, ?_, hu.symm, hsym.symm⟩
    show _ ∈ (e.state.updateState _).fills
    rw [(State.updateState_booking rfl).fills]
    exact List.mem_append_right _ (List.mem_singleton_self _)

/-! ### The books -/

/-- Scheduling an order of another symbol. -/
private theorem books_schedule (e : BackTestEngine) (hp : HostParams) (hT : T ≠ o.symbol) :
    (∀ side, (e.schedule o hp).limitOrderBook.heap side T = e.limitOrderBook.heap side T) ∧
      (∀ side symbol, (((e.schedule o hp).limitOrderBook.heap side symbol).toList.filter fun x =>
        x.order.symbol = T).Perm
        ((e.limitOrderBook.heap side symbol).toList.filter fun x => x.order.symbol = T)) ∧
      ((e.schedule o hp).orderBook.toList.filter fun x => x.order.symbol = T).Perm
        (e.orderBook.toList.filter fun x => x.order.symbol = T) := by
  rcases schedule_cases e o hp with ⟨-, he⟩ | ⟨limit, -, -, he⟩
  · rw [he]
    refine ⟨fun _ => rfl, fun _ _ => List.Perm.refl _, ?_⟩
    refine ((BinaryHeap.toList_push _ _).filter _).trans ?_
    rw [List.filter_cons_of_neg]
    exact fun h => hT (of_decide_eq_true h).symm
  · rw [he]
    generalize hside : (if o.isBuy = true then Side.buy else Side.sell) = side
    refine ⟨fun side' => ?_, fun side' symbol => ?_, List.Perm.refl _⟩
    · exact limitHeap_setHeap_ne _ (fun h => hT h.2) _
    · by_cases hk : side' = side ∧ symbol = o.symbol
      · obtain ⟨rfl, rfl⟩ := hk
        show (((e.limitOrderBook.setHeap side' o.symbol _).heap side' o.symbol).toList.filter _).Perm _
        rw [limitHeap_setHeap_self]
        refine ((BinaryHeap.toList_push _ _).filter _).trans ?_
        rw [List.filter_cons_of_neg]
        exact fun h => hT (of_decide_eq_true h).symm
      · show (((e.limitOrderBook.setHeap side o.symbol _).heap side' symbol).toList.filter _).Perm _
        rw [limitHeap_setHeap_ne _ hk]

private theorem books_scheduleRemainder (e : BackTestEngine) (hp : HostParams) (hT : T ≠ o.symbol) (uuid : Uuid) :
    (∀ side, (e.scheduleRemainder (success o hp e.state uuid) hp).limitOrderBook.heap side T =
        e.limitOrderBook.heap side T) ∧
      (∀ side symbol, (((e.scheduleRemainder (success o hp e.state uuid) hp).limitOrderBook.heap side
          symbol).toList.filter fun x => x.order.symbol = T).Perm
        ((e.limitOrderBook.heap side symbol).toList.filter fun x => x.order.symbol = T)) ∧
      ((e.scheduleRemainder (success o hp e.state uuid) hp).orderBook.toList.filter fun x => x.order.symbol = T).Perm
        (e.orderBook.toList.filter fun x => x.order.symbol = T) := by
  unfold scheduleRemainder
  split
  · rename_i o' ho
    obtain ⟨rfl, -⟩ := partialOrder_eq ho
    exact books_schedule e hp hT
  · exact ⟨fun _ => rfl, fun _ _ => List.Perm.refl _, List.Perm.refl _⟩

/-! ### An execution -/

section Execution

variable (hinj : Function.Injective createUuid) (hreg : Registered createUuid e)
  (hexits : ∀ kind, ∀ x ∈ (e.exitOrderBook.heap kind).toList, NamesFill e x) (hT : T ≠ o.symbol)

include hreg hT in
/-- Fills of different symbols have different uuids. -/
private theorem uuid_ne {f g : Fill} (hf : f ∈ e.state.fills) (hg : g ∈ e.state.fills) (hfT : f.symbol = T)
    (hgo : g.symbol = o.symbol) : g.uuid ≠ f.uuid := by
  intro he
  have hfg : g = f := List.inj_on_of_nodup_map hreg.nodup hg hf he
  exact hT (by rw [← hfT, ← hfg, hgo])

include hreg hexits hT in
private theorem exits_execute (kind : ExitKind) :
    (((execute createUuid hp e o).exitOrderBook.heap kind).toList.filter fun x => x.symbol = T).Perm
      ((e.exitOrderBook.heap kind).toList.filter fun x => x.symbol = T) := by
  obtain ⟨closed, new, hperm, hclosed, hnew⟩ := toList_heap_execute createUuid hp e o kind
  have hnil : (new.filter fun x => x.symbol = T) = [] := by
    rw [List.filter_eq_nil_iff]
    intro x hx
    rcases hnew with rfl | ⟨-, rfl⟩
    · cases hx
    · have hsym := (mem_createExitOrders (List.mem_filter.1 hx).1).2.2.2.1
      simpa [hsym] using hT.symm
  have hold : ((ExitOrderBook.reduceOrders closed (e.exitOrderBook.heap kind).toList).filter fun x => x.symbol = T) =
      (e.exitOrderBook.heap kind).toList.filter fun x => x.symbol = T := by
    refine ExitOrderBook.reduceOrders_filter closed _ (fun _ _ => rfl) fun x hx hxT c hc => ?_
    obtain ⟨f, hf, hfu, hfs⟩ := hexits kind x hx
    obtain ⟨⟨g, hg, hgu, hgs⟩, -⟩ := mem_fillsClosedBy (hclosed c hc)
    rw [← hfu, ← hgu]
    exact (uuid_ne hreg hT hf hg (hfs.trans (by simpa using hxT)) hgs).symm
  refine (hperm.filter _).trans ?_
  rw [List.filter_append, hnil, List.append_nil, hold]

include hinj hreg hexits hT in
/-- An execution on one symbol, seen from another one. -/
theorem sameSymbol_execute : SameSymbol T e (execute createUuid hp e o) := by
  have hexit : ∀ kind,
    (((execute createUuid hp e o).exitOrderBook.heap kind).toList.filter fun x => x.symbol = T).Perm
      ((e.exitOrderBook.heap kind).toList.filter fun x => x.symbol = T) := exits_execute hreg hexits hT
  rcases execute_cases createUuid hp e o with he | ha
  · rw [he] at hexit ⊢
    exact ⟨rfl, rfl, fun f _ _ => .refl _ _, hexit, fun _ => rfl, fun _ _ => List.Perm.refl _, List.Perm.refl _⟩
  · obtain ⟨hlimits, hlimitOrders, horders⟩ := books_scheduleRemainder e hp hT (createUuid e.uuidCount)
    have hb := State.updateState_booking (s := e.state) (r := success o hp e.state (createUuid e.uuidCount)) rfl
    have hsym : (success o hp e.state (createUuid e.uuidCount)).position.symbol = o.symbol :=
      PositionCalc.calculatePosition_symbol (fun p hp => (hreg.positions _ p hp).1) _ _
    rw [execute_accepted ha] at hexit ⊢
    refine ⟨?_, ?_, fun f hf hfT => ?_, hexit, hlimits, hlimitOrders, horders⟩
    · show (e.state.updateState _).positions.lookup T = _
      rw [hb.positions, hsym]
      split
      · rw [Map.lookup_erase_eq, if_neg hT]
      · rw [Map.lookup_insert_eq, if_neg hT]
    · show (e.state.updateState _).fills.filter _ = _
      rw [hb.fills, List.filter_append, List.filter_cons_of_neg, List.filter_nil, List.append_nil]
      exact fun h => hT (of_decide_eq_true h).symm
    · have hfresh := hreg.fresh hinj
      refine State.updateState_sameLot (fun g hg hgs => uuid_ne hreg hT hf hg hfT hgs) fun he => hfresh ?_
      exact List.mem_map.2 ⟨f, hf, he.symm⟩

end Execution

/-- In a reachable account, an execution on one symbol leaves every other symbol alone.  The order is any order, and
the engine is the one reached or the one with the order that the next step executes taken out of its book. -/
theorem execution_is_local (hinj : Function.Injective createUuid) (hr : Reachable createUuid hp feed c)
    (he : e = c.engine ∨ ∃ o', nextExecution c = some (o', e)) (hT : T ≠ o.symbol) :
    SameSymbol T e (execute createUuid hp e o) := by
  have hreg := registered hinj hr
  have hnames := namesFill hr
  rcases he with rfl | ⟨o', hn⟩
  · exact sameSymbol_execute hinj hreg (fun kind x hx => hnames kind x (List.mem_append_left _ hx)) hT
  · have hledger := (nextExecution_sameAccount hn).sameLedger
    refine sameSymbol_execute hinj (hreg.sameLedger hledger) (fun kind x hx => ?_) hT
    obtain ⟨f, hf, h⟩ := hnames kind x (mem_exitOrders_of_nextExecution hn hx)
    exact ⟨f, by rw [hledger.fills]; exact hf, h⟩

/-- Ten shares of A with a stop loss, then a bar of B. -/
def twoSymbolsFeed : List FeedItem :=
  [⟨sampleBar "A" 100 1000 1,
    { instructions := [.order { sampleOrder "A" "buy" 10 with stopLossPrice := 95000000 }] }⟩,
    ⟨sampleBar "A" 100 1000 2, {}⟩, ⟨sampleBar "B" 50 1000 3, {}⟩]

/-- Buying B leaves the lot of A and its stop loss where they are. -/
theorem execution_is_local_two_symbols :
    let e := (sampleRun sampleParams twoSymbolsFeed 20).engine
    let o := Order.ofCOrder (sampleOrder "B" "buy" 5)
    Accepted o sampleParams e.state (sampleUuid e.uuidCount) ∧
      (e.state.fills.map Fill.symbol, (e.exitOrderBook.heap .stopLoss).toList.map ExitOrder.symbol) = (["A"], ["A"]) ∧
      SameSymbol "A" e (execute sampleUuid sampleParams e o) := by
  intro e o
  exact ⟨by decide +kernel, by decide +kernel, execution_is_local (o := o) sampleUuid_injective
    (reachable_sampleRun sampleParams twoSymbolsFeed 20) (Or.inl rfl) (by decide)⟩

end BackTestEngine

end QuantForge
