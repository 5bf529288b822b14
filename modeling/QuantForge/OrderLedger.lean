import Mathlib.Algebra.BigOperators.Group.Multiset.Basic
import QuantForge.BookOps
import QuantForge.PartialFills
import QuantForge.Updates

/-!
# No order is lost or duplicated

Every order that enters the books, from an instruction, from the exit book or as the remainder of a partial fill, is
executed once, rejected once or still waiting (`orders_accounted`).  Counted in shares, what was ordered was filled,
rejected, rounded off or is waiting, and an execution rounds off less than a share (`shares_accounted`).
-/

namespace QuantForge

/-- What happens to an order in a step. -/
inductive OrderEvent
  | issued (o : Order)
  | fired (o : Order)
  | executed (o : Order) (r : ExecutionResultSuccess)
  | rejected (o : Order) (message : String)

namespace OrderEvent

/-- The orders that enter: those of the plugin, those of the exit book, and remainders. -/
def entering : OrderEvent → Multiset Order
  | .issued o => {o}
  | .fired o => {o}
  | .executed _ r => ↑r.partialOrder.toList
  | .rejected _ _ => 0

/-- The orders that are dealt with. -/
def leaving : OrderEvent → Multiset Order
  | .issued _ => 0
  | .fired _ => 0
  | .executed o _ => {o}
  | .rejected o _ => {o}

/-- The fill of an execution. -/
def fill : OrderEvent → Option Fill
  | .executed _ r => some r.fill
  | _ => none

end OrderEvent

namespace BackTestEngine

open Executor

variable {createUuid : ℕ → Uuid} {hp : HostParams} {feed : List FeedItem} {c c' : Config}

/-! ### The orders that wait -/

def heapOrders {side : Side} (h : BinaryHeap (LimitOrder.before side)) : Multiset Order :=
  ↑(h.toList.map LimitOrder.order)

/-- The orders in the order book and in the limit books. -/
def pending (e : BackTestEngine) : Multiset Order :=
  ↑(e.orderBook.toList.map ScheduledOrder.order) +
    ((e.limitOrderBook.limits .buy).sumBy (fun _ h => heapOrders h) +
      (e.limitOrderBook.limits .sell).sumBy fun _ h => heapOrders h)

theorem pending_congr {e e' : BackTestEngine} (ho : e'.orderBook = e.orderBook)
    (hl : e'.limitOrderBook = e.limitOrderBook) : pending e' = pending e := by
  unfold pending
  rw [ho, hl]

/-- Replacing one limit heap. -/
private theorem pending_setHeap (e : BackTestEngine) (side : Side) (symbol : Symbol)
    (h : BinaryHeap (LimitOrder.before side)) :
    pending { e with limitOrderBook := e.limitOrderBook.setHeap side symbol h } +
        heapOrders (e.limitOrderBook.heap side symbol) = pending e + heapOrders h := by
  have key : ∀ (side : Side) (m : Map Symbol (BinaryHeap (LimitOrder.before side)))
      (h : BinaryHeap (LimitOrder.before side)),
      Map.sumBy (fun _ h => heapOrders h) (m.insert symbol h) + heapOrders ((m.lookup symbol).getD .empty) =
        m.sumBy (fun _ h => heapOrders h) + heapOrders h := by
    intro side m h
    rw [Map.sumBy_insert]
    rcases hm : m.lookup symbol with _ | h'
    · rw [Map.sumBy_erase_of_notMem _ hm, Option.getD_none, add_comm (heapOrders h)]
      exact add_zero _
    · rw [Map.sumBy_of_lookup (m := m) _ hm, Option.getD_some]
      abel
  unfold pending
  cases side with
  | buy =>
    have := key .buy e.limitOrderBook.buyLimits h
    simp only [LimitOrderBook.setHeap, LimitOrderBook.setLimits, LimitOrderBook.limits, LimitOrderBook.heap] at this ⊢
    rw [add_assoc, add_right_comm (Map.sumBy _ _), this]
    abel
  | sell =>
    have := key .sell e.limitOrderBook.sellLimits h
    simp only [LimitOrderBook.setHeap, LimitOrderBook.setLimits, LimitOrderBook.limits, LimitOrderBook.heap] at this ⊢
    rw [add_assoc, add_assoc (Map.sumBy _ _), this]
    abel

theorem pending_popOrder {e : BackTestEngine} {x : ScheduledOrder} (ht : e.orderBook.top = some x) :
    pending e = x.order ::ₘ pending { e with orderBook := e.orderBook.pop } := by
  unfold pending
  rw [Multiset.coe_eq_coe.2 ((BinaryHeap.toList_pop ht).map _), List.map_cons, ← Multiset.cons_coe, Multiset.cons_add]

theorem pending_popLimit {e : BackTestEngine} {side : Side} {symbol : Symbol} {x : LimitOrder}
    (ht : (e.limitOrderBook.heap side symbol).top = some x) :
    pending e = x.order ::ₘ pending { e with
      limitOrderBook := e.limitOrderBook.setHeap side symbol (e.limitOrderBook.heap side symbol).pop } := by
  have h := pending_setHeap e side symbol (e.limitOrderBook.heap side symbol).pop
  have hpop : heapOrders (e.limitOrderBook.heap side symbol) =
      x.order ::ₘ heapOrders (e.limitOrderBook.heap side symbol).pop := by
    unfold heapOrders
    rw [Multiset.coe_eq_coe.2 ((BinaryHeap.toList_pop ht).map _), List.map_cons, ← Multiset.cons_coe]
  rw [hpop, Multiset.add_cons, ← Multiset.cons_add] at h
  exact (add_right_cancel h).symm

theorem pending_schedule (e : BackTestEngine) (o : Order) : pending (e.schedule o hp) = o ::ₘ pending e := by
  rcases schedule_cases e o hp with ⟨-, he⟩ | ⟨limit, -, -, he⟩
  · rw [he]
    unfold pending
    rw [Multiset.coe_eq_coe.2 ((BinaryHeap.toList_push _ _).map _), List.map_cons, ← Multiset.cons_coe,
      Multiset.cons_add]
    rfl
  · rw [he]
    have h := pending_setHeap e (if o.isBuy then .buy else .sell) o.symbol
      ((e.limitOrderBook.heap _ o.symbol).push ⟨o, limit⟩)
    have hpush : heapOrders ((e.limitOrderBook.heap (if o.isBuy then .buy else .sell) o.symbol).push ⟨o, limit⟩) =
        o ::ₘ heapOrders (e.limitOrderBook.heap (if o.isBuy then .buy else .sell) o.symbol) := by
      unfold heapOrders
      rw [Multiset.coe_eq_coe.2 ((BinaryHeap.toList_push _ _).map _), List.map_cons, ← Multiset.cons_coe]
    rw [hpush, Multiset.add_cons, ← Multiset.cons_add] at h
    exact add_right_cancel h

theorem pending_scheduleAll (e : BackTestEngine) (l : List Order) :
    pending (scheduleAll hp e l) = ↑l + pending e := by
  induction l generalizing e with
  | nil => exact (zero_add _).symm
  | cons o l ih =>
    show pending (scheduleAll hp (e.schedule o hp) l) = _
    rw [ih, pending_schedule, Multiset.add_cons, ← Multiset.cons_add]
    rfl

/-! ### The events of a step -/

/-- What becomes of an order that is taken out of a book. -/
def outcome (createUuid : ℕ → Uuid) (hp : HostParams) (e : BackTestEngine) (o : Order) : OrderEvent :=
  match executeOrder o hp e.state (createUuid e.uuidCount) with
  | .error message => .rejected o message
  | .ok r => .executed o r

theorem outcome_leaving (e : BackTestEngine) (o : Order) : (outcome createUuid hp e o).leaving = {o} := by
  unfold outcome
  split <;> rfl

theorem outcome_entering (e : BackTestEngine) (o : Order) :
    (outcome createUuid hp e o).entering = ↑(remainders createUuid hp e o) := by
  unfold outcome remainders
  cases executeOrder o hp e.state (createUuid e.uuidCount) <;> rfl

def Phase.isExitPass : Phase → Bool
  | .stopLosses _ => true
  | .takeProfits _ => true
  | _ => false

/-- What happens to orders in the next step. -/
def orderEvents (createUuid : ℕ → Uuid) (hp : HostParams) (c : Config) : List OrderEvent :=
  match nextExecution c with
  | some (o, e) => (if c.phase.isExitPass then [.fired o] else []) ++ [outcome createUuid hp e o]
  | none => (arrivals createUuid hp c).map .issued

theorem sum_issued (l : List Order) :
    ((l.map OrderEvent.issued).map OrderEvent.entering).sum = ↑l ∧
      ((l.map OrderEvent.issued).map OrderEvent.leaving).sum = 0 := by
  induction l with
  | nil => exact ⟨rfl, rfl⟩
  | cons o l ih =>
    simp only [List.map_cons, List.sum_cons, ih.1, ih.2]
    exact ⟨rfl, rfl⟩

/-! ### The balance -/

/-- The orders that have entered have left or are waiting. -/
def Balanced (evs : List OrderEvent) (c : Config) : Prop :=
  (evs.map OrderEvent.entering).sum = (evs.map OrderEvent.leaving).sum + pending c.engine

theorem balanced_start (feed : List FeedItem) : Balanced [] (start hp feed) := by
  show 0 = 0 + pending (start hp feed).engine
  rw [zero_add]
  rfl

/-- An order of the exit book is fired and executed at once; any other order was waiting. -/
private theorem pending_nextExecution {o : Order} {e : BackTestEngine} (hn : nextExecution c = some (o, e)) :
    {o} + pending e = (if c.phase.isExitPass then {o} else 0) + pending c.engine := by
  cases nextExecution_cases hn with
  | orderBook bar x hphase htop _ ho he =>
    rw [hphase, he, ho, pending_popOrder htop]
    exact (zero_add _).symm
  | limit side symbol symbols x hphase _ htop _ ho he =>
    rw [hphase, he, ho, pending_popLimit htop]
    cases side <;> exact (zero_add _).symm
  | exit kind l x hphase _ _ _ _ _ he =>
    rw [hphase, he]
    cases kind <;> rfl

/-- What enters in a step leaves in it or waits after it. -/
private theorem balance_step (hs : step createUuid hp c = some c') :
    ((orderEvents createUuid hp c).map OrderEvent.entering).sum + pending c.engine =
      ((orderEvents createUuid hp c).map OrderEvent.leaving).sum + pending c'.engine := by
  have hbooks := step_books hs
  have hpending : pending c'.engine = ↑(arrivals createUuid hp c) + pending (withoutServed c) := by
    rw [pending_congr hbooks.1 hbooks.2, pending_scheduleAll]
  rw [hpending]
  unfold orderEvents arrivals withoutServed
  rcases hn : nextExecution c with _ | ⟨o, e⟩
  · dsimp only
    rw [(sum_issued _).1, (sum_issued _).2, zero_add]
  · have hfired : ((if c.phase.isExitPass then [OrderEvent.fired o] else []).map OrderEvent.entering).sum =
        (if c.phase.isExitPass then {o} else 0) ∧
        ((if c.phase.isExitPass then [OrderEvent.fired o] else []).map OrderEvent.leaving).sum = 0 := by
      split <;> exact ⟨rfl, rfl⟩
    dsimp only
    rw [List.map_append, List.sum_append, List.map_append, List.sum_append, List.map_singleton, List.map_singleton,
      List.sum_singleton, List.sum_singleton, outcome_leaving, outcome_entering, hfired.1, hfired.2, add_right_comm,
      ← pending_nextExecution hn]
    abel

private theorem balanced {evs : List OrderEvent}
    (h : Loop.Trace (step createUuid hp) (orderEvents createUuid hp) (start hp feed) evs c) : Balanced evs c := by
  refine Loop.trace_invariant (P := Balanced) (balanced_start feed) ?_ h
  intro evs c c' _ hI hs
  have hstep := balance_step hs
  unfold Balanced at hI ⊢
  rw [List.map_append, List.sum_append, List.map_append, List.sum_append, hI, add_assoc, add_assoc,
    add_comm (pending _),
    hstep]

/-- The fills of the events of a step are those that it adds to the account. -/
private theorem fills_step (hs : step createUuid hp c = some c') :
    c'.engine.state.fills = c.engine.state.fills ++ (orderEvents createUuid hp c).filterMap OrderEvent.fill := by
  unfold orderEvents
  rcases hn : nextExecution c with _ | ⟨o, e⟩
  · have hnone : ((arrivals createUuid hp c).map OrderEvent.issued).filterMap OrderEvent.fill = [] := by
      rw [List.filterMap_map]
      exact List.filterMap_eq_nil_iff.2 fun _ _ => rfl
    dsimp only
    rw [hnone, List.append_nil]
    rcases step_account hs with h | ⟨item, -, -, h⟩ | ⟨o, e, hne, -⟩ | ⟨e, hse, h⟩
    · rw [h.state]
    · rw [h]; rfl
    · rw [hn] at hne; cases hne
    · obtain ⟨curve, peak, drawdown, hf⟩ := finishBar_frame e hp
      rw [h, hf]
      show e.state.fills = _
      rw [hse.state]
  · rw [step_of_nextExecution hn] at hs
    obtain rfl := Option.some.inj hs
    dsimp only
    rw [List.filterMap_append, ← (nextExecution_sameAccount hn).state]
    have hfired : (if c.phase.isExitPass then [OrderEvent.fired o] else []).filterMap OrderEvent.fill = [] := by
      split <;> rfl
    rw [hfired, List.nil_append]
    unfold outcome
    rcases executeOrder_cases o hp e.state (createUuid e.uuidCount) with ⟨m, hm⟩ | ⟨ha, hok⟩
    · rw [hm, execute_of_error hm]
      exact (List.append_nil _).symm
    · rw [hok, execute_accepted ha]
      exact (State.updateState_booking rfl).fills

/-- Every order that enters the books is executed once, rejected once, or waiting, and the executions are the fills of
the account. -/
theorem orders_accounted {evs : List OrderEvent}
    (h : Loop.Trace (step createUuid hp) (orderEvents createUuid hp) (start hp feed) evs c) :
    Balanced evs c ∧ evs.filterMap OrderEvent.fill = c.engine.state.fills := by
  refine ⟨balanced h, ?_⟩
  refine Loop.trace_invariant (P := fun evs c => evs.filterMap OrderEvent.fill = c.engine.state.fills) rfl ?_ h
  intro evs c c' _ hI hs
  rw [List.filterMap_append, hI, fills_step hs]

/-- Ten shares bought at a tenth of a volume of 45, then two sold. -/
def cappedFeed : List FeedItem := sampleFeed "A" 45 [(100, "buy", 10), (100, "sell", 2), (100, "buy", 3)]

/-- The ten shares take three executions; the last order waits. -/
theorem orders_accounted_capped :
    let evs := Loop.events (step sampleUuid cappedParams) (orderEvents sampleUuid cappedParams) 60
      (start cappedParams cappedFeed)
    let c := sampleRun cappedParams cappedFeed 60
    (evs.filterMap OrderEvent.fill).map Fill.quantity = [4, 4, 1, 2] ∧ Multiset.card (pending c.engine) = 1 ∧
      Balanced evs c := by
  intro evs c
  exact ⟨by decide +kernel, by decide +kernel, (orders_accounted (Loop.trace_iter _ _ 60 _)).1⟩

/-- An exception stops the run at the second instruction; the order of the first is in the books. -/
example :
    let c := sampleRun sampleParams
      [⟨sampleBar "A" 100 1000 0, { instructions := [.order (sampleOrder "A" "buy" 10), .invalid] }⟩] 60
    c.phase = .failed "Invalid instruction type" ∧ Multiset.card (pending c.engine) = 1 := by decide +kernel

/-! ### Shares -/

section Shares

variable (mine : Order → Bool)

/-- The shares of the orders that are looked at. -/
def shares (orders : Multiset Order) : ℚ := (orders.map fun o => if mine o then o.quantity else 0).sum

@[simp] theorem shares_zero : shares mine 0 = 0 := rfl

@[simp] theorem shares_singleton (o : Order) : shares mine {o} = if mine o then o.quantity else 0 := by
  simp [shares]

@[simp] theorem shares_add (orders orders' : Multiset Order) :
    shares mine (orders + orders') = shares mine orders + shares mine orders' := by
  simp [shares]

theorem shares_sum (l : List (Multiset Order)) : shares mine l.sum = (l.map (shares mine)).sum := by
  induction l with
  | nil => rfl
  | cons orders l ih => rw [List.sum_cons, shares_add, ih, List.map_cons, List.sum_cons]

/-- The shares ordered, by the plugin or by the exit book. -/
def sharesOrdered : OrderEvent → ℚ
  | .issued o => if mine o then o.quantity else 0
  | .fired o => if mine o then o.quantity else 0
  | _ => 0

def sharesFilled : OrderEvent → ℚ
  | .executed o r => if mine o then r.fill.quantity else 0
  | _ => 0

def sharesRejected : OrderEvent → ℚ
  | .rejected o _ => if mine o then o.quantity else 0
  | _ => 0

/-- The shares that are neither filled nor put back. -/
def sharesRounded : OrderEvent → ℚ
  | .executed o r => if mine o then o.quantity - r.fill.quantity - remainderOf r else 0
  | _ => 0

/-- The execution is one of `execute_order`. -/
def Genuine (hp : HostParams) : OrderEvent → Prop
  | .executed o r => ∃ s uuid, executeOrder o hp s uuid = .ok r
  | _ => True

variable {mine}

/-- An execution fills, puts back or rounds off what it takes. -/
private theorem shares_event (hmine : ∀ o q, mine { o with quantity := q } = mine o) {ev : OrderEvent}
    (h : Genuine hp ev) :
    shares mine ev.entering =
      shares mine ev.leaving + (sharesOrdered mine ev - sharesFilled mine ev - sharesRejected mine ev -
        sharesRounded mine ev) := by
  cases ev with
  | issued o => simp [OrderEvent.entering, OrderEvent.leaving, sharesOrdered, sharesFilled,
    sharesRejected, sharesRounded]
  | fired o => simp [OrderEvent.entering, OrderEvent.leaving, sharesOrdered, sharesFilled,
    sharesRejected, sharesRounded]
  | rejected o message =>
    simp [OrderEvent.entering, OrderEvent.leaving, sharesOrdered, sharesFilled, sharesRejected, sharesRounded]
  | executed o r =>
    obtain ⟨s, uuid, hok⟩ := h
    have hr : r = success o hp s uuid := (executeOrder_ok_iff.1 hok).2
    have hentering : shares mine (OrderEvent.executed o r).entering = if mine o then remainderOf r else 0 := by
      show shares mine ↑r.partialOrder.toList = if mine o then r.partialOrder.elim 0 Order.quantity else 0
      rcases ho' : r.partialOrder with _ | o'
      · exact (ite_self 0).symm
      · have hsame : mine o' = mine o := by
          rw [hr] at ho'
          rw [(partialOrder_eq ho').1]
          exact hmine o _
        rw [← hsame]
        exact shares_singleton mine o'
    rw [hentering]
    simp only [OrderEvent.leaving, shares_singleton, sharesOrdered, sharesFilled, sharesRejected, sharesRounded]
    split <;> ring

/-- An execution rounds off less than a share, and nothing with fractional shares. -/
private theorem sharesRounded_bounds {ev : OrderEvent} (h : Genuine hp ev) :
    0 ≤ sharesRounded mine ev ∧ sharesRounded mine ev < 1 ∧ (hp.fractional = true → sharesRounded mine ev = 0) := by
  cases ev with
  | executed o r =>
    obtain ⟨s, uuid, hok⟩ := h
    obtain rfl : r = success o hp s uuid := (executeOrder_ok_iff.1 hok).2
    have hsum := (fillable_add_remaining o hp s).1
    have hrounded : o.quantity - (success o hp s uuid).fill.quantity - remainderOf (success o hp s uuid) =
        (getFillableAndRemainingQuantities o hp s).1 - fillableQuantity o hp s := by
      rw [remainderOf_success, ← hsum]
      show _ - fillableQuantity o hp s - _ = _
      ring
    simp only [sharesRounded, hrounded]
    split
    · unfold fillableQuantity
      cases hp.fractional with
      | true => simp
      | false =>
        rw [if_neg Bool.false_ne_true]
        exact ⟨Int.fract_nonneg _, Int.fract_lt_one _, nofun⟩
    · exact ⟨le_refl 0, zero_lt_one, fun _ => rfl⟩
  | _ => exact ⟨le_refl 0, zero_lt_one, fun _ => rfl⟩

private theorem genuine {evs : List OrderEvent}
    (h : Loop.Trace (step createUuid hp) (orderEvents createUuid hp) (start hp feed) evs c) :
    ∀ ev ∈ evs, Genuine hp ev := by
  refine Loop.trace_invariant (P := fun evs _ => ∀ ev ∈ evs, Genuine hp ev) (List.forall_mem_nil _) ?_ h
  intro evs c c' _ hI _ ev hev
  rcases List.mem_append.1 hev with hev | hev
  · exact hI ev hev
  · unfold orderEvents at hev
    split at hev
    · rename_i o e _
      rcases List.mem_append.1 hev with hev | hev
      · split at hev
        · rw [List.mem_singleton.1 hev]
          trivial
        · cases hev
      · rw [List.mem_singleton.1 hev, outcome]
        split
        · trivial
        · rename_i r hr
          exact ⟨_, _, hr⟩
    · obtain ⟨o, -, rfl⟩ := List.mem_map.1 hev
      trivial

/-- Counted in shares, whatever orders are looked at: what was ordered has been filled, rejected or rounded off or is
waiting, and each execution rounds off less than a share. -/
theorem shares_accounted (hmine : ∀ o q, mine { o with quantity := q } = mine o) {evs : List OrderEvent}
    (h : Loop.Trace (step createUuid hp) (orderEvents createUuid hp) (start hp feed) evs c) :
    (evs.map (sharesOrdered mine)).sum =
        (evs.map (sharesFilled mine)).sum + (evs.map (sharesRejected mine)).sum +
          (evs.map (sharesRounded mine)).sum + shares mine (pending c.engine) ∧
      ∀ ev ∈ evs, 0 ≤ sharesRounded mine ev ∧ sharesRounded mine ev < 1 ∧
        (hp.fractional = true → sharesRounded mine ev = 0) := by
  have hgenuine := genuine h
  refine ⟨?_, fun ev hev => sharesRounded_bounds (hgenuine ev hev)⟩
  have hbalance := congrArg (shares mine) (balanced h)
  rw [shares_add, shares_sum, shares_sum, List.map_map, List.map_map] at hbalance
  have hevents : (evs.map (shares mine ∘ OrderEvent.entering)).sum =
      (evs.map (shares mine ∘ OrderEvent.leaving)).sum + ((evs.map (sharesOrdered mine)).sum -
        (evs.map (sharesFilled mine)).sum - (evs.map (sharesRejected mine)).sum -
        (evs.map (sharesRounded mine)).sum) := by
    clear hbalance h
    induction evs with
    | nil => simp
    | cons ev evs ih =>
      have hev := shares_event hmine (hgenuine ev List.mem_cons_self)
      have htail := ih fun ev' hev' => hgenuine ev' (List.mem_cons_of_mem _ hev')
      simp only [List.map_cons, List.sum_cons, Function.comp_apply, hev, htail]
      ring
  linarith

/-- Of the thirteen shares to buy, nine are bought, one is rounded off and three are waiting. -/
theorem shares_accounted_capped :
    let evs := Loop.events (step sampleUuid cappedParams) (orderEvents sampleUuid cappedParams) 60
      (start cappedParams cappedFeed)
    let c := sampleRun cappedParams cappedFeed 60
    (evs.map (sharesFilled Order.isBuy)).sum = 9 ∧ (evs.map (sharesRounded Order.isBuy)).sum = 1 ∧
      shares Order.isBuy (pending c.engine) = 3 ∧ (evs.map (sharesOrdered Order.isBuy)).sum = 13 := by
  intro evs c
  have hfilled : (evs.map (sharesFilled Order.isBuy)).sum = 9 := by decide +kernel
  have hrejected : (evs.map (sharesRejected Order.isBuy)).sum = 0 := by decide +kernel
  have hrounded : (evs.map (sharesRounded Order.isBuy)).sum = 1 := by decide +kernel
  have hpending : shares Order.isBuy (pending c.engine) = 3 := by decide +kernel
  have hbuy : ∀ o q, Order.isBuy { o with quantity := q } = Order.isBuy o := fun _ _ => rfl
  have h : _ = _ + _ + _ + shares Order.isBuy (pending c.engine) :=
    (shares_accounted hbuy (Loop.trace_iter (step sampleUuid cappedParams) _ 60 (start _ cappedFeed))).1
  rw [hfilled, hrejected, hrounded, hpending] at h
  exact ⟨hfilled, hrounded, hpending, h.trans (by norm_num)⟩

end Shares

end BackTestEngine

end QuantForge
