import QuantForge.BookOps

/-!
# Orders in the order of issue

The heaps compare the scheduled time or the limit price and nothing else, so orders that are equal there can overtake
each other.  The order executed next never has another one before it in time or price; it is the first issued of its
equals if the last `pop` of its heap has left at most one of them behind (`executed_in_issue_order`).
-/

namespace QuantForge

namespace BackTestEngine

open BinaryHeap

variable {createUuid : ℕ → Uuid} {hp : HostParams} {feed : List FeedItem} {c : Config}

/-- None in the list goes before `x`. -/
def Earliest {α : Type} (key : α → ℤ) (x : α) (l : List α) : Prop := ∀ y ∈ l, key x ≤ key y

/-- `x` is the first in the list of those that go with it. -/
def FirstIssued {α : Type} (key : α → ℤ) (x : α) (l : List α) : Prop := l.find? (fun y => key y = key x) = some x

instance {α : Type} [DecidableEq α] (key : α → ℤ) (x : α) (l : List α) : Decidable (FirstIssued key x l) :=
  inferInstanceAs (Decidable (l.find? (fun y => key y = key x) = some x))

/-- How many in the list go with `x`. -/
def tied {α : Type} (key : α → ℤ) (x : α) (l : List α) : ℕ := (l.filter fun y => key y = key x).length

theorem earliest_top {α : Type} [DecidableEq α] {before : α → α → Bool} {key : α → ℤ} (hkey : KeyedBy before key)
    {h : BinaryHeap before} {ops : List (Op α)} (hist : History h ops) {x : α} (htop : h.top = some x) :
    Earliest key x (waiting ops) :=
  fun y hy => top_le (hist.ordered hkey) htop y (hist.perm.mem_iff.2 hy)

/-- The order taken out of the order book next is the earliest of those waiting, and likewise the limit order of a
side and a symbol has the best price.  It is the first issued of those that go with it if the last one taken out of
that heap has left at most one of them behind.  A remainder counts as issued when it is scheduled. -/
theorem executed_in_issue_order :
    (∀ ops x, Loop.Trace (step createUuid hp) (orderBookOps createUuid hp) (start hp feed) ops c →
      servedOrder c = some x →
        nextExecution c = some (x.order, popOrder c.engine) ∧
        Earliest ScheduledOrder.scheduledFillAtNs x (waiting ops) ∧
        (tied ScheduledOrder.scheduledFillAtNs x (leftByServe ops) ≤ 1 →
          FirstIssued ScheduledOrder.scheduledFillAtNs x (waiting ops))) ∧
    ∀ side symbol ops x,
      Loop.Trace (step createUuid hp) (limitOps createUuid hp side symbol) (start hp feed) ops c →
      servedLimit side symbol c = some x →
        nextExecution c = some (x.order, popLimit side symbol c.engine) ∧
        Earliest (LimitOrder.key side) x (waiting ops) ∧
        (tied (LimitOrder.key side) x (leftByServe ops) ≤ 1 → FirstIssued (LimitOrder.key side) x (waiting ops)) := by
  constructor
  · intro ops x ht hx
    have hist := orderBook_history ht
    have hserved := served_orderBook c
    rw [hx] at hserved
    exact ⟨nextExecution_of_servedOrder hx, earliest_top ScheduledOrder.keyedBy hist hserved.top,
      fun htied => hist.find?_top ScheduledOrder.keyedBy hserved.top htied⟩
  · intro side symbol ops x ht hx
    have hist := limitHeap_history ht
    have hserved := served_limitHeap side symbol c
    rw [hx] at hserved
    exact ⟨nextExecution_of_servedLimit hx, earliest_top (LimitOrder.keyedBy side) hist hserved.top,
      fun htied => hist.find?_top (LimitOrder.keyedBy side) hserved.top htied⟩

/-- Three orders of one bar, given by their quantities, and a bar in which they are executed. -/
def threeOrdersFeed (order : ℚ → COrder) : List FeedItem :=
  [⟨sampleBar "A" 100 1000 1, { instructions := [.order (order 1), .order (order 2), .order (order 3)] }⟩,
    ⟨sampleBar "A" 100 1000 2, {}⟩]

/-- A limit order that is reached at 100. -/
def sampleLimitOrder (quantity : ℚ) : COrder :=
  { sampleOrder "A" "buy" quantity with limitPrice := 100000000, orderType := Constants.limit }

/-- The third order overtakes the second one, whatever the slippage model of the three is. -/
theorem third_order_overtakes :
    (∀ model ∈ [none, some .none, some .timeBased],
      let hp := { sampleParams with slippageModel := model }
      let feed := threeOrdersFeed (sampleOrder "A" "buy")
      (∃ ops, Loop.Trace (step sampleUuid hp) (orderBookOps sampleUuid hp) (start hp feed) ops (sampleRun hp feed 9) ∧
        ∃ x ∈ servedOrder (sampleRun hp feed 9), ¬ FirstIssued ScheduledOrder.scheduledFillAtNs x (waiting ops)) ∧
      (sampleRun hp feed 20).engine.executions.map (fun x => x.order.quantity) = [1, 3, 2]) ∧
    let feed := threeOrdersFeed sampleLimitOrder
    (∃ ops, Loop.Trace (step sampleUuid sampleParams) (limitOps sampleUuid sampleParams .buy "A")
        (start sampleParams feed) ops (sampleRun sampleParams feed 10) ∧
      ∃ x ∈ servedLimit .buy "A" (sampleRun sampleParams feed 10),
        ¬ FirstIssued (LimitOrder.key .buy) x (waiting ops)) ∧
    (sampleRun sampleParams feed 20).engine.executions.map (fun x => x.order.quantity) = [1, 3, 2] := by
  refine ⟨fun model hmodel => ⟨⟨_, Loop.trace_iter _ _ 9 _, ?_⟩, ?_⟩, ⟨_, Loop.trace_iter _ _ 10 _, ?_⟩, ?_⟩
  · revert model
    decide +kernel
  · revert model
    decide +kernel
  · decide +kernel
  · decide +kernel

/-- Three market orders and three limit orders in one bar, and two of each in the next. -/
def pairsFeed : List FeedItem :=
  let orders quantity : List CInstruction :=
    [.order (sampleOrder "A" "buy" quantity), .order (sampleLimitOrder quantity)]
  [⟨sampleBar "A" 102 1000 1, { instructions := orders 1 ++ orders 2 ++ orders 3 }⟩,
    ⟨sampleBar "A" 100 1000 2, { instructions := orders 4 ++ orders 5 }⟩, ⟨sampleBar "A" 100 1000 3, {}⟩]

/-- After the three that have overtaken each other, the two are executed in turn: the first market order while the
second one waits, and the second limit order when the first one is gone. -/
theorem executed_in_issue_order_pairs :
    (∃ ops x, servedOrder (sampleRun sampleParams pairsFeed 22) = some x ∧ x.order.quantity = 4 ∧
      (waiting ops).map (fun y => y.order.quantity) = [4, 5] ∧
      FirstIssued ScheduledOrder.scheduledFillAtNs x (waiting ops)) ∧
    ∃ ops x, servedLimit .buy "A" (sampleRun sampleParams pairsFeed 26) = some x ∧ x.order.quantity = 5 ∧
      (leftByServe ops).map (fun y => y.order.quantity) = [5] ∧
      FirstIssued (LimitOrder.key .buy) x (waiting ops) := by
  refine ⟨⟨_, _, Option.eq_some_of_isSome (by decide +kernel), by decide +kernel, ?_,
    (executed_in_issue_order.1 _ _ (Loop.trace_iter _ _ 22 _)
      (Option.eq_some_of_isSome (by decide +kernel))).2.2 (by decide +kernel)⟩,
    ⟨_, _, Option.eq_some_of_isSome (by decide +kernel), by decide +kernel, ?_,
    (executed_in_issue_order.2 .buy "A" _ _ (Loop.trace_iter _ _ 26 _)
      (Option.eq_some_of_isSome (by decide +kernel))).2.2 (by decide +kernel)⟩⟩
  · decide +kernel
  · decide +kernel

end BackTestEngine

end QuantForge
