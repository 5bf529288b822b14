import QuantForge.ExitPasses
import QuantForge.Lookahead

/-!
# Exit orders and the bar that created them

A fill is made at the close of a bar, and the exit orders it creates are in the heaps when the exit passes of the same
bar begin.  They are held against the high and the low of that bar, which lie before the close.  If every exit price
is outside the range of the bar its order is filled on, then an exit order waits for a later bar of its symbol
(`triggeredLater_of_outOfReach`).
-/

namespace QuantForge

/-- The last bar of a symbol is the last one of an initial part that contains it. -/
theorem lastBarOf_take {symbol : Symbol} {bars : List AggregateBarResult} {b : AggregateBarResult} {k m : ℕ}
    (h : lastBarOf symbol bars = some (b, k)) (hk : k < m) : lastBarOf symbol (bars.take m) = some (b, k) := by
  induction bars using List.reverseRecOn with
  | nil => cases h
  | append_singleton bars bar ih =>
    by_cases hm : m ≤ bars.length
    · rw [List.take_append_of_le_length hm]
      apply ih
      rw [lastBarOf_append] at h
      split at h
      · cases h
        omega
      · exact h
    · rw [List.take_of_length_le (by simp; omega)]
      exact h

/-- The range of a bar reaches an exit order. -/
def ExitOrder.reachedBy (x : ExitOrder) (p : CurrentBarPrices) : Bool :=
  match x.kind with
  | .stopLoss => if x.isShortPosition then p.high ≥ x.triggerPrice else p.low ≤ x.triggerPrice
  | .takeProfit => if x.isShortPosition then p.low ≤ x.triggerPrice else p.high ≥ x.triggerPrice

namespace BackTestEngine

open Executor

variable {createUuid : ℕ → Uuid} {hp : HostParams} {feed : List FeedItem} {c : Config}

theorem shouldTrigger_eq (s : State) (x : ExitOrder) :
    shouldTrigger s x = x.reachedBy (s.symbolPrices x.symbol) := rfl

/-- The execution created the exit order; later executions may have reduced it. -/
def CreatedBy (y : Execution) (x : ExitOrder) : Prop :=
  ∃ x₀ ∈ y.result.exitOrders, x = { x₀ with triggerQuantity := x.triggerQuantity }

instance (y : Execution) (x : ExitOrder) : Decidable (CreatedBy y x) :=
  inferInstanceAs (Decidable (∃ x₀ ∈ y.result.exitOrders, _))

/-- An exit order that triggers comes from an execution, and it is triggered by a bar of its symbol that was processed
after the bar of that execution. -/
def TriggeredLater (c : Config) (x : ExitOrder) : Prop :=
  (∃ y ∈ c.engine.executions, CreatedBy y x) ∧
    ∀ y ∈ c.engine.executions, CreatedBy y x →
      ∃ b k, lastBarOf x.symbol c.engine.processed = some (b, k) ∧ y.bar ≤ k ∧ x.reachedBy b.prices = true

/-- The current bar of the symbol does not reach the exit prices of the order, for a long or a short position. -/
def ExitsOutOfReach (s : State) (o : Order) (isShort : Bool) : Prop :=
  (∀ p ∈ o.stopLossPrice, if isShort then s.getSymbolHigh o.symbol < p else p < s.getSymbolLow o.symbol) ∧
    ∀ p ∈ o.takeProfitPrice, if isShort then p < s.getSymbolLow o.symbol else s.getSymbolHigh o.symbol < p

instance (s : State) (o : Order) (isShort : Bool) : Decidable (ExitsOutOfReach s o isShort) :=
  inferInstanceAs (Decidable (_ ∧ _))

/-- An accepted order that opens shares has its exit prices outside the range of the current bar. -/
def FilledOutOfReach (createUuid : ℕ → Uuid) (hp : HostParams) (e : BackTestEngine) (o : Order) : Prop :=
  Accepted o hp e.state (createUuid e.uuidCount) → Constants.epsilon < positionOpeningQuantity o hp e.state →
    ExitsOutOfReach e.state o (o.isSell && newPositionQuantity o hp e.state ≤ 0)

instance (createUuid : ℕ → Uuid) (hp : HostParams) (e : BackTestEngine) (o : Order) :
    Decidable (FilledOutOfReach createUuid hp e o) :=
  inferInstanceAs (Decidable (_ → _ → _))

/-- The exit orders of such an order do not trigger on the current bar. -/
private theorem reachedBy_createExitOrders {e : BackTestEngine} {o : Order}
    (ha : Accepted o hp e.state (createUuid e.uuidCount)) (h : FilledOutOfReach createUuid hp e o) :
    ∀ x ∈ (success o hp e.state (createUuid e.uuidCount)).exitOrders,
      x.symbol = o.symbol ∧ x.reachedBy (e.state.symbolPrices o.symbol) = false := by
  intro x hx
  obtain ⟨hopen, hprice, hshort, hsym, -⟩ := mem_createExitOrders hx
  refine ⟨hsym, ?_⟩
  obtain ⟨hstop, htake⟩ := h ha hopen
  rw [← hshort] at hstop htake
  unfold ExitOrder.reachedBy
  rcases hk : x.kind with _ | _ <;> rw [hk] at hprice <;> dsimp only
  · have hout := hstop x.triggerPrice hprice
    split at hout <;> rename_i hs
    · rw [if_pos hs]
      exact decide_eq_false (not_le.2 hout)
    · rw [if_neg hs]
      exact decide_eq_false (not_le.2 hout)
  · have hout := htake x.triggerPrice hprice
    split at hout <;> rename_i hs
    · rw [if_pos hs]
      exact decide_eq_false (not_le.2 hout)
    · rw [if_neg hs]
      exact decide_eq_false (not_le.2 hout)

/-- Every exit order comes from an execution. -/
theorem exitOrders_createdBy (hr : Reachable createUuid hp feed c) :
    ∀ kind, ∀ x ∈ exitOrders c kind, ∃ y ∈ c.engine.executions, CreatedBy y x := by
  refine reachable_exitOrders (P := fun e x => ∃ y ∈ e.executions, CreatedBy y x) ?_ ?_ ?_ executionsMeet_true hr
  · intro e e' x hs h
    rw [hs.executions]
    exact h
  · rintro e o x q ⟨y, hy, x₀, hx₀, hx⟩
    refine ⟨y, ?_, x₀, hx₀, by rw [hx]⟩
    rcases execute_cases createUuid hp e o with he | ha
    · rw [he]; exact hy
    · rw [execute_accepted ha]; exact List.mem_append_left _ hy
  · intro e o _ ha x hx
    rw [execute_accepted ha]
    exact ⟨_, List.mem_append_right _ (List.mem_singleton_self _), x, hx, rfl⟩

/-- No execution has created an exit order that its own bar would trigger. -/
private theorem executions_outOfReach
    (hG : ExecutionsMeet createUuid hp feed c (FilledOutOfReach createUuid hp))
    (hr : Reachable createUuid hp feed c) :
    ∀ y ∈ c.engine.executions, ∀ x ∈ y.result.exitOrders, ∀ b k,
      lastBarOf x.symbol (c.engine.processed.take y.bar) = some (b, k) → x.reachedBy b.prices = false := by
  intro y hy
  refine (reachable_executions (P := fun bars y => ∀ x ∈ y.result.exitOrders, ∀ b k,
    lastBarOf x.symbol bars = some (b, k) → x.reachedBy b.prices = false) ?_ (hG.and executionsMeet_marketData) hr
      y hy).2
  rintro e o ⟨hout, hm⟩ ha x hx b k hlast
  obtain ⟨hsym, hreach⟩ := reachedBy_createExitOrders ha hout x hx
  have hprices : e.state.symbolPrices o.symbol = b.prices := by
    rw [State.symbolPrices, hm.prices, ← hsym, hlast]
    rfl
  rw [← hprices]
  exact hreach

/-- In a run whose fills have their exit prices outside the range of their bar, every exit order that triggers is
triggered by a later bar of its symbol. -/
theorem triggeredLater_of_outOfReach (hG : ExecutionsMeet createUuid hp feed c (FilledOutOfReach createUuid hp))
    (hr : Reachable createUuid hp feed c) {kind : ExitKind} {x : ExitOrder}
    (hx : nextExit kind c.engine = some x) : TriggeredLater c x := by
  obtain ⟨htop, -, hprices, htrig⟩ := nextExit_eq_some hx
  refine ⟨exitOrders_createdBy hr kind x (List.mem_append_left _ (BinaryHeap.top_mem htop)), ?_⟩
  rintro y hy ⟨x₀, hx₀, he⟩
  have hm := marketData hr
  rcases hlast : lastBarOf x.symbol c.engine.processed with _ | ⟨b, k⟩
  · rw [State.hasSymbolPrices, hm.prices, hlast] at hprices
    cases hprices
  · have hreach : x.reachedBy b.prices = true := by
      rw [shouldTrigger_eq, State.symbolPrices, hm.prices, hlast] at htrig
      exact htrig
    refine ⟨b, k, rfl, ?_, hreach⟩
    -- a bar that was there when the order was filled does not trigger its exit orders
    by_contra hlt
    have hsym : x₀.symbol = x.symbol := by rw [he]
    have hnot := executions_outOfReach hG hr y hy x₀ hx₀ b k
      (by rw [hsym]; exact lastBarOf_take hlast (not_le.1 hlt))
    rw [he] at hreach
    exact absurd (hreach.symm.trans hnot) (by decide)

/-- A buy with a stop loss at 95; the bar it is filled on has the given low, and the bar after it goes down to 90. -/
def stopLossFeed (low : ℚ) : List FeedItem :=
  [⟨sampleBar "A" 100 1000 1,
    { instructions := [.order { sampleOrder "A" "buy" 10 with stopLossPrice := 95000000 }] }⟩,
    ⟨{ sampleBar "A" 100 1000 2 with low := low }, {}⟩,
    ⟨{ sampleBar "A" 100 1000 3 with low := 90 }, {}⟩]

/-- The bar of the fill stays above the stop loss, and the next one triggers it. -/
theorem triggeredLater_of_outOfReach_next_bar :
    let c := sampleRun sampleParams (stopLossFeed 100) 20
    ∃ x, nextExit .stopLoss c.engine = some x ∧ c.phase = .stopLosses [] ∧ TriggeredLater c x := by
  have hsome : (nextExit .stopLoss (sampleRun sampleParams (stopLossFeed 100) 20).engine).isSome = true := by
    decide +kernel
  obtain ⟨x, hx⟩ := Option.isSome_iff_exists.1 hsome
  refine ⟨x, hx, by decide +kernel, triggeredLater_of_outOfReach ?_ (reachable_sampleRun _ _ _) hx⟩
  exact executionsMeet_sampleRun (n := 24) (by decide) (Option.isNone_iff_eq_none.1 (by decide +kernel))
    (by decide +kernel)

/-- The order is filled at the close of 100, and the low of 90 of the same bar triggers its stop loss at 95. -/
theorem triggered_by_its_own_bar :
    ¬ ∀ (createUuid : ℕ → Uuid) (hp : HostParams) (feed : List FeedItem) (c : Config) (kind : ExitKind)
      (l : List ExitOrder) (x : ExitOrder), Function.Injective createUuid → Reachable createUuid hp feed c →
      c.phase = .exits kind l → nextExit kind c.engine = some x → TriggeredLater c x := by
  intro h
  have hsome : (nextExit .stopLoss (sampleRun sampleParams (stopLossFeed 90) 12).engine).isSome = true := by
    decide +kernel
  obtain ⟨x, hx⟩ := Option.isSome_iff_exists.1 hsome
  obtain ⟨⟨y, hy, hyx⟩, hlater⟩ := h sampleUuid sampleParams (stopLossFeed 90) _ .stopLoss [] x sampleUuid_injective
    (reachable_sampleRun _ _ 12) (by decide +kernel) hx
  obtain ⟨b, k, hlast, hk, -⟩ := hlater y hy hyx
  have hsym : x.symbol = "A" := by
    have : ∀ z ∈ nextExit .stopLoss (sampleRun sampleParams (stopLossFeed 90) 12).engine, z.symbol = "A" := by
      decide +kernel
    exact this x hx
  have hold : ∀ p ∈ lastBarOf "A" (sampleRun sampleParams (stopLossFeed 90) 12).engine.processed, p.2 < 2 := by
    decide +kernel
  have hbar : ∀ y ∈ (sampleRun sampleParams (stopLossFeed 90) 12).engine.executions, y.bar = 2 := by decide +kernel
  have h1 := hold (b, k) (hsym ▸ hlast)
  have h2 := hbar y hy
  omega

end BackTestEngine

end QuantForge
