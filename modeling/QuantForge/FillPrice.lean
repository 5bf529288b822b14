import QuantForge.Lookahead
import QuantForge.Registry

/-!
# Fill prices

Every fill is made at a price between the low and the high of the last bar of its symbol, and a limit order at its
limit or better: only the limit books hold limit orders, they fire an order only when the range of the bar reaches its
limit, and the price is then the limit or the close, whichever is better for the order.
-/

namespace QuantForge

/-- The close of a bar lies in its range. -/
def AggregateBarResult.Ordered (bar : AggregateBarResult) : Prop := bar.low ≤ bar.close ∧ bar.close ≤ bar.high

instance (bar : AggregateBarResult) : Decidable bar.Ordered := inferInstanceAs (Decidable (_ ∧ _))

theorem AggregateBarResult.Ordered.prices {bar : AggregateBarResult} (h : bar.Ordered) :
    bar.prices.low ≤ bar.prices.close ∧ bar.prices.close ≤ bar.prices.high :=
  ⟨Money.fromDollars_mono h.1, Money.fromDollars_mono h.2⟩

namespace BackTestEngine

open Executor

variable {createUuid : ℕ → Uuid} {hp : HostParams} {feed : List FeedItem} {c : Config}

/-- The price is at the limit of the order or better. -/
def WithinLimit (o : Order) (price : Money) : Prop :=
  o.isLimitOrder = true → ∀ limit ∈ o.limitPrice, if o.isBuy then price ≤ limit else limit ≤ price

/-- The price of an order lies in the range of a bar that reaches it, and within its limit. -/
private theorem fillPriceAt_spec {o : Order} {p : CurrentBarPrices} (hp : p.low ≤ p.close ∧ p.close ≤ p.high)
    (hreach : ReachesLimit p o) :
    p.low ≤ fillPriceAt o p.close ∧ fillPriceAt o p.close ≤ p.high ∧ WithinLimit o (fillPriceAt o p.close) := by
  unfold fillPriceAt WithinLimit
  rcases hlimit : o.limitPrice with _ | limit
  · exact ⟨hp.1, hp.2, fun _ l hl => by cases hl⟩
  · dsimp only
    by_cases hlim : o.isLimitOrder = true
    · have hl := hreach hlim limit hlimit
      rw [if_pos hlim]
      by_cases hb : o.isBuy = true
      · rw [if_pos hb] at hl ⊢
        refine ⟨le_min hl hp.1, (min_le_right _ _).trans hp.2, fun _ l hl' => ?_⟩
        rw [if_pos hb, ← Option.mem_some_iff.1 hl']
        exact min_le_left _ _
      · rw [if_neg hb] at hl ⊢
        refine ⟨hp.1.trans (le_max_right _ _), max_le hl hp.2, fun _ l hl' => ?_⟩
        rw [if_neg hb, ← Option.mem_some_iff.1 hl']
        exact le_max_left _ _
    · rw [if_neg hlim]
      exact ⟨hp.1, hp.2, fun h => absurd h hlim⟩

/-- Every fill of a run has a price that its symbol had on the bar that was current when it was made, and keeps the
limit of its order. -/
theorem fills_attainable (hfeed : ∀ item ∈ feed, item.bar.Ordered) (hr : Reachable createUuid hp feed c) :
    ∀ f ∈ c.engine.state.fills, ∃ x ∈ c.engine.executions, x.result.fill = f ∧
      (∃ b k, lastBarOf f.symbol (c.engine.processed.take x.bar) = some (b, k) ∧
        b.prices.low ≤ f.price ∧ f.price ≤ b.prices.high) ∧
      WithinLimit x.order f.price := by
  intro f hf
  rw [fills_eq_executions hr] at hf
  obtain ⟨x, hx, rfl⟩ := List.mem_map.1 hf
  have hpriced := reachable_executions (P := fun bars x => ∃ b k, lastBarOf x.result.fill.symbol bars = some (b, k) ∧
    x.result.fill.price = fillPriceAt x.order b.prices.close ∧ ReachesLimit b.prices x.order)
    ?_ (executionsMeet_triggered c) hr x hx
  · obtain ⟨-, b, k, hlast, hprice, hreach⟩ := hpriced
    obtain ⟨item, hitem, rfl⟩ := processed_of_feed hr b (List.mem_of_mem_take (lastBarOf_mem hlast))
    obtain ⟨hlow, hhigh, hlimit⟩ := fillPriceAt_spec (hfeed item hitem).prices hreach
    rw [← hprice] at hlow hhigh hlimit
    exact ⟨x, hx, rfl, ⟨item.bar, k, hlast, hlow, hhigh⟩, hlimit⟩
  · rintro e o ⟨hm, hreach⟩ ha
    -- an accepted order has prices, so there is a bar of its symbol
    rcases hlast : lastBarOf o.symbol e.processed with _ | ⟨b, k⟩
    · have hnone := ha.prices
      rw [State.hasSymbolPrices, hm.prices, hlast] at hnone
      cases hnone
    · exact ⟨b, k, hlast, priced_by_lastBar hm hreach hlast _⟩

/-- A limit order to buy at 98, more than the volume cap allows at once; the next bar goes down to 97 and closes at
99. -/
def limitFeed : List FeedItem :=
  [⟨sampleBar "A" 100 1000 1, { instructions :=
      [.order { sampleOrder "A" "buy" 150 with orderType := Constants.limit, limitPrice := 98000000 }] }⟩,
    ⟨⟨"A", 1000, 100, 99, 101, 97, 2⟩, {}⟩]

/-- The order and its remainder are filled at the limit. -/
theorem fills_attainable_limit :
    let c := sampleRun cappedParams limitFeed 40
    c.engine.state.fills.map (fun f => (f.quantity, f.price)) = [(100, 98000000), (50, 98000000)] ∧
      ∀ f ∈ c.engine.state.fills, ∃ x ∈ c.engine.executions, x.result.fill = f ∧
        (∃ b k, lastBarOf f.symbol (c.engine.processed.take x.bar) = some (b, k) ∧
          b.prices.low ≤ f.price ∧ f.price ≤ b.prices.high) ∧
        WithinLimit x.order f.price := by
  have hfeed : ∀ item ∈ limitFeed, item.bar.Ordered := by decide +kernel
  refine ⟨by decide +kernel, ?_⟩
  exact fills_attainable hfeed (reachable_sampleRun _ _ _)

end BackTestEngine

end QuantForge
