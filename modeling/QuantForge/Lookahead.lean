import QuantForge.OrderFlow
import QuantForge.Updates

/-!
# No look-ahead

The market data of the state are those of the last bar of each symbol (`marketData`), and every loop looks at the
orders of all symbols on every bar.  So an order is triggered and priced by the last bar of its symbol, and this bar
is newer than the order exactly when a bar of the symbol has come in since the order was issued:
`noLookAhead_of_seesNewBar`.
-/

namespace QuantForge

/-- The last bar of a symbol, with its index. -/
def lastBarOf (symbol : Symbol) (bars : List AggregateBarResult) : Option (AggregateBarResult × ℕ) :=
  (bars.zipIdx.filter fun p => p.1.symbol = symbol).getLast?

theorem lastBarOf_append (symbol : Symbol) (bars : List AggregateBarResult) (bar : AggregateBarResult) :
    lastBarOf symbol (bars ++ [bar]) =
      if bar.symbol = symbol then some (bar, bars.length) else lastBarOf symbol bars := by
  unfold lastBarOf
  rw [List.zipIdx_append, List.filter_append]
  by_cases h : bar.symbol = symbol
  · simp [h]
  · simp [h]

/-- A symbol with a bar from index `i` on has its last bar there. -/
theorem lastBarOf_of_mem_drop {symbol : Symbol} {bars : List AggregateBarResult} {i : ℕ}
    (h : ∃ b ∈ bars.drop i, b.symbol = symbol) : ∃ b k, lastBarOf symbol bars = some (b, k) ∧ i ≤ k := by
  induction bars using List.reverseRecOn with
  | nil => simp at h
  | append_singleton bars bar ih =>
    rw [lastBarOf_append]
    by_cases hs : bar.symbol = symbol
    · rw [if_pos hs]
      refine ⟨bar, bars.length, rfl, ?_⟩
      by_contra hlt
      rw [List.drop_eq_nil_of_le (by simp; omega)] at h
      simp at h
    · rw [if_neg hs]
      apply ih
      obtain ⟨b, hb, hbs⟩ := h
      refine ⟨b, ?_, hbs⟩
      by_cases hi : i ≤ bars.length
      · rw [List.drop_append_of_le_length hi, List.mem_append] at hb
        rcases hb with hb | hb
        · exact hb
        · rw [List.mem_singleton.1 hb] at hbs
          exact absurd hbs hs
      · rw [List.drop_eq_nil_of_le (by simp; omega)] at hb
        cases hb

/-- The last bar of a symbol is one of the bars. -/
theorem lastBarOf_mem {symbol : Symbol} {bars : List AggregateBarResult} {b : AggregateBarResult} {k : ℕ}
    (h : lastBarOf symbol bars = some (b, k)) : b ∈ bars := by
  have hmem := (List.mem_filter.1 (List.mem_of_getLast? h)).1
  exact List.fst_mem_of_mem_zipIdx hmem

namespace BackTestEngine

open Executor

variable {createUuid : ℕ → Uuid} {hp : HostParams} {feed : List FeedItem} {c : Config}

/-! ### Market data -/

/-- Prices and volumes are those of the last bars. -/
structure MarketData (e : BackTestEngine) : Prop where
  prices : ∀ symbol, e.state.currentBarPrices.lookup symbol =
    (lastBarOf symbol e.processed).map fun p => p.1.prices
  volumes : ∀ symbol, e.state.currentBarVolumes.lookup symbol =
    (lastBarOf symbol e.processed).map fun p => Rounding.truncZero p.1.volume

theorem MarketData.sameAccount {e e' : BackTestEngine} (h : MarketData e) (hs : SameAccount e e') :
    MarketData e' := by
  refine ⟨?_, ?_⟩ <;> rw [hs.state, hs.processed]
  · exact h.prices
  · exact h.volumes

theorem marketData (hr : Reachable createUuid hp feed c) : MarketData c.engine := by
  refine reachable_account (J := MarketData) ⟨fun _ => rfl, fun _ => rfl⟩ ?_ ?_ ?_ ?_ executionsMeet_true hr
  · exact fun e e' hs h => h.sameAccount hs
  · intro e item _ _ h
    generalize item.bar = bar
    refine ⟨fun symbol => ?_, fun symbol => ?_⟩
    · show (e.state.currentBarPrices.insert bar.symbol bar.prices).lookup symbol =
        (lastBarOf symbol (e.processed ++ [bar])).map _
      rw [Map.lookup_insert_eq, lastBarOf_append, h.prices]
      by_cases hs : symbol = bar.symbol
      · simp [hs]
      · simp [hs, Ne.symm hs]
    · show (e.state.currentBarVolumes.insert bar.symbol (Rounding.truncZero bar.volume)).lookup symbol =
        (lastBarOf symbol (e.processed ++ [bar])).map _
      rw [Map.lookup_insert_eq, lastBarOf_append, h.volumes]
      by_cases hs : symbol = bar.symbol
      · simp [hs]
      · simp [hs, Ne.symm hs]
  · intro e h
    obtain ⟨curve, peak, drawdown, hf⟩ := finishBar_frame e hp
    rw [hf]
    exact ⟨h.prices, h.volumes⟩
  · intro e o h _
    obtain ⟨h1, h2, h3⟩ := execute_marketData createUuid hp e o
    refine ⟨?_, ?_⟩ <;> rw [h1]
    · rw [h2]; exact h.prices
    · rw [h3]; exact h.volumes

theorem executionsMeet_marketData : ExecutionsMeet createUuid hp feed c fun e _ => MarketData e :=
  executionsMeet_of_account (fun _ _ hs h => h.sameAccount hs) fun _ hr => marketData hr

/-- The bars processed are bars of the feed. -/
theorem processed_of_feed (hr : Reachable createUuid hp feed c) :
    ∀ b ∈ c.engine.processed, ∃ item ∈ feed, item.bar = b := by
  refine reachable_account (J := fun e => ∀ b ∈ e.processed, ∃ item ∈ feed, item.bar = b) ?_ ?_ ?_ ?_ ?_
    executionsMeet_true hr
  · intro b hb
    cases hb
  · intro e e' hs h
    rw [hs.processed]
    exact h
  · intro e item hitem _ h b hb
    rcases List.mem_append.1 hb with hb | hb
    · exact h b hb
    · exact ⟨item, hitem, (List.mem_singleton.1 hb).symm⟩
  · intro e h
    obtain ⟨curve, peak, drawdown, hf⟩ := finishBar_frame e hp
    rw [hf]
    exact h
  · intro e o h _
    rw [(execute_marketData createUuid hp e o).1]
    exact h

/-- What the cap allows of the current bars is not negative if what it allows of the feed is not. -/
theorem volume_mul_nonneg {p : ℚ} (hvol : ∀ item ∈ feed, 0 ≤ item.bar.volume * p)
    (hr : Reachable createUuid hp feed c) (symbol : Symbol) : 0 ≤ c.engine.state.getSymbolVolume symbol * p := by
  rw [State.getSymbolVolume, (marketData hr).volumes]
  rcases hlast : lastBarOf symbol c.engine.processed with _ | ⟨b, k⟩
  · simp
  · obtain ⟨item, hitem, rfl⟩ := processed_of_feed hr b (lastBarOf_mem hlast)
    exact Rounding.truncZero_mul_nonneg (hvol item hitem)

/-- Nothing negative is filled in a run whose cap allows no negative quantity of any bar. -/
theorem executionsMeet_fillable_nonneg
    (hcap : hp.fractional = true → ∀ p ∈ hp.fillMaxPctOfVolume, ∀ item ∈ feed, 0 ≤ item.bar.volume * p) :
    ExecutionsMeet createUuid hp feed c fun e o =>
      Accepted o hp e.state (createUuid e.uuidCount) → 0 ≤ fillableQuantity o hp e.state := by
  intro c' hr' _ o e hn ha
  refine ha.fillableQuantity_nonneg fun hf p hp' => ?_
  rw [(nextExecution_sameAccount hn).state]
  exact volume_mul_nonneg (hcap hf p hp') hr' o.symbol

/-! ### Fills and the bars they come from -/

/-- `calculate_fill_price` at a given close. -/
def fillPriceAt (o : Order) (close : Money) : Money :=
  match o.limitPrice with
  | some limit => if o.isLimitOrder then (if o.isBuy then min limit close else max limit close) else close
  | none => close

theorem calculateFillPrice_eq (o : Order) (s : State) :
    calculateFillPrice o s = fillPriceAt o (s.getSymbolClose o.symbol) := rfl

/-- The price range of a bar reaches the limit of an order; an order without a limit needs no trigger. -/
def ReachesLimit (p : CurrentBarPrices) (o : Order) : Prop :=
  o.isLimitOrder = true → ∀ limit ∈ o.limitPrice, if o.isBuy then p.low ≤ limit else limit ≤ p.high

instance (p : CurrentBarPrices) (o : Order) : Decidable (ReachesLimit p o) :=
  inferInstanceAs (Decidable (_ → _))

/-- The order that a step executes was triggered by the last bar of its symbol. -/
theorem reachesLimit_of_nextExecution (hr : Reachable createUuid hp feed c) {o : Order} {e : BackTestEngine}
    (hn : nextExecution c = some (o, e)) : ReachesLimit (e.state.symbolPrices o.symbol) o := by
  have hfiled := filed hr
  rw [(nextExecution_sameAccount hn).state]
  intro hlim limit hlimit
  cases nextExecution_cases hn with
  | orderBook bar x _ htop _ ho _ =>
    -- no limit order is filed in the order book
    rw [ho, hfiled.orderBook x (BinaryHeap.top_mem htop)] at hlim
    cases hlim
  | limit side symbol symbols x _ _ htop hreach ho _ =>
    obtain ⟨hsym, hl, hbuy⟩ := hfiled.limits side symbol x (BinaryHeap.top_mem htop)
    rw [ho] at hlimit ⊢
    rw [hl, Option.mem_some_iff] at hlimit
    rw [hbuy, hsym, ← hlimit]
    cases side with
    | buy =>
      have : ¬ c.engine.state.getSymbolLow symbol > x.limitPrice := by simpa [limitOutOfReach] using hreach
      simpa [State.getSymbolLow] using this
    | sell =>
      have : ¬ c.engine.state.getSymbolHigh symbol < x.limitPrice := by simpa [limitOutOfReach] using hreach
      simpa [State.getSymbolHigh] using this
  | exit kind l x _ _ _ _ _ ho _ =>
    rw [ho] at hlimit
    cases hlimit

/-- An execution of an order the plugin issued at bar `i` is triggered and priced by the last bar of its symbol at
that time, and that bar came after bar `i`. -/
def NoLookAhead (processed : List AggregateBarResult) (x : Execution) : Prop :=
  ∀ i ∈ x.order.issuedAt, ∃ b k, lastBarOf x.order.symbol (processed.take x.bar) = some (b, k) ∧ i ≤ k ∧
    x.result.fill.price = fillPriceAt x.order b.prices.close ∧ ReachesLimit b.prices x.order

/-- A bar of the order's symbol has been processed since the plugin issued the order. -/
def SeesNewBar (e : BackTestEngine) (o : Order) : Prop :=
  ∀ i ∈ o.issuedAt, ∃ b ∈ e.processed.drop i, b.symbol = o.symbol

instance (e : BackTestEngine) (o : Order) : Decidable (SeesNewBar e o) :=
  inferInstanceAs (Decidable (∀ i ∈ o.issuedAt, ∃ b ∈ e.processed.drop i, b.symbol = o.symbol))

/-- An execution is priced by the last bar of its symbol. -/
theorem priced_by_lastBar {e : BackTestEngine} {o : Order} (hm : MarketData e)
    (hreach : ReachesLimit (e.state.symbolPrices o.symbol) o) {b : AggregateBarResult} {k : ℕ}
    (hlast : lastBarOf o.symbol e.processed = some (b, k)) (uuid : Uuid) :
    (success o hp e.state uuid).fill.price = fillPriceAt o b.prices.close ∧ ReachesLimit b.prices o := by
  have hprices : e.state.symbolPrices o.symbol = b.prices := by
    rw [State.symbolPrices, hm.prices, hlast]
    rfl
  refine ⟨?_, ?_⟩
  · show calculateFillPrice o e.state = _
    rw [calculateFillPrice_eq, State.getSymbolClose, hprices]
  · rw [← hprices]
    exact hreach

/-- Every execution of a run finds the market data in order and its order triggered. -/
theorem executionsMeet_triggered (c : Config) :
    ExecutionsMeet createUuid hp feed c fun e o =>
      MarketData e ∧ ReachesLimit (e.state.symbolPrices o.symbol) o := by
  intro c' hr' _ o e hn
  exact ⟨(marketData hr').sameAccount (nextExecution_sameAccount hn), reachesLimit_of_nextExecution hr' hn⟩

/-- An order executed after a new bar of its symbol does not look ahead. -/
private theorem noLookAhead_execution {e : BackTestEngine} {o : Order} (hm : MarketData e)
    (hreach : ReachesLimit (e.state.symbolPrices o.symbol) o) (hnew : SeesNewBar e o) (uuid : Uuid) :
    NoLookAhead e.processed ⟨o, success o hp e.state uuid, e.processed.length⟩ := by
  intro i hi
  obtain ⟨b, k, hlast, hk⟩ := lastBarOf_of_mem_drop (hnew i hi)
  refine ⟨b, k, ?_, hk, priced_by_lastBar hm hreach hlast uuid⟩
  rw [List.take_length]
  exact hlast

/-- In every run in which orders are executed only after a new bar of their symbol, no fill looks ahead. -/
theorem noLookAhead_of_seesNewBar
    (hG : ExecutionsMeet createUuid hp feed c fun e o =>
      Accepted o hp e.state (createUuid e.uuidCount) → SeesNewBar e o)
    (hr : Reachable createUuid hp feed c) : ∀ x ∈ c.engine.executions, NoLookAhead c.engine.processed x := by
  intro x hx
  obtain ⟨-, hlook⟩ := reachable_executions (P := NoLookAhead)
    (fun e o hmeet ha => noLookAhead_execution hmeet.2.1 hmeet.2.2 (hmeet.1 ha) _)
    (hG.and (executionsMeet_triggered c)) hr x hx
  intro i hi
  have := hlook i hi
  rwa [List.take_take, min_self] at this

/-- Of two symbols in turn, each order is for the symbol of the next bar. -/
theorem noLookAhead_of_seesNewBar_two_symbols :
    let c := sampleRun sampleParams
      [⟨sampleBar "A" 100 1000 1, { instructions := [.order (sampleOrder "B" "buy" 10)] }⟩,
        ⟨sampleBar "B" 50 1000 2, { instructions := [.order (sampleOrder "A" "buy" 5)] }⟩,
        ⟨sampleBar "A" 110 1000 3, { instructions := [.order (sampleOrder "B" "sell" 10)] }⟩,
        ⟨sampleBar "B" 60 1000 4, {}⟩] 60
    c.engine.executions.map (fun x => x.order.symbol) = ["B", "A", "B"] ∧
      ∀ x ∈ c.engine.executions, NoLookAhead c.engine.processed x := by
  refine ⟨by decide +kernel, ?_⟩
  refine noLookAhead_of_seesNewBar ?_ (reachable_sampleRun _ _ _)
  refine (executionsMeet_sampleRun (G := SeesNewBar)
    (le_refl 60) (Option.isNone_iff_eq_none.1 (by decide +kernel)) (by decide +kernel)).mono ?_
  exact fun _ _ _ _ _ h _ => h

/-- An order for `A`, issued on a bar of `B`, is filled on the next bar of `B` at a price `A` had before. -/
theorem looks_ahead_across_symbols :
    ¬ ∀ (createUuid : ℕ → Uuid) (hp : HostParams) (feed : List FeedItem) (c : Config),
      Function.Injective createUuid → (feed.map fun item => item.bar.unixTsNs).Pairwise (· ≤ ·) →
      Reachable createUuid hp feed c → ∀ x ∈ c.engine.executions, NoLookAhead c.engine.processed x := by
  intro h
  have hlook := h sampleUuid sampleParams
    [⟨sampleBar "A" 100 1000 1, {}⟩,
      ⟨sampleBar "B" 50 1000 2, { instructions := [.order (sampleOrder "A" "buy" 10)] }⟩,
      ⟨sampleBar "B" 50 1000 3, {}⟩] (sampleRun _ _ 40)
    sampleUuid_injective (by decide +kernel) (reachable_sampleRun _ _ _)
  generalize hc : sampleRun sampleParams _ 40 = c at hlook
  have hne : c.engine.executions.length = 1 := by rw [← hc]; decide +kernel
  have hissued : ∀ x ∈ c.engine.executions, x.order.issuedAt = some 2 := by rw [← hc]; decide +kernel
  have hold : ∀ x ∈ c.engine.executions, ∀ p ∈ lastBarOf x.order.symbol (c.engine.processed.take x.bar), p.2 < 2 := by
    rw [← hc]; decide +kernel
  obtain ⟨x, hx⟩ := List.exists_mem_of_length_pos (l := c.engine.executions) (by omega)
  obtain ⟨b, k, hlast, hk, -⟩ := hlook x hx 2 (hissued x hx)
  have := hold x hx (b, k) hlast
  omega

end BackTestEngine

end QuantForge
