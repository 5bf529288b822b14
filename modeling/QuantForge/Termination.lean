import QuantForge.Runs
import QuantForge.Stalled

/-!
# The loops of a bar end

Every iteration of `execute_order_book`, `process_buy_limits` and `process_sell_limits` takes an order out of a book
and may put its remainder back.  A remainder is smaller than its order by the share of the volume that may be filled,
so the number of executions an order can still have is a bound that goes down (`bookWeight_execute_lt`).  It stays
where it is when that share is zero and fractional shares are allowed: an order is then filled with zero shares and
put back whole, and a loop that can reach it does not end (`Stalled.not_halts`).  That is the only case:
`loopsEnd_iff`.
-/

namespace QuantForge

namespace BackTestEngine

open Executor

variable {createUuid : ℕ → Uuid} {hp : HostParams}

/-! ### Weights of the books -/

/-- The weight of all orders in the order book and the limit books. -/
def bookWeight (w : Order → ℕ) (e : BackTestEngine) : ℕ :=
  (e.orderBook.toList.map fun x => w x.order).sum +
    ((e.limitOrderBook.limits .buy).sumBy (fun _ h => (h.toList.map fun x => w x.order).sum) +
      (e.limitOrderBook.limits .sell).sumBy fun _ h => (h.toList.map fun x => w x.order).sum)

variable {w : Order → ℕ}

theorem bookWeight_congr {e e' : BackTestEngine} (ho : e'.orderBook = e.orderBook)
    (hl : e'.limitOrderBook = e.limitOrderBook) : bookWeight w e' = bookWeight w e := by
  unfold bookWeight
  rw [ho, hl]

/-- Replacing one limit heap changes the weight by the difference of the heaps. -/
private theorem bookWeight_setHeap (e : BackTestEngine) (side : Side) (symbol : Symbol)
    (h : BinaryHeap (LimitOrder.before side)) :
    bookWeight w { e with limitOrderBook := e.limitOrderBook.setHeap side symbol h } +
        ((e.limitOrderBook.heap side symbol).toList.map fun x => w x.order).sum =
      bookWeight w e + (h.toList.map fun x => w x.order).sum := by
  have key : ∀ (side : Side) (m : Map Symbol (BinaryHeap (LimitOrder.before side)))
      (h : BinaryHeap (LimitOrder.before side)),
      Map.sumBy (fun _ h => (h.toList.map fun x => w x.order).sum) (m.insert symbol h) +
          ((((m.lookup symbol).getD .empty).toList.map fun x => w x.order)).sum =
        m.sumBy (fun _ h => (h.toList.map fun x => w x.order).sum) + (h.toList.map fun x => w x.order).sum := by
    intro side m h
    rw [Map.sumBy_insert]
    rcases hm : m.lookup symbol with _ | h'
    · rw [Map.sumBy_erase_of_notMem _ hm]
      simp [add_comm]
    · rw [Map.sumBy_of_lookup (m := m) _ hm]
      simp only [Option.getD_some]
      ring
  unfold bookWeight
  cases side with
  | buy =>
    have := key .buy e.limitOrderBook.buyLimits h
    simp only [LimitOrderBook.setHeap, LimitOrderBook.setLimits, LimitOrderBook.limits, LimitOrderBook.heap] at this ⊢
    omega
  | sell =>
    have := key .sell e.limitOrderBook.sellLimits h
    simp only [LimitOrderBook.setHeap, LimitOrderBook.setLimits, LimitOrderBook.limits, LimitOrderBook.heap] at this ⊢
    omega

private theorem sum_push {α : Type} {before : α → α → Bool} (f : α → ℕ) (h : BinaryHeap before) (x : α) :
    ((h.push x).toList.map f).sum = f x + (h.toList.map f).sum := by
  rw [((BinaryHeap.toList_push h x).map f).sum_eq, List.map_cons, List.sum_cons]

private theorem sum_pop {α : Type} {before : α → α → Bool} (f : α → ℕ) {h : BinaryHeap before} {x : α}
    (ht : h.top = some x) : (h.toList.map f).sum = f x + (h.pop.toList.map f).sum := by
  rw [((BinaryHeap.toList_pop ht).map f).sum_eq, List.map_cons, List.sum_cons]

theorem bookWeight_popOrder {e : BackTestEngine} {x : ScheduledOrder} (ht : e.orderBook.top = some x) :
    bookWeight w e = w x.order + bookWeight w { e with orderBook := e.orderBook.pop } := by
  unfold bookWeight
  rw [sum_pop _ ht]
  ring

theorem bookWeight_popLimit {e : BackTestEngine} {side : Side} {symbol : Symbol} {x : LimitOrder}
    (ht : (e.limitOrderBook.heap side symbol).top = some x) :
    bookWeight w e = w x.order + bookWeight w { e with
      limitOrderBook := e.limitOrderBook.setHeap side symbol (e.limitOrderBook.heap side symbol).pop } := by
  have h := bookWeight_setHeap (w := w) e side symbol (e.limitOrderBook.heap side symbol).pop
  have hp := sum_pop (fun x : LimitOrder => w x.order) ht
  omega

theorem bookWeight_schedule (e : BackTestEngine) (o : Order) :
    bookWeight w (e.schedule o hp) = bookWeight w e + w o := by
  have market : bookWeight w { e with orderBook := e.orderBook.push (createScheduledOrder o hp e.state) } =
      bookWeight w e + w o := by
    unfold bookWeight
    rw [sum_push]
    show w o + _ + _ = _
    ring
  unfold schedule
  split
  · rename_i limit _
    split
    · have h := bookWeight_setHeap (w := w) e (if o.isBuy then .buy else .sell) o.symbol
        ((e.limitOrderBook.heap _ o.symbol).push ⟨o, limit⟩)
      rw [sum_push] at h
      show bookWeight w { e with limitOrderBook := e.limitOrderBook.setHeap _ o.symbol _ } = _
      dsimp only at h ⊢
      omega
    · exact market
  · exact market

variable (createUuid hp w) in
/-- After an execution the books hold what they held, and perhaps a remainder. -/
theorem bookWeight_execute (e : BackTestEngine) (o : Order) :
    bookWeight w (execute createUuid hp e o) = bookWeight w e ∨
      (Accepted o hp e.state (createUuid e.uuidCount) ∧ ∃ o', partialOrder o hp e.state = some o' ∧
        bookWeight w (execute createUuid hp e o) = bookWeight w e + w o') := by
  rcases execute_cases createUuid hp e o with he | ha
  · rw [he]
    exact Or.inl (bookWeight_congr rfl rfl)
  · have hbooks : bookWeight w (execute createUuid hp e o) =
        bookWeight w (e.scheduleRemainder (success o hp e.state (createUuid e.uuidCount)) hp) := by
      rw [execute_accepted ha]
      exact bookWeight_congr rfl rfl
    rw [hbooks]
    unfold scheduleRemainder
    rcases hpo : (success o hp e.state (createUuid e.uuidCount)).partialOrder with _ | o'
    · exact Or.inl rfl
    · exact Or.inr ⟨ha, o', hpo, bookWeight_schedule _ _⟩

/-! ### Executions go down -/

/-- How many executions an order can still have on bars with these volumes, and one more. -/
def weight (hp : HostParams) (volumes : Map Symbol ℤ) (o : Order) : ℕ :=
  match hp.fillMaxPctOfVolume with
  | none => 1
  | some p => ⌈o.quantity / ((volumes.lookup o.symbol).getD 0 * p)⌉₊ + 1

/-- A symbol with market data of whose volume nothing may be filled, where fractional shares are allowed: a fill of
zero shares is then accepted. -/
def Stalls (hp : HostParams) (prices : Map Symbol CurrentBarPrices) (volumes : Map Symbol ℤ) : Prop :=
  hp.fractional = true ∧ ∃ p ∈ hp.fillMaxPctOfVolume, ∃ symbol v, (prices.lookup symbol).isSome ∧
    volumes.lookup symbol = some v ∧ v * p = 0

/-- What the manifest promises of the volume cap and the leverage. -/
structure Admissible (hp : HostParams) : Prop where
  cap : ∀ p ∈ hp.fillMaxPctOfVolume, 0 ≤ p ∧ p ≤ 1
  leverage : ∀ l ∈ hp.maxLeverage, 1 ≤ l

variable {prices : Map Symbol CurrentBarPrices} {volumes : Map Symbol ℤ}

/-- A remainder weighs less than its order. -/
theorem weight_remainder_lt {o o' : Order} {s : State} {uuid : Uuid} (hadm : Admissible hp)
    (hvol : ∀ symbol v, volumes.lookup symbol = some v → 0 ≤ v) (hgood : ¬ Stalls hp prices volumes)
    (hsp : s.currentBarPrices = prices) (hsv : s.currentBarVolumes = volumes) (ha : Accepted o hp s uuid)
    (hpo : partialOrder o hp s = some o') : weight hp volumes o' < weight hp volumes o := by
  obtain ⟨ho', hrem⟩ := partialOrder_eq hpo
  rcases hcap : hp.fillMaxPctOfVolume with _ | p
  · simp [remainingQuantity, getFillableAndRemainingQuantities, hcap] at hrem
  · obtain ⟨v, hv⟩ := Option.isSome_iff_exists.1 (show (volumes.lookup o.symbol).isSome = true from hsv ▸ ha.volume)
    have hgv : s.getSymbolVolume o.symbol = v := by rw [State.getSymbolVolume, hsv, hv]; rfl
    have hm0 : (0 : ℚ) ≤ v * p := mul_nonneg (by exact_mod_cast hvol _ v hv) (hadm.cap p hcap).1
    have hgt : o.quantity > v * p := by
      by_contra hle
      simp [remainingQuantity, getFillableAndRemainingQuantities, hcap, hgv, hle] at hrem
    have hq' : remainingQuantity o hp s = o.quantity - v * p := by
      simp [remainingQuantity, getFillableAndRemainingQuantities, hcap, hgv, hgt]
    -- a whole-share order that fills nothing is not accepted, a fractional one stalls
    have hpos : (0 : ℚ) < v * p := by
      rcases lt_or_eq_of_le hm0 with hlt | heq
      · exact hlt
      · exfalso
        by_cases hf : hp.fractional = true
        · exact hgood ⟨hf, p, hcap, o.symbol, v, hsp ▸ ha.prices, hv, heq.symm⟩
        · have hw := ha.whole (by simpa using hf)
          simp [fillableQuantity, getFillableAndRemainingQuantities, hcap, hgv, ← heq, hf, ha.quantity_pos] at hw
    have hdiv : (o.quantity - v * p) / (v * p) = o.quantity / (v * p) - 1 := by
      rw [sub_div, div_self hpos.ne']
    have hbig : 1 < o.quantity / (v * p) := (one_lt_div hpos).2 hgt
    unfold weight
    rw [hcap, ho', hq']
    simp only [hv, Option.getD_some, hdiv]
    have hceil : ⌈o.quantity / (v * p) - 1⌉₊ < ⌈o.quantity / (v * p)⌉₊ := by
      rw [Nat.lt_ceil]
      have hc := Nat.ceil_lt_add_one (R := ℚ) (a := o.quantity / (v * p) - 1) (by linarith)
      linarith
    omega

/-- An execution makes the books lighter by something of the order. -/
theorem bookWeight_execute_lt {e : BackTestEngine} {o : Order} (hadm : Admissible hp)
    (hvol : ∀ symbol v, volumes.lookup symbol = some v → 0 ≤ v) (hgood : ¬ Stalls hp prices volumes)
    (hsp : e.state.currentBarPrices = prices) (hsv : e.state.currentBarVolumes = volumes) :
    bookWeight (weight hp volumes) (execute createUuid hp e o) <
      weight hp volumes o + bookWeight (weight hp volumes) e := by
  have hpos : 0 < weight hp volumes o := by
    unfold weight
    split <;> omega
  rcases bookWeight_execute createUuid hp (weight hp volumes) e o with h | ⟨ha, o', hpo, h⟩
  · omega
  · have := weight_remainder_lt hadm hvol hgood hsp hsv ha hpo
    omega

/-! ### The loops end -/

/-- The three loops over the books, run on a bar. -/
structure LoopsEnd (createUuid : ℕ → Uuid) (hp : HostParams) (bar : AggregateBarResult)
    (e : BackTestEngine) : Prop where
  orderBook : Loop.Halts (executeOrderBook createUuid hp bar) e
  buyLimits : Loop.Halts (processBuyLimits createUuid hp) ((e.limitOrderBook.limits .buy).sortedKeys, e)
  sellLimits : Loop.Halts (processSellLimits createUuid hp) ((e.limitOrderBook.limits .sell).sortedKeys, e)

section Halts

variable {P : State → Prop} (hkeep : ∀ e o, P e.state → P (execute createUuid hp e o).state)
  (hlt : ∀ e o, P e.state → bookWeight w (execute createUuid hp e o) < w o + bookWeight w e)

include hkeep hlt

/-- The loop over the order book ends if an execution makes the books lighter by something of the order. -/
theorem halts_executeOrderBook (bar : AggregateBarResult) {e : BackTestEngine} (he : P e.state) :
    Loop.Halts (executeOrderBook createUuid hp bar) e := by
  refine Loop.halts_of_measure (Nat.lt_wfRel.wf) (bookWeight w) (P := fun e => P e.state) ?_ he
  intro e e' he h
  obtain ⟨x, htop, -, rfl⟩ := executeOrderBook_cases h
  refine ⟨hkeep { e with orderBook := e.orderBook.pop } x.order he, ?_⟩
  show bookWeight w _ < bookWeight w e
  rw [bookWeight_popOrder htop]
  exact hlt { e with orderBook := e.orderBook.pop } x.order he

/-- So do the loops over the limit books. -/
theorem halts_processLimits (side : Side) (symbols : List Symbol) {e : BackTestEngine} (he : P e.state) :
    Loop.Halts (processLimits createUuid hp side) (symbols, e) := by
  -- firing an order makes the books lighter, leaving a symbol the list shorter
  refine Loop.halts_of_measure (WellFounded.prod_lex Nat.lt_wfRel.wf Nat.lt_wfRel.wf)
    (fun p : List Symbol × BackTestEngine => (bookWeight w p.2, p.1.length)) (P := fun p => P p.2.state) ?_ he
  rintro ⟨symbols, e⟩ ⟨symbols', e'⟩ he h
  rcases processLimits_cases h with ⟨o, e₀, hn, rfl, rfl⟩ | ⟨-, ⟨s, rfl⟩, rfl⟩
  · obtain ⟨symbol, rest, x, rfl, htop, rfl, rfl⟩ := nextLimit_cases hn
    refine ⟨hkeep _ x.order he, Prod.Lex.left _ _ ?_⟩
    show bookWeight w _ < bookWeight w e
    rw [bookWeight_popLimit htop]
    exact hlt _ x.order he
  · refine ⟨he, Prod.Lex.right _ ?_⟩
    show symbols'.length < (s :: symbols').length
    exact Nat.lt_succ_self _

end Halts

/-- Without a symbol that stalls the loops end. -/
theorem loopsEnd_of_not_stalls (hadm : Admissible hp) (hvol : ∀ symbol v, volumes.lookup symbol = some v → 0 ≤ v)
    (hgood : ¬ Stalls hp prices volumes) {e : BackTestEngine} (hsp : e.state.currentBarPrices = prices)
    (hsv : e.state.currentBarVolumes = volumes) (bar : AggregateBarResult) : LoopsEnd createUuid hp bar e := by
  let P (s : State) : Prop := s.currentBarPrices = prices ∧ s.currentBarVolumes = volumes
  have hkeep : ∀ e o, P e.state → P (execute createUuid hp e o).state := by
    intro e o he
    obtain ⟨-, h1, h2⟩ := execute_marketData createUuid hp e o
    exact ⟨h1.trans he.1, h2.trans he.2⟩
  have hlt : ∀ e o, P e.state → bookWeight (weight hp volumes) (execute createUuid hp e o) <
      weight hp volumes o + bookWeight (weight hp volumes) e :=
    fun e o he => bookWeight_execute_lt hadm hvol hgood he.1 he.2
  exact ⟨halts_executeOrderBook hkeep hlt bar ⟨hsp, hsv⟩, halts_processLimits hkeep hlt .buy _ ⟨hsp, hsv⟩,
    halts_processLimits hkeep hlt .sell _ ⟨hsp, hsv⟩⟩

/-! ### Exactly when -/

/-- An order of one share that neither buys nor sells, filed with the sell limits at `limit`. -/
private def idleOrder (symbol : Symbol) (limit : Money) : Order where
  quantity := 1
  symbol := symbol
  action := "hold"
  orderType := Constants.limit
  limitPrice := some limit

/-- An engine with market data and one share, whose only order is an idle one at the high of the bar. -/
private def idleEngine (hp : HostParams) (prices : Map Symbol CurrentBarPrices) (volumes : Map Symbol ℤ)
    (symbol : Symbol) (limit : Money) : BackTestEngine where
  state := {
    cash := zeroFillCommission hp
    positions := (∅ : Map Symbol Position).insert symbol ⟨symbol, 1, 0⟩
    currentBarPrices := prices
    currentBarVolumes := volumes }
  limitOrderBook := ({} : LimitOrderBook).addLimitOrder .sell ⟨idleOrder symbol limit, limit⟩

private theorem stalled_idleEngine (hadm : Admissible hp) (hf : hp.fractional = true) {p : ℚ}
    (hcap : hp.fillMaxPctOfVolume = some p) {symbol : Symbol} {v : ℤ} {price : CurrentBarPrices}
    (hprice : prices.lookup symbol = some price) (hv : volumes.lookup symbol = some v) (hzero : v * p = 0) :
    Stalled hp (idleOrder symbol price.high) price.high (idleEngine hp prices volumes symbol price.high) where
  fractional := hf
  cap := ⟨p, hcap, by simp [idleEngine, idleOrder, State.getSymbolVolume, hv, hzero]⟩
  limitOrder := rfl
  limitPrice := rfl
  isBuy := by simp [Order.isBuy, idleOrder, Constants.buy]
  isExitOrder := rfl
  leverage := by
    refine ⟨le_refl _, ?_⟩
    rcases hl : hp.maxLeverage with _ | l
    · exact le_refl _
    · exact hadm.leverage l hl
  quantity := one_pos
  heap := by
    have hpush := BinaryHeap.toList_push (BinaryHeap.empty : BinaryHeap (LimitOrder.before .sell))
      ⟨idleOrder symbol price.high, price.high⟩
    rw [BinaryHeap.toList_empty, List.perm_singleton] at hpush
    simp only [idleEngine, LimitOrderBook.addLimitOrder, LimitOrderBook.setHeap, LimitOrderBook.setLimits,
      LimitOrderBook.heap, LimitOrderBook.limits, idleOrder, AList.lookup_insert, AList.lookup_empty,
        Option.getD_none,
      Option.getD_some] at hpush ⊢
    exact hpush
  prices := by simp [idleEngine, idleOrder, State.hasSymbolPrices, hprice]
  volume := by simp [idleEngine, idleOrder, State.hasSymbolVolume, hv]
  reached := by simp [idleEngine, idleOrder, State.getSymbolHigh, State.symbolPrices, hprice]
  named := by
    intro q hq
    simp only [idleEngine, idleOrder, AList.lookup_insert] at hq
    cases hq
    rfl
  position := by
    simp only [idleEngine, idleOrder, State.positionQuantity, AList.lookup_insert, Option.elim_some]
    exact Constants.epsilon_lt_one.le
  cash := le_refl _
  free := fun h => absurd h (by simp [Order.isSell, idleOrder, Constants.sell])

/-- On given prices and nonnegative volumes the loops end, whatever the account and the books hold, exactly when no
symbol stalls. -/
theorem loopsEnd_iff (hadm : Admissible hp) (hvol : ∀ symbol v, volumes.lookup symbol = some v → 0 ≤ v) :
    (∀ (e : BackTestEngine) (bar : AggregateBarResult), e.state.currentBarPrices = prices →
        e.state.currentBarVolumes = volumes → LoopsEnd createUuid hp bar e) ↔
      ¬ Stalls hp prices volumes := by
  constructor
  · rintro h ⟨hf, p, hcap, symbol, v, hprice, hv, hzero⟩
    obtain ⟨price, hprice⟩ := Option.isSome_iff_exists.1 hprice
    have hstalled := stalled_idleEngine hadm hf hcap hprice hv hzero
    refine hstalled.not_halts createUuid [] ?_
    have hend := (h (idleEngine hp prices volumes symbol price.high) (sampleBar symbol 0 0 0) rfl rfl).sellLimits
    have hkeys : ((idleEngine hp prices volumes symbol price.high).limitOrderBook.limits .sell).sortedKeys =
        [symbol] := by
      simp [idleEngine, idleOrder, LimitOrderBook.addLimitOrder, LimitOrderBook.setHeap, LimitOrderBook.setLimits,
        LimitOrderBook.limits, Map.sortedKeys]
    rwa [hkeys] at hend
  · rintro hgood e bar rfl rfl
    exact loopsEnd_of_not_stalls hadm hvol hgood rfl rfl bar

/-- A tenth of the volume and fractional shares. -/
def fractionalParams : HostParams := { cappedParams with allowFractionalShares := some true }

/-- Ten shares are bought, a limit order sells five of them, and a bar without volume follows. -/
def noVolumeFeed : List FeedItem :=
  [⟨sampleBar "A" 100 1000 1, { instructions := [.order (sampleOrder "A" "buy" 10)] }⟩,
    ⟨sampleBar "A" 100 1000 2, { instructions := [.order { sampleOrder "A" "sell" 5 with
      orderType := "limit", limitPrice := 100000000 }] }⟩,
    ⟨sampleBar "A" 100 0 3, {}⟩]

/-- On the bar before, with volume, the loops end. -/
theorem loopsEnd_iff_volume :
    (sampleRun fractionalParams noVolumeFeed 8).engine.orderBook.toList.length = 1 ∧
      LoopsEnd sampleUuid fractionalParams (sampleBar "A" 100 1000 2)
        (sampleRun fractionalParams noVolumeFeed 8).engine := by
  have hlength : (sampleRun fractionalParams noVolumeFeed 8).engine.orderBook.toList.length = 1 := by decide +kernel
  have hentries : (sampleRun fractionalParams noVolumeFeed 8).engine.state.currentBarVolumes.entries =
      [⟨"A", 1000⟩] := by decide +kernel
  generalize (sampleRun fractionalParams noVolumeFeed 8).engine = e at hlength hentries
  have hvol : ∀ symbol v, e.state.currentBarVolumes.lookup symbol = some v → v = 1000 := by
    intro symbol v hv
    have hmem := AList.mem_lookup_iff.1 hv
    rw [hentries, List.mem_singleton] at hmem
    cases hmem
    rfl
  refine ⟨hlength, (loopsEnd_iff ⟨?_, ?_⟩ ?_).2 ?_ e (sampleBar "A" 100 1000 2) rfl rfl⟩
  · rintro p ⟨rfl⟩
    norm_num
  · rintro l ⟨⟩
  · intro symbol v hv
    rw [hvol symbol v hv]
    norm_num
  · rintro ⟨-, p, ⟨rfl⟩, symbol, v, -, hv, hzero⟩
    rw [hvol symbol v hv] at hzero
    norm_num at hzero

/-- The limit order of the feed, as the engine files it. -/
private def sellLimit : Order where
  quantity := 5
  symbol := "A"
  action := "sell"
  orderType := "limit"
  limitPrice := some 100000000
  leverage := some 1
  issuedAt := some 2

private theorem stalled_noVolumeFeed :
    Stalled fractionalParams sellLimit 100000000 (sampleRun fractionalParams noVolumeFeed 18).engine where
  fractional := rfl
  cap := ⟨1 / 10, rfl, by decide +kernel⟩
  limitOrder := by decide +kernel
  limitPrice := rfl
  isBuy := by decide +kernel
  isExitOrder := rfl
  leverage := by decide +kernel
  quantity := by decide +kernel
  heap := by decide +kernel
  prices := by decide +kernel
  volume := by decide +kernel
  reached := by decide +kernel
  named := by decide +kernel
  position := by decide +kernel
  cash := by decide +kernel
  free := by decide +kernel

/-- On the bar without volume the limit order is filled with zero shares again and again. -/
theorem loops_do_not_end_without_volume :
    ¬ ∀ (createUuid : ℕ → Uuid) (hp : HostParams) (feed : List FeedItem) (c : Config) (bar : AggregateBarResult),
      Function.Injective createUuid → Admissible hp → (∀ item ∈ feed, 0 ≤ item.bar.volume) →
      Reachable createUuid hp feed c → LoopsEnd createUuid hp bar c.engine := by
  intro h
  have hend := h sampleUuid fractionalParams noVolumeFeed (sampleRun fractionalParams noVolumeFeed 18)
    (sampleBar "A" 100 0 3) sampleUuid_injective ⟨by rintro p ⟨rfl⟩; norm_num, by rintro l ⟨⟩⟩ (by decide +kernel)
    (reachable_sampleRun _ _ _)
  have hkeys : ((sampleRun fractionalParams noVolumeFeed 18).engine.limitOrderBook.limits .sell).sortedKeys =
      ["A"] := by decide +kernel
  have hstalled := stalled_noVolumeFeed
  generalize sampleRun fractionalParams noVolumeFeed 18 = c at hend hkeys hstalled
  have hsell := hend.sellLimits
  rw [hkeys] at hsell
  exact hstalled.not_halts sampleUuid [] hsell

end BackTestEngine

end QuantForge
