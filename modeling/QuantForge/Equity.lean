import QuantForge.Cash

/-!
# Equity at the mark

An execution at the current close should change the equity by its commission only.  The profit of a close is realized
lot by lot, first in, first out, while the profit still open is computed from one average price that reductions leave
alone.  So opening and adding keep the equity up to the rounding of the average price, and a reduction moves it by the
difference between the average cost and the FIFO cost of the shares closed (`equity_kept_iff`).
-/

namespace QuantForge

namespace Side

variable {d : Side} {Q q : ℚ}

theorem eq_sign_mul_abs (hQ : 0 ≤ d.sign * Q) : Q = d.sign * |Q| := by
  cases d <;> simp only [Side.sign, one_mul, neg_mul, Left.nonneg_neg_iff] at hQ ⊢
  · rw [abs_of_nonneg hQ]
  · rw [abs_of_nonpos hQ, neg_neg]

/-- Adding to a position. -/
theorem abs_add_sign_mul (hQ : 0 ≤ d.sign * Q) (hq : 0 ≤ q) : |Q + d.sign * q| = |Q| + q := by
  cases d <;> simp only [Side.sign, one_mul, neg_mul, Left.nonneg_neg_iff] at hQ ⊢
  · rw [abs_of_nonneg hQ, abs_of_nonneg (add_nonneg hQ hq)]
  · rw [abs_of_nonpos hQ, abs_of_nonpos (by linarith)]
    ring

/-- A reduction holds no more shares after than before. -/
theorem abs_add_sign_mul_le (hQ : d.sign * Q < 0) (hq : 0 ≤ q) (hle : q ≤ |Q|) : |Q + d.sign * q| ≤ |Q| := by
  cases d <;> simp only [Side.sign, one_mul, neg_mul, Left.neg_neg_iff] at hQ ⊢
  · rw [abs_of_neg hQ] at hle ⊢
    rw [abs_of_nonpos (by linarith)]
    linarith
  · rw [abs_of_pos hQ] at hle ⊢
    rw [abs_of_nonneg (by linarith)]
    linarith

end Side

namespace State

/-- The average price of the position in a symbol, zero when there is none. -/
def averagePrice (s : State) (symbol : Symbol) : Money := (s.positions.lookup symbol).elim 0 (·.averagePrice)

/-- What the shares closed did cost, first in, first out; shares without a lot count at `price`. -/
def closedCost (s : State) (d : Side) (symbol : Symbol) (x : ℚ) (price : Money) : ℚ :=
  ((s.taken d symbol x).map fun t => (t.1.price : ℚ) * t.2.2).sum +
    price * (x - ((s.taken d symbol x).map fun t => t.2.2).sum)

theorem getSymbolPositionOr_averagePrice (s : State) (symbol : Symbol) :
    (s.getSymbolPositionOr symbol ⟨symbol, 0, 0⟩).averagePrice = s.averagePrice symbol := by
  unfold getSymbolPositionOr averagePrice
  cases s.positions.lookup symbol <;> rfl

/-- The open profit after an execution: only the symbol traded has another one. -/
theorem sumBy_positionPnl_updateState {s : State} {r : ExecutionResultSuccess}
    (hprices : s.hasSymbolPrices r.position.symbol = true) :
    (s.updateState r).positions.sumBy (s.updateState r).positionPnl =
      s.positions.sumBy s.positionPnl +
        Money.mul (s.getSymbolClose r.position.symbol - r.position.averagePrice) r.position.quantity -
        Money.mul (s.getSymbolClose r.position.symbol - s.averagePrice r.position.symbol)
          (s.positionQuantity r.position.symbol) := by
  have hb := updateState_booking (s := s) (r := r) rfl
  have hpnl : (s.updateState r).positionPnl = s.positionPnl := by
    funext symbol p
    unfold positionPnl hasSymbolPrices getSymbolClose symbolPrices
    rw [hb.currentBarPrices]
  have hold : s.positions.sumBy s.positionPnl =
      Money.mul (s.getSymbolClose r.position.symbol - s.averagePrice r.position.symbol)
          (s.positionQuantity r.position.symbol) +
        Map.sumBy s.positionPnl (s.positions.erase r.position.symbol) := by
    rcases hp : s.positions.lookup r.position.symbol with _ | p
    · rw [Map.sumBy_erase_of_notMem _ hp]
      simp [positionQuantity, hp]
    · rw [Map.sumBy_of_lookup _ hp]
      simp [positionPnl, hprices, positionQuantity, averagePrice, hp]
  have hnew : (s.updateState r).positions.sumBy s.positionPnl =
      Money.mul (s.getSymbolClose r.position.symbol - r.position.averagePrice) r.position.quantity +
        Map.sumBy s.positionPnl (s.positions.erase r.position.symbol) := by
    rw [hb.positions]
    by_cases hq : r.position.quantity = 0
    · rw [if_pos hq, hq, Money.mul_zero, zero_add]
    · rw [if_neg hq, Map.sumBy_insert]
      simp [positionPnl, hprices]
  rw [hpnl, hnew, hold]
  ring

end State

namespace PositionCalc

variable {o : Order} {s : State} {d : Side}

/-- The average price when the order opens a position or adds to it. -/
theorem calculatePosition_averagePrice_opens (hd : o.isOn d = true) {q : ℚ} (hq : 0 ≤ q) (price : Money)
    (hQ : 0 ≤ d.sign * s.positionQuantity o.symbol)
    (hne : ¬ |s.positionQuantity o.symbol + d.sign * q| < Constants.epsilon) :
    (calculatePosition o q price s).averagePrice =
      blendedPrice (s.averagePrice o.symbol) |s.positionQuantity o.symbol| price q
        |s.positionQuantity o.symbol + d.sign * q| := by
  have hQ' := s.getSymbolPositionOr_quantity o.symbol
  have hA := s.getSymbolPositionOr_averagePrice o.symbol
  obtain ⟨hb, hs⟩ := Executor.isBuy_isSell_of_isOn hd
  unfold calculatePosition
  cases d
  · simp only [Side.sign, one_mul] at hQ hne
    rw [abs_of_nonneg (add_nonneg hQ hq)] at hne
    simp only [hb, hs, hQ', hA, Side.sign, decide_true, if_true, not_lt.2 hQ, false_and, if_false, ge_iff_le, hQ, hne,
      one_mul, abs_of_nonneg hQ, abs_of_nonneg (add_nonneg hQ hq)]
  · simp only [Side.sign, neg_mul, one_mul, Left.nonneg_neg_iff, ← sub_eq_add_neg] at hQ hne
    simp only [hb, hs, hQ', hA, Side.sign, reduceCtorEq, decide_false, decide_true, Bool.false_eq_true, if_true,
      if_false, not_lt.2 hQ, false_and, hQ, hne, neg_mul, one_mul, ← sub_eq_add_neg]

/-- The average price when the order reduces a position. -/
theorem calculatePosition_averagePrice_reduces (hd : o.isOn d = true) {q : ℚ} (price : Money)
    (hQ : d.sign * s.positionQuantity o.symbol < 0) (hle : q ≤ |s.positionQuantity o.symbol|)
    (hne : ¬ |s.positionQuantity o.symbol + d.sign * q| < Constants.epsilon) :
    (calculatePosition o q price s).averagePrice = s.averagePrice o.symbol := by
  have hQ' := s.getSymbolPositionOr_quantity o.symbol
  have hA := s.getSymbolPositionOr_averagePrice o.symbol
  obtain ⟨hb, hs⟩ := Executor.isBuy_isSell_of_isOn hd
  unfold calculatePosition
  cases d
  · simp only [Side.sign, one_mul] at hQ hne
    rw [abs_of_neg hQ] at hle
    have h1 : ¬ s.positionQuantity o.symbol + q > 0 := by linarith
    simp only [hb, hs, hQ', hA, decide_true, if_true, h1, and_false, if_false, ge_iff_le, not_le.2 hQ, hne]
  · simp only [Side.sign, neg_mul, one_mul, Left.neg_neg_iff, ← sub_eq_add_neg] at hQ hne
    rw [abs_of_pos hQ] at hle
    have h1 : ¬ s.positionQuantity o.symbol - q < 0 := by linarith
    simp only [hb, hs, hQ', hA, reduceCtorEq, decide_false, decide_true, Bool.false_eq_true, if_true, if_false, h1,
      and_false, not_le.2 hQ, hne]

/-- The average price times the shares held is what they cost, up to half a microdollar a share. -/
theorem abs_blendedPrice_sub_le (average price : Money) {held q : ℚ} (hheld : IsWhole held) (hq : IsWhole q)
    (hpos : 0 < held + q) :
    |(blendedPrice average held price q (held + q) : ℚ) * (held + q) - (average * held + price * q)| ≤
      (held + q) / 2 := by
  have hround := Rounding.abs_roundAway_sub_le
    (((Money.mul average held + Money.mul price q : ℤ) : ℚ) / (held + q))
  have hval : ((Money.mul average held + Money.mul price q : ℤ) : ℚ) = average * held + price * q := by
    push_cast
    rw [Money.cast_mul_of_isWhole _ hheld, Money.cast_mul_of_isWhole _ hq]
  have hmul : (blendedPrice average held price q (held + q) : ℚ) * (held + q) - (average * held + price * q) =
      ((blendedPrice average held price q (held + q) : ℚ) -
        ((Money.mul average held + Money.mul price q : ℤ) : ℚ) / (held + q)) * (held + q) := by
    rw [sub_mul, div_mul_cancel₀ _ hpos.ne', hval]
  rw [hmul, abs_mul, abs_of_pos hpos]
  calc _ ≤ 1 / 2 * (held + q) := mul_le_mul_of_nonneg_right hround hpos.le
    _ = (held + q) / 2 := by ring

end PositionCalc

namespace BackTestEngine

open Executor

variable {createUuid : ℕ → Uuid} {hp : HostParams} {feed : List FeedItem} {c : Config}
  {e : BackTestEngine} {o : Order} {d : Side}

theorem calculateFillPrice_of_isMarketOrder {s : State} (h : o.isMarketOrder = true) :
    calculateFillPrice o s = s.getSymbolClose o.symbol := by
  have hlimit : o.isLimitOrder = false := by
    rcases (Bool.or_eq_true_iff).1 h with hm | hm
    · have ht : o.orderType = Constants.market := decide_eq_true_iff.1 hm
      have hne : ¬ o.orderType = Constants.limit := by rw [ht]; decide
      simp [Order.isLimitOrder, hne]
    · simp only [Bool.not_eq_true', Option.isSome_eq_false_iff] at hm
      simp [Order.isLimitOrder, hm]
  unfold calculateFillPrice
  rw [hlimit]
  split <;> rfl

section Update

variable (hw : hp.fractional = false) (hreg : Registered createUuid e)
  (hwhole : WholeShares e.state) (ha : Accepted o hp e.state (createUuid e.uuidCount)) (hd : o.isOn d = true)
  (hmarket : o.isMarketOrder = true)
  (hcross : ¬ CrossesZero e.state d o.symbol (fillableQuantity o hp e.state))

include hw hreg hwhole ha hd hmarket hcross

/-- The equity after an execution at the close that does not cross zero. -/
private theorem equity_update :
    (execute createUuid hp e o).state.calculateEquity =
      e.state.calculateEquity - commission o hp e.state (createUuid e.uuidCount) +
        State.realizedPnl d.opposite (e.state.getSymbolClose o.symbol)
          (e.state.taken d.opposite o.symbol (e.state.closing d o.symbol (fillableQuantity o hp e.state))) +
        Money.mul (e.state.getSymbolClose o.symbol -
            (success o hp e.state (createUuid e.uuidCount)).position.averagePrice)
          (e.state.positionQuantity o.symbol + d.sign * fillableQuantity o hp e.state) -
        Money.mul (e.state.getSymbolClose o.symbol - e.state.averagePrice o.symbol)
          (e.state.positionQuantity o.symbol) := by
  have hsum := cash_add_margin hw hreg (hwhole.quantity o.symbol) hd fun h => absurd h hcross
  obtain ⟨hsym, hpos⟩ := success_whole hw hreg hd (hwhole.quantity o.symbol)
  have hprices : e.state.hasSymbolPrices (success o hp e.state (createUuid e.uuidCount)).position.symbol = true := by
    rw [hsym]
    exact ha.prices
  have hpnl := State.sumBy_positionPnl_updateState hprices
  rw [hsym, hpos] at hpnl
  rw [execute_accepted ha]
  show (e.state.updateState (success o hp e.state (createUuid e.uuidCount))).calculateEquity = _
  unfold State.calculateEquity
  rw [hsum, hpnl, calculateFillPrice_of_isMarketOrder hmarket]
  ring

/-- Opening and adding: the average price is rounded, the rest is exact. -/
private theorem equity_opens (hQ : 0 ≤ d.sign * e.state.positionQuantity o.symbol) :
    |((execute createUuid hp e o).state.calculateEquity : ℚ) -
        (e.state.calculateEquity - commission o hp e.state (createUuid e.uuidCount))| ≤
      |e.state.positionQuantity o.symbol + d.sign * fillableQuantity o hp e.state| / 2 := by
  have hupd := equity_update hw hreg hwhole ha hd hmarket hcross
  have hq := fillableQuantity_whole (o := o) (s := e.state) hw
  have hq1 := one_le_fillableQuantity hw ha
  have hQw := hwhole.quantity o.symbol
  have hc : e.state.closing d o.symbol (fillableQuantity o hp e.state) = 0 := if_neg (not_lt.2 hQ)
  -- the quantity after the execution, without its sign
  have habs := Side.abs_add_sign_mul hQ (zero_le_one.trans hq1)
  have hpos : 0 < |e.state.positionQuantity o.symbol| + fillableQuantity o hp e.state := by
    have := abs_nonneg (e.state.positionQuantity o.symbol)
    linarith
  -- the new average price, not cut off: at least one share is held
  have havg : (success o hp e.state (createUuid e.uuidCount)).position.averagePrice = _ :=
    PositionCalc.calculatePosition_averagePrice_opens hd (by linarith) (calculateFillPrice o e.state) hQ
      (by
        rw [habs, not_lt]
        have := abs_nonneg (e.state.positionQuantity o.symbol)
        linarith [Constants.epsilon_lt_one])
  rw [hc, State.taken, Fifo.takes_of_le Constants.epsilon_pos.le] at hupd
  rw [habs, calculateFillPrice_of_isMarketOrder hmarket] at havg
  have hround := PositionCalc.abs_blendedPrice_sub_le (e.state.averagePrice o.symbol)
    (e.state.getSymbolClose o.symbol) hQw.abs hq hpos
  rw [← havg] at hround
  have hQs := Side.eq_sign_mul_abs hQ
  have hdiff : ((execute createUuid hp e o).state.calculateEquity : ℚ) -
      (e.state.calculateEquity - commission o hp e.state (createUuid e.uuidCount)) =
      d.sign * (e.state.averagePrice o.symbol * |e.state.positionQuantity o.symbol| +
        e.state.getSymbolClose o.symbol * fillableQuantity o hp e.state -
        (success o hp e.state (createUuid e.uuidCount)).position.averagePrice *
          (|e.state.positionQuantity o.symbol| + fillableQuantity o hp e.state)) := by
    rw [hupd]
    push_cast
    rw [Money.cast_mul_of_isWhole _ (hQw.add (hq.sign_mul d)), Money.cast_mul_of_isWhole _ hQw]
    simp only [State.realizedPnl, List.map_nil, List.sum_nil, Int.cast_zero]
    generalize |e.state.positionQuantity o.symbol| = x at hQs
    rw [hQs]
    push_cast
    ring
  rw [hdiff, Side.abs_sign_mul, abs_sub_comm, habs]
  exact hround

/-- Reducing: the equity moves by the difference between average cost and FIFO cost. -/
private theorem equity_reduces (hneg : d.sign * e.state.positionQuantity o.symbol < 0)
    (hle : fillableQuantity o hp e.state ≤ |e.state.positionQuantity o.symbol|) :
    |((execute createUuid hp e o).state.calculateEquity : ℚ) -
        (e.state.calculateEquity - commission o hp e.state (createUuid e.uuidCount))| =
      |e.state.averagePrice o.symbol * fillableQuantity o hp e.state -
        e.state.closedCost d.opposite o.symbol (fillableQuantity o hp e.state)
          (e.state.getSymbolClose o.symbol)| := by
  have hupd := equity_update hw hreg hwhole ha hd hmarket hcross
  have hq := fillableQuantity_whole (o := o) (s := e.state) hw
  have hQw := hwhole.quantity o.symbol
  have hc : e.state.closing d o.symbol (fillableQuantity o hp e.state) = fillableQuantity o hp e.state := by
    rw [State.closing, if_pos hneg, min_eq_left hle]
  have hdw := hq.sign_mul d
  have hspec := hwhole.taken_spec d.opposite o.symbol hq
  -- a position that is closed has no profit left, whatever its average price
  have hafter : Money.mul (e.state.getSymbolClose o.symbol -
        (success o hp e.state (createUuid e.uuidCount)).position.averagePrice)
      (e.state.positionQuantity o.symbol + d.sign * fillableQuantity o hp e.state) =
      Money.mul (e.state.getSymbolClose o.symbol - e.state.averagePrice o.symbol)
        (e.state.positionQuantity o.symbol + d.sign * fillableQuantity o hp e.state) := by
    by_cases hzero : |e.state.positionQuantity o.symbol + d.sign * fillableQuantity o hp e.state| < Constants.epsilon
    · rw [(hQw.add hdw).eq_zero_of_abs_lt hzero, Money.mul_zero, Money.mul_zero]
    · have havg : (success o hp e.state (createUuid e.uuidCount)).position.averagePrice = _ :=
        PositionCalc.calculatePosition_averagePrice_reduces hd (calculateFillPrice o e.state) hneg hle hzero
      rw [havg]
  rw [hc, hafter] at hupd
  have hdiff : ((execute createUuid hp e o).state.calculateEquity : ℚ) -
      (e.state.calculateEquity - commission o hp e.state (createUuid e.uuidCount)) =
      -(d.sign * (e.state.averagePrice o.symbol * fillableQuantity o hp e.state -
        e.state.closedCost d.opposite o.symbol (fillableQuantity o hp e.state)
          (e.state.getSymbolClose o.symbol))) := by
    rw [hupd]
    push_cast
    rw [Money.cast_mul_of_isWhole _ (hQw.add hdw), Money.cast_mul_of_isWhole _ hQw,
      State.cast_realizedPnl _ fun p hp' => (hspec p hp').2.1, State.closedCost]
    push_cast
    ring
  rw [hdiff, abs_neg, Side.abs_sign_mul]

end Update

/-- The rounding the equity may lose in an execution: a microdollar for each share held before or after, one for each
lot touched, and four. -/
def tolerance (createUuid : ℕ → Uuid) (hp : HostParams) (e : BackTestEngine) (o : Order) : ℚ :=
  max |e.state.positionQuantity o.symbol| |(execute createUuid hp e o).state.positionQuantity o.symbol| +
    (e.state.taken o.side.opposite o.symbol
      (e.state.closing o.side o.symbol (fillableQuantity o hp e.state))).length +
    4

/-- Executing the order costs its commission and nothing else, up to rounding. -/
def EquityKept (createUuid : ℕ → Uuid) (hp : HostParams) (e : BackTestEngine) (o : Order) : Prop :=
  |((execute createUuid hp e o).state.calculateEquity : ℚ) -
      (e.state.calculateEquity - commission o hp e.state (createUuid e.uuidCount))| ≤ tolerance createUuid hp e o

instance (createUuid : ℕ → Uuid) (hp : HostParams) (e : BackTestEngine) (o : Order) :
    Decidable (EquityKept createUuid hp e o) :=
  inferInstanceAs (Decidable (_ ≤ _))

/-- An accepted market order that does not cross zero keeps the equity exactly when it opens or adds, or when the
shares it closes cost, first in, first out, what they count at the average price, up to rounding. -/
theorem equity_kept_iff (hinj : Function.Injective createUuid) (hw : hp.fractional = false)
    (hr : Reachable createUuid hp feed c) (hd : o.isOn d = true) (hmarket : o.isMarketOrder = true)
    (ha : Accepted o hp c.engine.state (createUuid c.engine.uuidCount))
    (hcross : ¬ CrossesZero c.engine.state d o.symbol (fillableQuantity o hp c.engine.state)) :
    EquityKept createUuid hp c.engine o ↔
      0 ≤ d.sign * c.engine.state.positionQuantity o.symbol ∨
        |c.engine.state.averagePrice o.symbol * fillableQuantity o hp c.engine.state -
            c.engine.state.closedCost d.opposite o.symbol (fillableQuantity o hp c.engine.state)
              (c.engine.state.getSymbolClose o.symbol)| ≤
          |c.engine.state.positionQuantity o.symbol| +
            (c.engine.state.taken d.opposite o.symbol (fillableQuantity o hp c.engine.state)).length + 4 := by
  have hreg := registered hinj hr
  have hwhole := wholeShares hinj hw hr
  obtain ⟨hsym, hpos⟩ := success_whole hw hreg hd (hwhole.quantity o.symbol)
  have hQ' : (execute createUuid hp c.engine o).state.positionQuantity o.symbol =
      c.engine.state.positionQuantity o.symbol + d.sign * fillableQuantity o hp c.engine.state := by
    rw [execute_accepted ha]
    show (c.engine.state.updateState _).positionQuantity o.symbol = _
    rw [State.updateState_positionQuantity (r := success o hp c.engine.state _) hsym, ← hpos]
    exact if_pos rfl
  unfold EquityKept tolerance
  rw [hQ', Order.side_of_isOn hd]
  by_cases hQ : 0 ≤ d.sign * c.engine.state.positionQuantity o.symbol
  · refine iff_of_true ?_ (Or.inl hQ)
    refine (equity_opens hw hreg hwhole ha hd hmarket hcross hQ).trans ?_
    have h1 := abs_nonneg (c.engine.state.positionQuantity o.symbol + d.sign * fillableQuantity o hp c.engine.state)
    have h2 := le_max_right |c.engine.state.positionQuantity o.symbol|
      |c.engine.state.positionQuantity o.symbol + d.sign * fillableQuantity o hp c.engine.state|
    have h3 : (0 : ℚ) ≤ (c.engine.state.taken d.opposite o.symbol
      (c.engine.state.closing d o.symbol (fillableQuantity o hp c.engine.state))).length := Nat.cast_nonneg _
    linarith
  · have hneg := not_le.1 hQ
    have hle : fillableQuantity o hp c.engine.state ≤ |c.engine.state.positionQuantity o.symbol| :=
      not_lt.1 fun hlt => hcross ⟨hneg, hlt⟩
    have hc : c.engine.state.closing d o.symbol (fillableQuantity o hp c.engine.state) =
        fillableQuantity o hp c.engine.state := by
      rw [State.closing, if_pos hneg, min_eq_left hle]
    have hmax : max |c.engine.state.positionQuantity o.symbol|
        |c.engine.state.positionQuantity o.symbol + d.sign * fillableQuantity o hp c.engine.state| =
        |c.engine.state.positionQuantity o.symbol| :=
      max_eq_left (Side.abs_add_sign_mul_le hneg (zero_le_one.trans (one_le_fillableQuantity hw ha)) hle)
    rw [equity_reduces hw hreg hwhole ha hd hmarket hcross hneg hle, hmax, hc]
    exact ⟨Or.inr, fun h => h.resolve_left hQ⟩

/-- Ten shares at 100 and ten at 200: the ten sold at 200 cost 100 each, but count 150 each in the open profit. -/
theorem equity_not_kept :
    ¬ ∀ (createUuid : ℕ → Uuid) (hp : HostParams) (feed : List FeedItem) (c : Config) (o : Order) (d : Side),
      Function.Injective createUuid → hp.fractional = false → Reachable createUuid hp feed c → o.isOn d = true →
      o.isMarketOrder = true → Accepted o hp c.engine.state (createUuid c.engine.uuidCount) →
      ¬ CrossesZero c.engine.state d o.symbol (fillableQuantity o hp c.engine.state) →
      EquityKept createUuid hp c.engine o := by
  intro h
  have hk := h sampleUuid sampleParams
    (sampleFeed "A" 1000 [(100, "buy", 10), (100, "buy", 10), (200, "buy", 0)]) (sampleRun _ _ 40)
    (Order.ofCOrder (sampleOrder "A" "sell" 10)) .sell sampleUuid_injective rfl (reachable_sampleRun _ _ _) rfl rfl
    (by decide +kernel) (by decide +kernel)
  revert hk
  decide +kernel

/-- Two lots at different prices, closed together: the average is rounded, and thirty times it is within the
tolerance of what the lots cost. -/
theorem equity_kept_iff_two_lots :
    let c := sampleRun sampleParams
      (sampleFeed "A" 1000 [(100, "buy", 10), (100, "buy", 20), (110, "buy", 0), (120, "buy", 0)]) 40
    (c.engine.state.taken .buy "A" 30).map (fun t => t.1.price) = [100000000, 110000000] ∧
      EquityKept sampleUuid sampleParams c.engine (Order.ofCOrder (sampleOrder "A" "sell" 30)) := by
  refine ⟨by decide +kernel, ?_⟩
  refine (equity_kept_iff (d := .sell) sampleUuid_injective rfl (reachable_sampleRun _ _ _) rfl rfl ?_ ?_).2
    (Or.inr ?_)
  · decide +kernel
  · decide +kernel
  · decide +kernel

end BackTestEngine

end QuantForge
