import QuantForge.Equity

/-!
# Opening orders and the available margin

Before an order that opens a position is filled, what it will be charged is compared with the available margin, which
is computed from the old average price.  Afterwards the average price is another one, and the order may have been
filled better than at the close.  The two values of the position are computed here for an arbitrary rounding: without
rounding an accepted order leaves the available margin non-negative, and the rounding of the code costs at most half a
microdollar for each share held and two microdollars (`available_margin_after_opening`).
-/

namespace QuantForge

namespace State

/-- The available margin, with `rnd` for the rounding to microdollars. -/
def availableMarginBy (rnd : ℚ → ℚ) (s : State) : ℚ :=
  s.cash + s.positions.sumBy fun symbol p =>
    if s.hasSymbolPrices symbol then rnd ((s.getSymbolClose symbol - p.averagePrice) * p.quantity) else 0

/-- The average price after adding `q` shares at `price`, with `rnd` for the rounding to microdollars. -/
def blendedPriceBy (rnd : ℚ → ℚ) (s : State) (d : Side) (symbol : Symbol) (q : ℚ) (price : Money) : ℚ :=
  rnd ((rnd (s.averagePrice symbol * |s.positionQuantity symbol|) + rnd (price * q)) /
    |s.positionQuantity symbol + d.sign * q|)

/-- The available margin after `q` shares are added at `price` and `required` is charged for them, with `rnd` for the
rounding to microdollars. -/
def availableAfterOpening (rnd : ℚ → ℚ) (s : State) (d : Side) (symbol : Symbol) (q : ℚ) (price : Money)
    (required : ℚ) : ℚ :=
  s.availableMarginBy rnd - required +
      rnd ((s.getSymbolClose symbol - s.blendedPriceBy rnd d symbol q price) *
        (s.positionQuantity symbol + d.sign * q)) -
    rnd ((s.getSymbolClose symbol - s.averagePrice symbol) * s.positionQuantity symbol)

variable {s : State} {d : Side} {symbol : Symbol} {q : ℚ} {price : Money} {required δ : ℚ} {rnd : ℚ → ℚ}

/-- What is charged for an opening order is there before it, so all that the order can overdraw is the rounding. -/
theorem le_availableAfterOpening (hrnd : ∀ x, |rnd x - x| ≤ δ) (hQ : 0 ≤ d.sign * s.positionQuantity symbol)
    (hq : 0 < q) (hprice : 0 ≤ d.sign * (s.getSymbolClose symbol - price : ℚ))
    (hrequired : required ≤ s.availableMarginBy rnd) :
    -(δ * (|s.positionQuantity symbol + d.sign * q| + 4)) ≤
      s.availableAfterOpening rnd d symbol q price required := by
  have habs := Side.abs_add_sign_mul hQ hq.le
  have hpos : 0 < |s.positionQuantity symbol + d.sign * q| := by
    rw [habs]
    exact add_pos_of_nonneg_of_pos (abs_nonneg _) hq
  have hmean := Rounding.abs_round_mean_sub_le hrnd (s.averagePrice symbol * |s.positionQuantity symbol|) (price * q)
    hpos
  have hnew := hrnd ((s.getSymbolClose symbol - s.blendedPriceBy rnd d symbol q price) *
    (s.positionQuantity symbol + d.sign * q))
  have hold := hrnd ((s.getSymbolClose symbol - s.averagePrice symbol) * s.positionQuantity symbol)
  have hgain : 0 ≤ d.sign * (s.getSymbolClose symbol - price : ℚ) * q := mul_nonneg hprice hq.le
  unfold availableAfterOpening
  change |s.blendedPriceBy rnd d symbol q price * |s.positionQuantity symbol + d.sign * q| - _| ≤ _ at hmean
  rw [abs_le] at hmean hnew hold
  -- both signs: the shares held are the quantity for a buy and its negative for a sell
  cases d <;> simp only [Side.sign, one_mul, neg_mul, Left.nonneg_neg_iff] at hQ hgain habs hmean hnew ⊢
  · rw [abs_of_nonneg hQ] at hmean habs
    rw [habs] at hmean ⊢
    nlinarith [hmean.2, hnew.1, hold.2]
  · rw [abs_of_nonpos hQ] at hmean habs
    rw [habs] at hmean ⊢
    nlinarith [hmean.1, hnew.1, hold.2]

/-- The rounding of the code. -/
theorem cast_sumBy_positionPnl (s : State) :
    ((s.positions.sumBy s.positionPnl : Money) : ℚ) = s.positions.sumBy fun symbol p =>
      if s.hasSymbolPrices symbol then
        ((Rounding.roundAway ((s.getSymbolClose symbol - p.averagePrice) * p.quantity) : ℤ) : ℚ)
      else 0 := by
  refine (Map.map_sumBy s.positionPnl (Int.castAddHom ℚ) s.positions).trans (Map.sumBy_congr fun symbol p _ => ?_)
  show ((s.positionPnl symbol p : Money) : ℚ) = _
  unfold positionPnl Money.mul
  split
  · push_cast
    rfl
  · exact Int.cast_zero

theorem cast_calculateAvailableMargin (s : State) :
    (s.calculateAvailableMargin : ℚ) = s.availableMarginBy (fun x => Rounding.roundAway x) := by
  unfold calculateAvailableMargin calculateEquity availableMarginBy
  rw [← cast_sumBy_positionPnl]
  push_cast
  ring

end State

namespace Executor

variable {o : Order} {hp : HostParams} {s : State} {uuid : Uuid} {d : Side}

/-- A limit only improves on the close. -/
theorem fillPrice_improves (hd : o.isOn d = true) (s : State) :
    0 ≤ d.sign * (s.getSymbolClose o.symbol - calculateFillPrice o s : ℚ) := by
  obtain ⟨hb, -⟩ := isBuy_isSell_of_isOn hd
  unfold calculateFillPrice
  rw [hb]
  cases d with
  | buy =>
    have hle : ∀ limit : Money, min limit (s.getSymbolClose o.symbol) ≤ s.getSymbolClose o.symbol :=
      fun limit => min_le_right _ _
    simp only [Side.sign, one_mul, sub_nonneg, Int.cast_le, decide_true, if_true]
    split
    · split
      · exact hle _
      · exact le_refl _
    · exact le_refl _
  | sell =>
    have hle : ∀ limit : Money, s.getSymbolClose o.symbol ≤ max limit (s.getSymbolClose o.symbol) :=
      fun limit => le_max_right _ _
    simp only [Side.sign, neg_mul, one_mul, Left.nonneg_neg_iff, sub_nonpos, Int.cast_le, reduceCtorEq, decide_false,
      Bool.false_eq_true, if_false]
    split
    · split
      · exact hle _
      · exact le_refl _
    · exact le_refl _

/-- The margin test of an order that opens something. -/
theorem required_le_availableMargin (hopen : Constants.epsilon < positionOpeningQuantity o hp s)
    (ha : Accepted o hp s uuid) : marginRequired o hp s + commission o hp s uuid ≤ s.calculateAvailableMargin := by
  have hm := ha.margin
  unfold validateMargin at hm
  dsimp only at hm
  split at hm
  · cases hm
  · split at hm
    · cases hm
    · split at hm
      · cases hm
      · rw [if_neg (not_le.2 hopen)] at hm
        split at hm
        · cases hm
        · rename_i hle
          exact not_lt.1 hle

section Opening

variable (hnamed : ∀ p, s.positions.lookup o.symbol = some p → p.symbol = o.symbol) (hd : o.isOn d = true)
  (hopen : Constants.epsilon < positionOpeningQuantity o hp s) (hQ : 0 ≤ d.sign * s.positionQuantity o.symbol)

include hd hopen hQ

theorem fillableQuantity_opens : Constants.epsilon < fillableQuantity o hp s := by
  have hc : s.closing d o.symbol (fillableQuantity o hp s) = 0 := if_neg (not_lt.2 hQ)
  rwa [positionOpeningQuantity_eq hd, hc, sub_zero] at hopen

/-- The position after an opening order. -/
theorem position_opens (uuid : Uuid) :
    (success o hp s uuid).position.quantity = s.positionQuantity o.symbol + d.sign * fillableQuantity o hp s ∧
      ((success o hp s uuid).position.averagePrice : ℚ) =
        s.blendedPriceBy (fun x => Rounding.roundAway x) d o.symbol (fillableQuantity o hp s)
          (calculateFillPrice o s) := by
  have hq := fillableQuantity_opens hd hopen hQ
  have hq0 : 0 ≤ fillableQuantity o hp s := Constants.epsilon_pos.le.trans hq.le
  have hne : ¬ |s.positionQuantity o.symbol + d.sign * fillableQuantity o hp s| < Constants.epsilon := by
    rw [Side.abs_add_sign_mul hQ hq0, not_lt]
    exact hq.le.trans (le_add_of_nonneg_left (abs_nonneg _))
  constructor
  · have hpos := PositionCalc.calculatePosition_quantity (s := s) hd (fillableQuantity o hp s)
      (calculateFillPrice o s)
    rw [if_neg hne] at hpos
    exact hpos
  · have havg := PositionCalc.calculatePosition_averagePrice_opens hd hq0 (calculateFillPrice o s) hQ hne
    have hcast := congrArg (Int.cast (R := ℚ)) havg
    simp only [PositionCalc.blendedPrice, Money.div, Money.mul, Int.cast_add] at hcast
    exact hcast

include hnamed

/-- The available margin after an opening order, computed with the rounding of the code. -/
theorem calculateAvailableMargin_opens (ha : Accepted o hp s uuid) :
    ((s.updateState (success o hp s uuid)).calculateAvailableMargin : ℚ) =
      s.availableAfterOpening (fun x => Rounding.roundAway x) d o.symbol (fillableQuantity o hp s)
        (calculateFillPrice o s) (marginRequired o hp s + commission o hp s uuid) := by
  obtain ⟨hpos, havg⟩ := position_opens hd hopen hQ uuid
  have hsym : (success o hp s uuid).position.symbol = o.symbol :=
    PositionCalc.calculatePosition_symbol hnamed _ _
  have hpnl := State.sumBy_positionPnl_updateState (s := s) (r := success o hp s uuid) (by
    rw [hsym]
    exact ha.prices)
  have hcash := (State.updateState_booking (s := s) (r := success o hp s uuid) rfl).cash
  have hc : s.closing d o.symbol (fillableQuantity o hp s) = 0 := if_neg (not_lt.2 hQ)
  rw [cashDelta_eq hd, hc, State.taken, Fifo.takes_of_le Constants.epsilon_pos.le] at hcash
  rw [hsym, hpos] at hpnl
  have hsum := s.cast_sumBy_positionPnl
  unfold State.calculateAvailableMargin State.calculateEquity State.availableAfterOpening State.availableMarginBy
  rw [hpnl, hcash, ← havg, ← hsum]
  simp only [State.releasedMargin, State.realizedPnl, List.map_nil, List.sum_nil, Money.mul]
  push_cast
  ring

end Opening

/-- An accepted order that opens a position or adds to one leaves the available margin above the rounding of the
average price and of the products of money, and non-negative without rounding, whatever is charged for it. -/
theorem available_margin_after_opening {r : ExecutionResultSuccess}
    (hnamed : ∀ p, s.positions.lookup o.symbol = some p → p.symbol = o.symbol)
    (h : executeOrder o hp s uuid = .ok r) (hd : o.isOn d = true)
    (hopen : Constants.epsilon < positionOpeningQuantity o hp s) (hQ : 0 ≤ d.sign * s.positionQuantity o.symbol) :
    -(|(s.updateState r).positionQuantity o.symbol| / 2 + 2) ≤ ((s.updateState r).calculateAvailableMargin : ℚ) ∧
      ((s.updateState r).calculateAvailableMargin : ℚ) =
        s.availableAfterOpening (fun x => Rounding.roundAway x) d o.symbol r.fill.quantity r.fill.price
          (r.marginUsed + commission o hp s uuid) ∧
      ∀ required ≤ s.availableMarginBy id,
        0 ≤ s.availableAfterOpening id d o.symbol r.fill.quantity r.fill.price required := by
  obtain ⟨ha, rfl⟩ := executeOrder_ok_iff.1 h
  have hq := Constants.epsilon_pos.trans (fillableQuantity_opens hd hopen hQ)
  have hprice := fillPrice_improves hd s
  have hafter := calculateAvailableMargin_opens hnamed hd hopen hQ ha
  obtain ⟨hpos, -⟩ := position_opens hd hopen hQ uuid
  have hQ' : (s.updateState (success o hp s uuid)).positionQuantity o.symbol =
      s.positionQuantity o.symbol + d.sign * fillableQuantity o hp s := by
    rw [State.updateState_positionQuantity (PositionCalc.calculatePosition_symbol hnamed _ _), ← hpos]
    exact if_pos rfl
  refine ⟨?_, hafter, fun required hreq => ?_⟩
  · have hreq : (marginRequired o hp s + commission o hp s uuid : ℚ) ≤
        s.availableMarginBy (fun x => Rounding.roundAway x) := by
      rw [← s.cast_calculateAvailableMargin]
      exact_mod_cast required_le_availableMargin hopen ha
    have hle := State.le_availableAfterOpening (fun x => Rounding.abs_roundAway_sub_le x) hQ hq hprice hreq
    rw [hafter, hQ']
    linarith
  · have hle := State.le_availableAfterOpening (δ := 0) (fun x => by simp) hQ hq hprice hreq
    rw [zero_mul, neg_zero] at hle
    exact hle

open BackTestEngine in
/-- Two shares bought at 100 and a third one at a limit of 99.50: the average price is rounded down, and the position
counts a microdollar more than it is worth. -/
theorem available_margin_after_limit_buy :
    let s := (sampleRun sampleParams (sampleFeed "A" 1000 [(100, "buy", 2), (100, "buy", 0)]) 20).engine.state
    let o : Order := ⟨false, 1, "A", "buy", "limit", none, some 99500000, none, none, none, none⟩
    let r := success o sampleParams s "11"
    (s.updateState r).calculateAvailableMargin = 999701000001 ∧
      -(|(s.updateState r).positionQuantity "A"| / 2 + 2) ≤ ((s.updateState r).calculateAvailableMargin : ℚ) ∧
      0 ≤ s.availableAfterOpening id .buy "A" r.fill.quantity r.fill.price 99500000 := by
  intro s o r
  obtain ⟨hround, -, hexact⟩ := available_margin_after_opening (s := s) (o := o) (r := r) (d := .buy)
    (positions_named (reachable_sampleRun _ _ _) "A") (executeOrder_ok_iff.2 ⟨by decide +kernel, rfl⟩)
    (by decide +kernel) (by decide +kernel) (by decide +kernel)
  exact ⟨by decide +kernel, hround, hexact 99500000 (by decide +kernel)⟩

end Executor

end QuantForge
