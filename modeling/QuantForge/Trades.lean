import QuantForge.FifoWalks

/-!
# An accepted buy or sell

What `execute_order` computes for a buy or a sell and what `update_state` makes of it, for both sides at once: the
fill closes lots of the other side first (`State.closing`), and the rest of it opens a lot (`State.opened`).
-/

namespace QuantForge

/-- Shares bought count positive, shares sold negative. -/
def Side.sign : Side → ℚ
  | .buy => 1
  | .sell => -1

@[simp] theorem Side.abs_sign_mul (d : Side) (x : ℚ) : |d.sign * x| = |x| := by cases d <;> simp [sign]

theorem IsWhole.sign_mul {q : ℚ} (h : IsWhole q) (d : Side) : IsWhole (d.sign * q) := by
  cases d with
  | buy => simpa [Side.sign] using h
  | sell => simpa [Side.sign] using h.neg

/-- The side a fill is booked on: `update_state` treats what is not a buy like a sell. -/
def Fill.side (f : Fill) : Side := if f.isBuy then .buy else .sell

theorem Fill.side_of_isOn {f : Fill} {d : Side} (h : f.isOn d = true) : f.side = d := by
  unfold Fill.side
  cases d with
  | buy => exact if_pos h
  | sell =>
    have hb : f.isBuy = false := Fill.isOn_opposite h
    simp [hb]

/-- The side an order is executed on; what is not a buy goes the way of a sell. -/
def Order.side (o : Order) : Side := if o.isBuy then .buy else .sell

theorem Order.side_of_isOn {o : Order} {d : Side} (h : o.isOn d = true) : o.side = d := by
  unfold Order.side
  cases d with
  | buy => exact if_pos h
  | sell =>
    have hb : o.isBuy = false := Order.isOn_opposite h
    simp [hb]

theorem Fill.isBuy_eq (f : Fill) : f.isBuy = decide (f.side = .buy) := by
  unfold Fill.side
  cases h : f.isBuy <;> simp

theorem Fill.isOn_opposite_side (f : Fill) : f.isOn f.side.opposite = false := by
  unfold Fill.side
  cases h : f.isBuy with
  | true => exact Fill.isOn_opposite (d := .buy) h
  | false => exact h

namespace State

/-- The shares of the other side that a fill of `q` shares on side `d` closes. -/
def closing (s : State) (d : Side) (symbol : Symbol) (q : ℚ) : ℚ :=
  if d.sign * s.positionQuantity symbol < 0 then min q |s.positionQuantity symbol| else 0

/-- The lot a fill of `q` shares opens. -/
def opened (s : State) (d : Side) (symbol : Symbol) (q : ℚ) : Option ℚ :=
  if d.sign * s.positionQuantity symbol < 0 ∧ q - s.closing d symbol q ≤ Constants.epsilon then none
  else some (q - s.closing d symbol q)

theorem getSymbolPositionOr_quantity (s : State) (symbol : Symbol) :
    (s.getSymbolPositionOr symbol ⟨symbol, 0, 0⟩).quantity = s.positionQuantity symbol := by
  unfold getSymbolPositionOr positionQuantity
  cases s.positions.lookup symbol <;> rfl

theorem closing_nonneg {s : State} {d : Side} {symbol : Symbol} {q : ℚ} (hq : 0 ≤ q) :
    0 ≤ s.closing d symbol q := by
  unfold closing
  split
  · exact le_min hq (abs_nonneg _)
  · exact le_refl _

theorem closing_mono (s : State) (d : Side) (symbol : Symbol) {q q' : ℚ} (h : q ≤ q') :
    s.closing d symbol q ≤ s.closing d symbol q' := by
  unfold closing
  split
  · exact min_le_min_right _ h
  · exact le_refl _

theorem closing_le (s : State) (d : Side) (symbol : Symbol) {q : ℚ} (hq : 0 ≤ q) : s.closing d symbol q ≤ q := by
  unfold closing
  split
  · exact min_le_left _ _
  · exact hq

/-- A fill of `q` whole shares on side `d` opens a position or adds to it, reduces it, or carries it across zero. -/
inductive TradeCase (s : State) (d : Side) (symbol : Symbol) (q : ℚ) : Prop
  | opens (hQ : 0 ≤ d.sign * s.positionQuantity symbol) (hc : s.closing d symbol q = 0)
      (ho : s.opened d symbol q = some q)
  | reduces (hneg : d.sign * s.positionQuantity symbol < 0) (hle : q ≤ |s.positionQuantity symbol|)
      (hc : s.closing d symbol q = q) (ho : s.opened d symbol q = none)
  | crosses (hneg : d.sign * s.positionQuantity symbol < 0) (hlt : |s.positionQuantity symbol| < q)
      (hc : s.closing d symbol q = |s.positionQuantity symbol|)
      (ho : s.opened d symbol q = some (q - |s.positionQuantity symbol|))

theorem tradeCase (s : State) (d : Side) {symbol : Symbol} (hQ : IsWhole (s.positionQuantity symbol)) {q : ℚ}
    (hq : IsWhole q) : s.TradeCase d symbol q := by
  by_cases hneg : d.sign * s.positionQuantity symbol < 0
  · have hc : s.closing d symbol q = min q |s.positionQuantity symbol| := if_pos hneg
    by_cases hle : q ≤ |s.positionQuantity symbol|
    · rw [min_eq_left hle] at hc
      refine .reduces hneg hle hc ?_
      rw [opened, hc, if_pos ⟨hneg, by simpa using Constants.epsilon_pos.le⟩]
    · have hlt := not_le.1 hle
      rw [min_eq_right hlt.le] at hc
      refine .crosses hneg hlt hc ?_
      rw [opened, hc, if_neg]
      rintro ⟨-, hopen⟩
      have := (hq.sub hQ.abs).nonpos_of_le_epsilon hopen
      linarith
  · have hc : s.closing d symbol q = 0 := if_neg hneg
    refine .opens (not_lt.1 hneg) hc ?_
    rw [opened, hc, if_neg (fun hh => hneg hh.1), sub_zero]

/-- What a fill of whole shares does not close it opens. -/
theorem opened_getD (s : State) (d : Side) {symbol : Symbol} (hQ : IsWhole (s.positionQuantity symbol)) {q : ℚ}
    (hq : IsWhole q) : (s.opened d symbol q).getD 0 = q - s.closing d symbol q := by
  cases s.tradeCase d hQ hq with
  | opens _ hc ho => rw [hc, ho, Option.getD_some, sub_zero]
  | reduces _ _ hc ho => rw [hc, ho, Option.getD_none, sub_self]
  | crosses _ _ hc ho => rw [hc, ho, Option.getD_some]

/-- A new lot is a positive whole number of shares. -/
theorem opened_whole {s : State} {d : Side} {symbol : Symbol} {q a : ℚ} (hQ : IsWhole (s.positionQuantity symbol))
    (hq : IsWhole q) (hq1 : 1 ≤ q) (ho : s.opened d symbol q = some a) : IsWhole a ∧ 0 < a := by
  cases s.tradeCase d hQ hq with
  | opens _ _ ho' =>
    rw [ho'] at ho
    cases ho
    exact ⟨hq, lt_of_lt_of_le one_pos hq1⟩
  | reduces _ _ _ ho' =>
    rw [ho'] at ho
    cases ho
  | crosses _ hlt _ ho' =>
    rw [ho'] at ho
    cases ho
    exact ⟨hq.sub hQ.abs, sub_pos.2 hlt⟩

end State

/-! ### The local variables of `execute_order` -/

namespace Executor

variable {o : Order} {hp : HostParams} {s : State} {d : Side}

theorem isBuy_isSell_of_isOn (hd : o.isOn d = true) :
    o.isBuy = decide (d = .buy) ∧ o.isSell = decide (d = .sell) := by
  cases d
  · exact ⟨hd, Order.isOn_opposite hd⟩
  · exact ⟨Order.isOn_opposite hd, hd⟩

theorem newPositionQuantity_eq (hd : o.isOn d = true) :
    newPositionQuantity o hp s = s.positionQuantity o.symbol + d.sign * fillableQuantity o hp s := by
  unfold newPositionQuantity
  rw [(isBuy_isSell_of_isOn hd).1]
  cases d <;> simp [Side.sign]

theorem positionOpeningQuantity_eq (hd : o.isOn d = true) :
    positionOpeningQuantity o hp s =
      fillableQuantity o hp s - s.closing d o.symbol (fillableQuantity o hp s) := by
  unfold positionOpeningQuantity calculatePositionOpeningQuantity State.closing
  rw [newPositionQuantity_eq hd, (isBuy_isSell_of_isOn hd).1]
  generalize fillableQuantity o hp s = q
  generalize s.positionQuantity o.symbol = Q
  cases d <;> simp only [Side.sign, decide_true, reduceCtorEq, decide_false, Bool.false_eq_true, if_true, if_false,
    one_mul, neg_mul]
  · by_cases h : 0 ≤ Q
    · simp [h, not_lt.2 h]
    · have hQ : Q < 0 := not_le.1 h
      simp only [ge_iff_le, h, if_false, hQ, if_true, abs_of_neg hQ]
      rcases le_total q (-Q) with hq | hq
      · rw [min_eq_left hq, max_eq_left (by linarith)]; ring
      · rw [min_eq_right hq, max_eq_right (by linarith)]; ring
  · by_cases h : Q ≤ 0
    · simp [h, not_lt.2 h]
    · have hQ : 0 < Q := not_le.1 h
      simp only [h, if_false, Left.neg_neg_iff, hQ, if_true, abs_of_pos hQ]
      rcases le_total q Q with hq | hq
      · rw [min_eq_left hq, max_eq_left (by linarith)]; ring
      · rw [min_eq_right hq, max_eq_right (by linarith)]; ring

/-- The margin and profit an execution realizes are those of the lots it touches. -/
theorem calculateClosingMarginInfo_eq (hd : o.isOn d = true) (price : Money) (x : ℚ) :
    calculateClosingMarginInfo o price x s =
      ⟨s.releasedMargin (s.taken d.opposite o.symbol x),
        State.realizedPnl d.opposite price (s.taken d.opposite o.symbol x)⟩ := by
  unfold calculateClosingMarginInfo State.taken
  split
  · rename_i h
    rw [Fifo.takes_of_le h]
    rfl
  · rw [State.closingMarginLoop_eq (d := d.opposite) (by simpa using hd)]
    simp [State.lots]

theorem cashDelta_eq (hd : o.isOn d = true) (uuid : Uuid) :
    (success o hp s uuid).cashDelta =
      s.releasedMargin (s.taken d.opposite o.symbol (s.closing d o.symbol (fillableQuantity o hp s))) +
        State.realizedPnl d.opposite (calculateFillPrice o s)
          (s.taken d.opposite o.symbol (s.closing d o.symbol (fillableQuantity o hp s))) -
        marginRequired o hp s - commission o hp s uuid := by
  have h : fillableQuantity o hp s - positionOpeningQuantity o hp s =
      s.closing d o.symbol (fillableQuantity o hp s) := by
    rw [positionOpeningQuantity_eq hd]; ring
  simp only [success, calculateCashDelta, h, calculateClosingMarginInfo_eq hd]
  obtain ⟨hb, hs⟩ := isBuy_isSell_of_isOn hd
  cases d <;> simp [hb, hs]

/-- Without fractional shares a fill is a whole number of shares. -/
theorem fillableQuantity_whole (hw : hp.fractional = false) :
    IsWhole (fillableQuantity o hp s) := by
  simp [fillableQuantity, hw, IsWhole]

/-- Without fractional shares an accepted fill is at least one share. -/
theorem one_le_fillableQuantity (hw : hp.fractional = false) {uuid : Uuid} (ha : Accepted o hp s uuid) :
    1 ≤ fillableQuantity o hp s :=
  (fillableQuantity_whole hw).one_le (ha.whole hw)

end Executor

/-! ### The position -/

namespace PositionCalc

variable {o : Order} {s : State} {d : Side}

theorem calculatePosition_quantity (hd : o.isOn d = true) (q : ℚ) (price : Money) :
    (calculatePosition o q price s).quantity =
      if |s.positionQuantity o.symbol + d.sign * q| < Constants.epsilon then 0
      else s.positionQuantity o.symbol + d.sign * q := by
  have hQ := s.getSymbolPositionOr_quantity o.symbol
  obtain ⟨hb, hs⟩ := Executor.isBuy_isSell_of_isOn hd
  unfold calculatePosition
  cases d <;> simp only [hb, hs, hQ, Side.sign] <;> simp only [decide_true, reduceCtorEq, decide_false,
    Bool.false_eq_true, if_true, if_false, one_mul, neg_mul, ← sub_eq_add_neg]
  all_goals
    split
    · rfl
    · rfl

/-- An order that neither buys nor sells leaves the quantity alone. -/
theorem calculatePosition_quantity_unknown (hb : o.isBuy = false) (hs : o.isSell = false) (q : ℚ) (price : Money) :
    (calculatePosition o q price s).quantity =
      if |s.positionQuantity o.symbol| < Constants.epsilon then 0 else s.positionQuantity o.symbol := by
  have hQ := s.getSymbolPositionOr_quantity o.symbol
  unfold calculatePosition
  simp only [hb, hs, Bool.false_eq_true, if_false, hQ]
  split
  · rfl
  · exact hQ

theorem calculatePosition_symbol {s : State} (h : ∀ p, s.positions.lookup o.symbol = some p → p.symbol = o.symbol)
    (q : ℚ) (price : Money) : (calculatePosition o q price s).symbol = o.symbol := by
  have hsym : (s.getSymbolPositionOr o.symbol ⟨o.symbol, 0, 0⟩).symbol = o.symbol := by
    unfold State.getSymbolPositionOr
    rcases hp : s.positions.lookup o.symbol with _ | p
    · rfl
    · exact h p hp
  unfold calculatePosition
  split <;> (dsimp only; split_ifs <;> exact hsym)

end PositionCalc

/-! ### The lots -/

namespace BackTestEngine

/-- The lots whose exit orders an accepted fill reduces are those its FIFO walk touches. -/
theorem fillsClosedBy_eq {f : Fill} {d : Side} (hd : f.isOn d = true) (s : State) :
    fillsClosedBy f s =
      (s.taken d.opposite f.symbol (s.closing d f.symbol f.quantity)).map fun t => (t.1.uuid, t.2.2) := by
  have heps : (0 : ℚ) ≤ Constants.epsilon := Constants.epsilon_pos.le
  have hopp := Fill.isOn_opposite hd
  unfold fillsClosedBy State.taken State.closing
  cases d with
  | buy =>
    have hb : f.isBuy = true := hd
    have hs : f.isSell = false := hopp
    simp only [hb, hs, Bool.false_eq_true, if_false, if_true, PositionCalc.findSellFillUuidsClosedByBuy,
      State.positionQuantity, Side.sign, one_mul]
    rcases s.positions.lookup f.symbol with _ | p
    · simp [Fifo.takes_of_le heps]
    · by_cases h : p.quantity < 0
      · simp only [ge_iff_le, not_le.2 h, if_false, Option.elim_some, h, if_true]
        exact State.closedFills_eq s .sell f.symbol s.fills _
      · simp [not_lt.1 h, h, Fifo.takes_of_le heps]
  | sell =>
    have hs : f.isSell = true := hd
    simp only [hs, if_true, PositionCalc.findBuyFillUuidsClosedBySell, State.positionQuantity, Side.sign, neg_mul,
      one_mul, Left.neg_neg_iff]
    rcases s.positions.lookup f.symbol with _ | p
    · simp [Fifo.takes_of_le heps]
    · by_cases h : 0 < p.quantity
      · simp only [not_le.2 h, if_false, Option.elim_some, h, if_true, abs_of_pos h]
        exact State.closedFills_eq s .buy f.symbol s.fills _
      · simp [not_lt.1 h, h, Fifo.takes_of_le heps]

/-- The lots an accepted fill closes are active lots of fills of its symbol. -/
theorem mem_fillsClosedBy {f : Fill} {s : State} {c : Uuid × ℚ} (hc : c ∈ fillsClosedBy f s) :
    (∃ g ∈ s.fills, g.uuid = c.1 ∧ g.symbol = f.symbol) ∧
      ∃ d a, (s.active d).lookup c.1 = some a ∧ (0 < a → 0 < c.2) := by
  have walk : ∀ d x, c ∈ PositionCalc.closedFills s d f.symbol s.fills x →
      (∃ g ∈ s.fills, g.uuid = c.1 ∧ g.symbol = f.symbol) ∧
        ∃ d a, (s.active d).lookup c.1 = some a ∧ (0 < a → 0 < c.2) := by
    intro d x h
    obtain ⟨hf, a, ha⟩ := State.mem_closedFills h
    exact ⟨hf, d, a, ha⟩
  unfold fillsClosedBy PositionCalc.findBuyFillUuidsClosedBySell PositionCalc.findSellFillUuidsClosedByBuy at hc
  split at hc
  · split at hc
    · cases hc
    · split at hc
      · cases hc
      · exact walk _ _ hc
  · split at hc
    · split at hc
      · cases hc
      · split at hc
        · cases hc
        · exact walk _ _ hc
    · cases hc

end BackTestEngine

end QuantForge
