import QuantForge.Equity
import QuantForge.LotStore

/-!
# The average price of a position

Without fractional shares the average price a position is carried at is never off the market: in every reachable state
it lies between the prices of two fills of the symbol on the side of the position (`averagePrice_within_fills`).  The
value of a whole number of shares is exact, so that only the division is rounded, and rounding an average does not
take it out of an interval between amounts.
-/

namespace QuantForge

/-- A quantity is on one side only. -/
theorem Side.eq_of_sign_pos {d d' : Side} {x : ℚ} (h : 0 < d.sign * x) (h' : 0 < d'.sign * x) : d' = d := by
  cases d <;> cases d' <;> simp only [Side.sign, one_mul, neg_mul, Left.neg_pos_iff] at h h'
  · rfl
  · exact absurd h' h.not_gt
  · exact absurd h' h.not_gt
  · rfl

namespace PositionCalc

variable {o : Order} {s : State} {d : Side}

theorem le_blendedPrice {lo average price : Money} {held q : ℚ} (hheld : IsWhole held) (h0 : 0 ≤ held)
    (hwhole : IsWhole q) (hq : 0 < q) (hold : held = 0 ∨ lo ≤ average) (hprice : lo ≤ price) :
    lo ≤ blendedPrice average held price q (held + q) := by
  have hmean : (lo : ℚ) ≤ ((Money.mul average held + Money.mul price q : Money) : ℚ) / (held + q) := by
    rw [le_div_iff₀ (by linarith), Int.cast_add, Money.cast_mul_of_isWhole average hheld,
      Money.cast_mul_of_isWhole price hwhole, mul_add]
    have hnew : (lo : ℚ) * q ≤ price * q := mul_le_mul_of_nonneg_right (by exact_mod_cast hprice) hq.le
    rcases hold with rfl | hold
    · linarith
    · have hbefore : (lo : ℚ) * held ≤ average * held := mul_le_mul_of_nonneg_right (by exact_mod_cast hold) h0
      linarith
  calc lo = Rounding.roundAway (lo : ℚ) := (Rounding.roundAway_intCast lo).symm
    _ ≤ _ := Rounding.roundAway_mono hmean

theorem blendedPrice_le {hi average price : Money} {held q : ℚ} (hheld : IsWhole held) (h0 : 0 ≤ held)
    (hwhole : IsWhole q) (hq : 0 < q) (hold : held = 0 ∨ average ≤ hi) (hprice : price ≤ hi) :
    blendedPrice average held price q (held + q) ≤ hi := by
  have hmean : ((Money.mul average held + Money.mul price q : Money) : ℚ) / (held + q) ≤ hi := by
    rw [div_le_iff₀ (by linarith), Int.cast_add, Money.cast_mul_of_isWhole average hheld,
      Money.cast_mul_of_isWhole price hwhole, mul_add]
    have hnew : (price : ℚ) * q ≤ hi * q := mul_le_mul_of_nonneg_right (by exact_mod_cast hprice) hq.le
    rcases hold with rfl | hold
    · linarith
    · have hbefore : (average : ℚ) * held ≤ hi * held := mul_le_mul_of_nonneg_right (by exact_mod_cast hold) h0
      linarith
  calc _ ≤ Rounding.roundAway (hi : ℚ) := Rounding.roundAway_mono hmean
    _ = hi := Rounding.roundAway_intCast hi

/-- The average price when the order turns the position around. -/
theorem calculatePosition_averagePrice_turns (hd : o.isOn d = true) {q : ℚ} (price : Money)
    (hQ : d.sign * s.positionQuantity o.symbol < 0) (hlt : |s.positionQuantity o.symbol| < q)
    (hne : ¬ |s.positionQuantity o.symbol + d.sign * q| < Constants.epsilon) :
    (calculatePosition o q price s).averagePrice = price := by
  have hQ' := s.getSymbolPositionOr_quantity o.symbol
  obtain ⟨hb, hs⟩ := Executor.isBuy_isSell_of_isOn hd
  unfold calculatePosition
  cases d
  · simp only [Side.sign, one_mul] at hQ hne
    rw [abs_of_neg hQ] at hlt
    have h1 : s.positionQuantity o.symbol + q > 0 := by linarith
    simp only [hb, hs, hQ', decide_true, if_true, hQ, h1, and_self, hne, if_false]
  · simp only [Side.sign, neg_mul, one_mul, Left.neg_neg_iff, ← sub_eq_add_neg] at hQ hne
    rw [abs_of_pos hQ] at hlt
    have h1 : s.positionQuantity o.symbol - q < 0 := by linarith
    simp only [hb, hs, hQ', reduceCtorEq, decide_false, decide_true, Bool.false_eq_true, if_true, if_false, gt_iff_lt,
      hQ, h1, and_self, hne]

/-- An order that neither buys nor sells leaves the average price alone. -/
theorem calculatePosition_averagePrice_unknown (hb : o.isBuy = false) (hs : o.isSell = false) {q : ℚ} (price : Money)
    (hne : ¬ |s.positionQuantity o.symbol| < Constants.epsilon) :
    (calculatePosition o q price s).averagePrice = s.averagePrice o.symbol := by
  have hQ := s.getSymbolPositionOr_quantity o.symbol
  have hA := s.getSymbolPositionOr_averagePrice o.symbol
  unfold calculatePosition
  simp only [hb, hs, Bool.false_eq_true, if_false, hQ, hne, hA]

end PositionCalc

namespace State

variable {s : State} {r : ExecutionResultSuccess}

theorem updateState_averagePrice (hsym : r.position.symbol = r.fill.symbol) (symbol : Symbol) :
    (s.updateState r).averagePrice symbol =
      if symbol = r.fill.symbol then (if r.position.quantity = 0 then 0 else r.position.averagePrice)
      else s.averagePrice symbol := by
  unfold averagePrice
  rw [(updateState_booking rfl).positions, hsym]
  by_cases hq : r.position.quantity = 0
  · rw [if_pos hq, if_pos hq, Map.lookup_erase_eq]
    split <;> rfl
  · rw [if_neg hq, if_neg hq, Map.lookup_insert_eq]
    split <;> rfl

/-- Two fills of the symbol on the side have prices below and above. -/
def PriceWithin (s : State) (d : Side) (symbol : Symbol) (price : Money) : Prop :=
  (∃ f ∈ s.fills, f.symbol = symbol ∧ f.isOn d = true ∧ f.price ≤ price) ∧
    ∃ f ∈ s.fills, f.symbol = symbol ∧ f.isOn d = true ∧ price ≤ f.price

/-- Every position is carried at a price between those of fills on its side, and there is none without a position. -/
structure CarriedWithin (s : State) : Prop where
  flat : ∀ symbol, s.positionQuantity symbol = 0 → s.averagePrice symbol = 0
  within : ∀ d symbol, 0 < d.sign * s.positionQuantity symbol → s.PriceWithin d symbol (s.averagePrice symbol)

theorem PriceWithin.append {s s' : State} {d : Side} {symbol : Symbol} {price : Money} {fill : Fill}
    (h : s.PriceWithin d symbol price) (hfills : s'.fills = s.fills ++ [fill]) : s'.PriceWithin d symbol price := by
  obtain ⟨⟨f, hf, hlo⟩, g, hg, hhi⟩ := h
  refine ⟨⟨f, ?_, hlo⟩, g, ?_, hhi⟩
  · rw [hfills]
    exact List.mem_append_left _ hf
  · rw [hfills]
    exact List.mem_append_left _ hg

end State

namespace BackTestEngine

open Executor State

variable {createUuid : ℕ → Uuid} {hp : HostParams} {feed : List FeedItem} {c : Config}
  {e : BackTestEngine} {o : Order}

/-- A fill that opens a position or adds to it keeps the average between the prices of the side's fills. -/
private theorem priceWithin_opens {s s' : State} {d : Side} {x : Fill} {Q q : ℚ} (hfills : s'.fills = s.fills ++ [x])
    (hfill : x.isOn d = true) (hQ : IsWhole Q) (hq : IsWhole q) (h1 : 0 < q) {average : Money}
    (hold : Q = 0 ∨ s.PriceWithin d x.symbol average) :
    s'.PriceWithin d x.symbol (PositionCalc.blendedPrice average |Q| x.price q (|Q| + q)) := by
  have hnew : x ∈ s'.fills := by simp [hfills]
  have hmem : ∀ f ∈ s.fills, f ∈ s'.fills := fun f hf => by simp [hfills, hf]
  rcases hold with h0 | ⟨⟨f, hf, hfsym, hfd, hlo⟩, g, hg, hgsym, hgd, hhi⟩
  · have habs : |Q| = 0 := by rw [h0, abs_zero]
    exact ⟨⟨x, hnew, rfl, hfill, PositionCalc.le_blendedPrice hQ.abs (abs_nonneg _) hq h1 (Or.inl habs) le_rfl⟩,
      x, hnew, rfl, hfill, PositionCalc.blendedPrice_le hQ.abs (abs_nonneg _) hq h1 (Or.inl habs) le_rfl⟩
  · refine ⟨?_, ?_⟩
    · rcases le_total f.price x.price with hle | hle
      · exact ⟨f, hmem f hf, hfsym, hfd,
          PositionCalc.le_blendedPrice hQ.abs (abs_nonneg _) hq h1 (Or.inr hlo) hle⟩
      · exact ⟨x, hnew, rfl, hfill,
          PositionCalc.le_blendedPrice hQ.abs (abs_nonneg _) hq h1 (Or.inr (hle.trans hlo)) le_rfl⟩
    · rcases le_total x.price g.price with hle | hle
      · exact ⟨g, hmem g hg, hgsym, hgd,
          PositionCalc.blendedPrice_le hQ.abs (abs_nonneg _) hq h1 (Or.inr hhi) hle⟩
      · exact ⟨x, hnew, rfl, hfill,
          PositionCalc.blendedPrice_le hQ.abs (abs_nonneg _) hq h1 (Or.inr (hhi.trans hle)) le_rfl⟩

/-- The average price after an accepted execution, when a position is left. -/
private theorem priceWithin_success (hw : hp.fractional = false) (hreg : Registered createUuid e)
    (hwhole : WholeShares e.state) (h : e.state.CarriedWithin) (ha : Accepted o hp e.state (createUuid e.uuidCount))
    {s' : State} (hfills : s'.fills = e.state.fills ++ [(success o hp e.state (createUuid e.uuidCount)).fill])
    {d : Side} (hpos : 0 < d.sign * (success o hp e.state (createUuid e.uuidCount)).position.quantity) :
    s'.PriceWithin d o.symbol (success o hp e.state (createUuid e.uuidCount)).position.averagePrice := by
  have hq := fillableQuantity_whole (o := o) (s := e.state) hw
  have hq1 : 0 < fillableQuantity o hp e.state := by linarith [one_le_fillableQuantity hw ha]
  have hQ := hwhole.quantity o.symbol
  set q := fillableQuantity o hp e.state
  set Q := e.state.positionQuantity o.symbol with hQdef
  have hnonzero : ∀ {x : ℚ}, IsWhole x → 0 < d.sign * x → ¬ |x| < Constants.epsilon := fun hx hpos hlt => by
    rw [hx.eq_zero_of_abs_lt hlt, mul_zero] at hpos
    exact lt_irrefl _ hpos
  by_cases hon : ∃ d', o.isOn d' = true
  · obtain ⟨d', hd⟩ := hon
    have hfill : (success o hp e.state (createUuid e.uuidCount)).fill.isOn d' = true := by cases d' <;> exact hd
    rw [(success_whole hw hreg hd hQ).2] at hpos
    have hne := hnonzero (hQ.add (hq.sign_mul d')) hpos
    rcases le_or_gt 0 (d'.sign * Q) with hopen | hclose
    · -- the position grows on its side
      have hside : 0 < d'.sign * (Q + d'.sign * q) := by
        cases d' <;> simp only [Side.sign, one_mul, neg_mul] at hopen ⊢ <;> linarith
      obtain rfl := Side.eq_of_sign_pos hside hpos
      have habs : |Q + d.sign * q| = |Q| + q := by
        cases d <;> simp only [Side.sign, one_mul, neg_mul, Left.nonneg_neg_iff] at hopen ⊢
        · rw [abs_of_nonneg hopen, abs_of_nonneg (by linarith)]
        · rw [abs_of_nonpos hopen, abs_of_nonpos (by linarith)]
          ring
      have havg := PositionCalc.calculatePosition_averagePrice_opens hd hq1.le
        (calculateFillPrice o e.state) hopen hne
      rw [habs] at havg
      show s'.PriceWithin d o.symbol (PositionCalc.calculatePosition o q _ e.state).averagePrice
      rw [havg]
      refine priceWithin_opens (x := (success o hp e.state (createUuid e.uuidCount)).fill) hfills hfill hQ hq hq1 ?_
      rcases hopen.eq_or_lt with h0 | hlt
      · exact Or.inl (by cases d <;> simpa [Side.sign] using h0.symm)
      · exact Or.inr (h.within d o.symbol hlt)
    · rcases le_or_gt q |Q| with hle | hlt
      · -- what is left of the position keeps its price
        have hsame : 0 < d.sign * Q := by
          cases d <;> cases d' <;> simp only [Side.sign, one_mul, neg_mul, Left.neg_neg_iff, Left.neg_pos_iff] at *
          · rw [abs_of_neg hclose] at hle
            linarith
          · exact hclose
          · exact hclose
          · rw [abs_of_pos hclose] at hle
            linarith
        show s'.PriceWithin d o.symbol (PositionCalc.calculatePosition o q _ e.state).averagePrice
        rw [PositionCalc.calculatePosition_averagePrice_reduces hd _ hclose hle hne]
        exact (h.within d o.symbol hsame).append hfills
      · -- the position is turned around at the fill's price
        have hside : 0 < d'.sign * (Q + d'.sign * q) := by
          cases d' <;> simp only [Side.sign, one_mul, neg_mul, Left.neg_neg_iff] at hclose ⊢
          · rw [abs_of_neg hclose] at hlt
            linarith
          · rw [abs_of_pos hclose] at hlt
            linarith
        obtain rfl := Side.eq_of_sign_pos hside hpos
        show s'.PriceWithin d o.symbol (PositionCalc.calculatePosition o q _ e.state).averagePrice
        rw [PositionCalc.calculatePosition_averagePrice_turns hd _ hclose hlt hne]
        have hnew : (success o hp e.state (createUuid e.uuidCount)).fill ∈ s'.fills := by simp [hfills]
        exact ⟨⟨_, hnew, rfl, hfill, le_rfl⟩, _, hnew, rfl, hfill, le_rfl⟩
  · have hb : o.isBuy = false := Bool.eq_false_iff.2 fun hb => hon ⟨.buy, hb⟩
    have hs : o.isSell = false := Bool.eq_false_iff.2 fun hs => hon ⟨.sell, hs⟩
    have hposition : (success o hp e.state (createUuid e.uuidCount)).position.quantity =
        if |Q| < Constants.epsilon then 0 else Q := PositionCalc.calculatePosition_quantity_unknown hb hs _ _
    rw [hposition] at hpos
    split at hpos
    · rw [mul_zero] at hpos
      exact absurd hpos (lt_irrefl _)
    · rename_i hne
      show s'.PriceWithin d o.symbol (PositionCalc.calculatePosition o q _ e.state).averagePrice
      rw [PositionCalc.calculatePosition_averagePrice_unknown hb hs _ hne]
      exact (h.within d o.symbol hpos).append hfills

private theorem carriedWithin_update (hw : hp.fractional = false) (hreg : Registered createUuid e)
    (hwhole : WholeShares e.state) (h : e.state.CarriedWithin) : (execute createUuid hp e o).state.CarriedWithin := by
  rcases execute_cases createUuid hp e o with he | ha
  · rw [he]; exact h
  rw [execute_accepted ha]
  set r := success o hp e.state (createUuid e.uuidCount)
  have hsym : r.position.symbol = r.fill.symbol :=
    PositionCalc.calculatePosition_symbol (fun p hp => (hreg.positions _ p hp).1) _ _
  have hfills := (updateState_booking (s := e.state) (r := r) rfl).fills
  refine ⟨fun symbol hzero => ?_, fun d symbol hpos => ?_⟩
  · show (e.state.updateState r).averagePrice symbol = 0
    replace hzero : (e.state.updateState r).positionQuantity symbol = 0 := hzero
    rw [updateState_positionQuantity hsym] at hzero
    rw [updateState_averagePrice hsym]
    split at hzero
    · rename_i heq
      rw [if_pos heq, if_pos hzero]
    · rename_i heq
      rw [if_neg heq]
      exact h.flat symbol hzero
  · show (e.state.updateState r).PriceWithin d symbol ((e.state.updateState r).averagePrice symbol)
    replace hpos : 0 < d.sign * (e.state.updateState r).positionQuantity symbol := hpos
    rw [updateState_positionQuantity hsym] at hpos
    rw [updateState_averagePrice hsym]
    split at hpos
    · rename_i heq
      have hne : r.position.quantity ≠ 0 := fun h0 => by
        rw [h0, mul_zero] at hpos
        exact lt_irrefl _ hpos
      rw [if_pos heq, if_neg hne, heq]
      exact priceWithin_success hw hreg hwhole h ha hfills hpos
    · rename_i heq
      rw [if_neg heq]
      exact (h.within d symbol hpos).append hfills

/-- Without fractional shares every position is carried at a price between those of two fills of its symbol on its
side, whatever the plugin does. -/
theorem averagePrice_within_fills (hinj : Function.Injective createUuid) (hw : hp.fractional = false)
    (hr : Reachable createUuid hp feed c) {d : Side} {symbol : Symbol}
    (hpos : 0 < d.sign * c.engine.state.positionQuantity symbol) :
    (∃ f ∈ c.engine.state.fills, f.symbol = symbol ∧ f.isOn d = true ∧ f.price ≤ c.engine.state.averagePrice symbol) ∧
      ∃ f ∈ c.engine.state.fills, f.symbol = symbol ∧ f.isOn d = true ∧
        c.engine.state.averagePrice symbol ≤ f.price := by
  have hG : ExecutionsMeet createUuid hp feed c fun e _ => Registered createUuid e ∧ WholeShares e.state := by
    refine executionsMeet_of_account (J := fun e => Registered createUuid e ∧ WholeShares e.state) ?_
      fun _ hr => ⟨registered hinj hr, wholeShares hinj hw hr⟩
    rintro e e' hs ⟨hreg, hwhole⟩
    exact ⟨hreg.sameLedger hs.sameLedger, hs.state ▸ hwhole⟩
  have hcarried : c.engine.state.CarriedWithin := by
    refine reachable_ledger (J := fun e => e.state.CarriedWithin) ?_ ?_
      (fun e o h hG => carriedWithin_update hw hG.1 hG.2 h) hG hr
    · refine ⟨fun _ _ => rfl, fun d symbol hpos => ?_⟩
      rw [show (start hp feed).engine.state.positionQuantity symbol = 0 from rfl, mul_zero] at hpos
      exact absurd hpos (lt_irrefl _)
    · intro e e' hs h
      refine ⟨fun symbol => ?_, fun d symbol => ?_⟩
      · rw [positionQuantity, averagePrice, hs.positions]
        exact h.flat symbol
      · rw [positionQuantity, averagePrice, PriceWithin, hs.positions, hs.fills]
        exact h.within d symbol
  exact hcarried.within d symbol hpos

/-- Two shares at 10 and one at 11 are carried at 10.333333. -/
theorem averagePrice_within_fills_blend :
    let c := sampleRun sampleParams
      (sampleFeed "A" 1000 [(10, "buy", 2), (10, "buy", 1), (11, "sell", 0)]) 40
    c.engine.state.averagePrice "A" = 10333333 ∧
      (∃ f ∈ c.engine.state.fills, f.symbol = "A" ∧ f.isOn .buy = true ∧ f.price ≤ c.engine.state.averagePrice "A") ∧
        ∃ f ∈ c.engine.state.fills, f.symbol = "A" ∧ f.isOn .buy = true ∧
          c.engine.state.averagePrice "A" ≤ f.price :=
  ⟨by decide +kernel, averagePrice_within_fills sampleUuid_injective rfl (reachable_sampleRun _ _ _)
    (by decide +kernel)⟩

end BackTestEngine

end QuantForge
