import QuantForge.Divisors
import QuantForge.Registry

/-!
# What the running margin total loses

`margin_in_use_` is a running total.  A partial close takes the released share of the margin of a lot off it, and
erases the margin entry of the lot when at most `EPSILON` dollars of it are left; the total keeps these dollars for
ever.  So it is never below the sum of the entries, which is what `recalculate_margin_in_use` returns, and above it by
at most `EPSILON` dollars for every fill that has no entry any more.
-/

namespace QuantForge

/-- A part of an amount that is not negative is between nothing and all of it. -/
theorem Money.mul_div_mem {m : Money} {c a : ℚ} (hm : 0 ≤ m) (hc : 0 ≤ c) (hca : c ≤ a) :
    0 ≤ Money.mul m (c / a) ∧ Money.mul m (c / a) ≤ m := by
  have h0 := Money.mul_le_mul hm (div_nonneg hc (hc.trans hca))
  have h1 := Money.mul_le_mul hm (div_le_one_of_le₀ hca (hc.trans hca))
  rw [Money.mul_zero] at h0
  rw [Money.mul_one] at h1
  exact ⟨h0, h1⟩

namespace State

/-- The number of fills with a margin. -/
def marginEntries (s : State) : ℤ := s.activeMarginForFills.sumBy fun _ _ => 1

/-- No margin is negative, and the running total is above the sum of the margins by at most `EPSILON` dollars for
every one of `n` fills without a margin. -/
structure MarginDrift (s : State) (n : ℤ) : Prop where
  nonneg : ∀ u m, s.activeMarginForFills.lookup u = some m → 0 ≤ m
  lower : s.recalculateMarginInUse ≤ s.marginInUse
  upper : s.marginInUse ≤ s.recalculateMarginInUse + 100 * (n - s.marginEntries)

variable {s s' : State} {u : Uuid} {m : Money} {a c : ℚ} {n n' : ℤ}

theorem MarginDrift.congr (h : s.MarginDrift n) (hm : s'.activeMarginForFills = s.activeMarginForFills)
    (hu : s'.marginInUse = s.marginInUse) (hn : n ≤ n') : s'.MarginDrift n' := by
  have hupper := h.upper
  refine ⟨by rw [hm]; exact h.nonneg, ?_, ?_⟩
  · rw [hu, recalculateMarginInUse, hm]
    exact h.lower
  · rw [hu, recalculateMarginInUse, marginEntries, hm]
    unfold recalculateMarginInUse marginEntries at hupper
    linarith

/-- What a margin loses in a close is between nothing and all of it, and when its entry is erased, at most `EPSILON`
dollars stay in the total. -/
theorem MarginDrift.closeLot (h : s.MarginDrift n) (side : Side) (u : Uuid) (hc : 0 ≤ c) (hca : c ≤ a) :
    (s.closeLot side u a c).MarginDrift n := by
  rcases hu : s.activeMarginForFills.lookup u with _ | m
  · refine h.congr ?_ ?_ le_rfl
    · rw [closeLot_margin, hu]
    · rw [closeLot_marginInUse, hu, sub_zero]
  obtain ⟨hpos, hle⟩ := Money.mul_div_mem (h.nonneg u m hu) hc hca
  have hsum := Map.sumBy_of_lookup (fun _ m => m) hu
  have hcount := Map.sumBy_of_lookup (fun _ _ => (1 : ℤ)) hu
  have hlower := h.lower
  have hupper := h.upper
  have htotal := closeLot_marginInUse s side u a c
  have hmargins := closeLot_margin s side u a c
  simp only [hu] at htotal hmargins
  unfold recalculateMarginInUse at hlower
  unfold recalculateMarginInUse marginEntries at hupper
  have hnonneg : ∀ v k, (s.closeLot side u a c).activeMarginForFills.lookup v = some k → 0 ≤ k := by
    intro v k hv
    rw [closeLot_margin_lookup] at hv
    split at hv
    · rw [hu, Option.bind_some, marginAfter] at hv
      split at hv
      · cases hv
      · cases hv
        exact sub_nonneg.2 hle
    · exact h.nonneg v k hv
  by_cases hleft : Money.toDollars (m - Money.mul m (c / a)) ≤ Constants.epsilon
  · -- the entry goes, and what was left of it stays in the total
    have hcents := Money.toDollars_le_epsilon.1 hleft
    simp only [marginAfter, if_pos hleft] at hmargins
    refine ⟨hnonneg, ?_, ?_⟩
    · rw [htotal, recalculateMarginInUse, hmargins]
      linarith
    · rw [htotal, recalculateMarginInUse, marginEntries, hmargins]
      linarith
  · simp only [marginAfter, if_neg hleft] at hmargins
    refine ⟨hnonneg, ?_, ?_⟩
    · rw [htotal, recalculateMarginInUse, hmargins, Map.sumBy_insert]
      linarith
    · rw [htotal, recalculateMarginInUse, marginEntries, hmargins, Map.sumBy_insert, Map.sumBy_insert]
      linarith

/-- A lot opened under a new uuid brings its margin into the total, and one entry for one fill. -/
theorem MarginDrift.openLot (h : s.MarginDrift n) (hu : s.activeMarginForFills.lookup u = none) (hm : 0 ≤ m)
    (hmargin : s'.activeMarginForFills = s.activeMarginForFills.insert u m)
    (htot : s'.marginInUse = s.marginInUse + m) : s'.MarginDrift (n + 1) := by
  have hlower := h.lower
  have hupper := h.upper
  unfold recalculateMarginInUse at hlower
  unfold recalculateMarginInUse marginEntries at hupper
  refine ⟨fun v k hv => ?_, ?_, ?_⟩
  · rw [hmargin, Map.lookup_insert_eq] at hv
    split at hv
    · cases hv
      exact hm
    · exact h.nonneg v k hv
  · rw [htot, recalculateMarginInUse, hmargin, Map.sumBy_insert_of_notMem _ hu]
    linarith
  · rw [htot, recalculateMarginInUse, marginEntries, hmargin, Map.sumBy_insert_of_notMem _ hu,
      Map.sumBy_insert_of_notMem _ hu]
    linarith

end State

namespace Executor

variable {o : Order} {hp : HostParams} {s : State} {uuid : Uuid}

/-- An accepted order at a price that is not negative needs no negative margin. -/
theorem marginRequired_nonneg (ha : Accepted o hp s uuid) (hprice : 0 ≤ calculateFillPrice o s) :
    0 ≤ marginRequired o hp s := by
  unfold marginRequired
  split
  · rename_i hopen
    have hlev : 1 ≤ orderLeverage o := by
      have hm := ha.margin
      unfold validateMargin at hm
      by_contra hlt
      have hlt' : o.leverage.getD 1 < 1 := not_le.1 hlt
      simp only [hlt', if_true] at hm
      split at hm <;> cases hm
    have hvalue : 0 ≤ Money.toDollars (calculateFillPrice o s) * positionOpeningQuantity o hp s := by
      refine mul_nonneg ?_ (Constants.epsilon_pos.trans hopen).le
      have := Money.toDollars_mono hprice
      rwa [Money.toDollars, Int.cast_zero, zero_div] at this
    have hmax := le_max_of_le_left (c := Money.toDollars (calculateFillPrice o s) *
      positionOpeningQuantity o hp s * hp.initialMarginPct.getD 1) (div_nonneg hvalue (zero_le_one.trans hlev))
    have := Money.fromDollars_mono hmax
    rwa [Money.fromDollars, zero_mul, Rounding.roundAway_zero] at this
  · exact le_rfl

end Executor

namespace BackTestEngine

open Executor

variable {createUuid : ℕ → Uuid} {hp : HostParams} {feed : List FeedItem} {c : Config}

/-- An accepted order that its bar triggers has no negative price: it is filled at the close or at its limit, and the
limit of a buy order is not below the low. -/
theorem calculateFillPrice_nonneg {e : BackTestEngine} {o : Order} {uuid : Uuid}
    (hbars : ∀ b ∈ e.processed, 0 ≤ b.low ∧ 0 ≤ b.close) (hm : MarketData e)
    (hreach : ReachesLimit (e.state.symbolPrices o.symbol) o) (ha : Accepted o hp e.state uuid) :
    0 ≤ calculateFillPrice o e.state := by
  rcases hlast : lastBarOf o.symbol e.processed with _ | ⟨b, k⟩
  · have hnone := ha.prices
    rw [State.hasSymbolPrices, hm.prices, hlast] at hnone
    cases hnone
  obtain ⟨hprice, hreach⟩ :
      (success o hp e.state uuid).fill.price = fillPriceAt o b.prices.close ∧ ReachesLimit b.prices o :=
    priced_by_lastBar hm hreach hlast uuid
  have hzero : Money.fromDollars 0 = 0 := by decide +kernel
  obtain ⟨hlow, hclose⟩ := hbars b (lastBarOf_mem hlast)
  have hlow' : 0 ≤ b.prices.low := hzero ▸ Money.fromDollars_mono hlow
  have hclose' : 0 ≤ b.prices.close := hzero ▸ Money.fromDollars_mono hclose
  change calculateFillPrice o e.state = _ at hprice
  rw [hprice]
  unfold fillPriceAt
  rcases hlimit : o.limitPrice with _ | limit
  · exact hclose'
  · dsimp only
    by_cases hlim : o.isLimitOrder = true
    · have hl := hreach hlim limit hlimit
      rw [if_pos hlim]
      split
      · rename_i hb
        rw [if_pos hb] at hl
        exact le_min (hlow'.trans hl) hclose'
      · exact le_max_of_le_right hclose'
    · rw [if_neg hlim]
      exact hclose'

/-- An accepted execution keeps the drift within its bound. -/
private theorem marginDrift_update {e : BackTestEngine} {o : Order} (hinj : Function.Injective createUuid)
    (hreg : Registered createUuid e) (hlots : e.state.PositiveLots) (h : e.state.MarginDrift e.state.fills.length)
    (hq : 0 < fillableQuantity o hp e.state) (hmargin : 0 ≤ marginRequired o hp e.state) :
    (e.state.updateState (success o hp e.state (createUuid e.uuidCount))).MarginDrift (e.state.fills.length + 1) := by
  have hspec : ∀ t ∈ e.state.taken o.side.opposite o.symbol
      (e.state.closing o.side o.symbol (fillableQuantity o hp e.state)), True ∧ True ∧ 0 < t.2.2 ∧ t.2.2 ≤ t.2.1 :=
    Fifo.takes_spec (W := fun _ => True) (fun _ _ _ _ => trivial) Constants.epsilon_pos.le
      (fun l hl => ⟨trivial, hlots _ _ _ (State.mem_lotsIn.1 hl).2.2.2⟩) trivial
  obtain ⟨hclosed, -, hnew⟩ := hreg.closeLots_induction hp hinj (o := o) rfl
    (P := fun s => s.MarginDrift e.state.fills.length) (h.congr rfl rfl le_rfl)
    (by
      intro s' p hp' _ _ _ hP
      obtain ⟨-, -, hpos, hle⟩ := hspec p hp'
      exact hP.closeLot _ _ hpos.le hle)
  have hm := State.updateState_margin (d := o.side) (s := e.state)
    (r := success o hp e.state (createUuid e.uuidCount)) rfl
  have hopened : e.state.opened o.side (success o hp e.state (createUuid e.uuidCount)).fill.symbol
      (success o hp e.state (createUuid e.uuidCount)).fill.quantity =
      e.state.opened o.side o.symbol (fillableQuantity o hp e.state) := rfl
  rw [hopened] at hm
  rcases ho : e.state.opened o.side o.symbol (fillableQuantity o hp e.state) with _ | q
  · rw [ho] at hm
    exact hclosed.congr hm.1 hm.2.2 (by linarith)
  · rw [ho] at hm
    refine hclosed.openLot hnew ?_ hm.1 hm.2.2
    have hq' : 0 < q := State.FillsOrCloses.opened_pos (Or.inl hq) ho
    have := Money.mul_le_mul hmargin (div_nonneg hq'.le hq.le)
    rwa [Money.mul_zero] at this

/-- In every run over bars without negative prices whose executions fill shares, the running total is not below the
sum of the margins of the lots, and above it by at most `EPSILON` dollars for every fill that has no margin entry. -/
theorem marginInUse_drift (hinj : Function.Injective createUuid)
    (hbars : ∀ item ∈ feed, 0 ≤ item.bar.low ∧ 0 ≤ item.bar.close)
    (hq : ExecutionsMeet createUuid hp feed c fun e o =>
      Accepted o hp e.state (createUuid e.uuidCount) → 0 < fillableQuantity o hp e.state)
    (hr : Reachable createUuid hp feed c) :
    c.engine.state.recalculateMarginInUse ≤ c.engine.state.marginInUse ∧
      c.engine.state.marginInUse ≤ c.engine.state.recalculateMarginInUse +
        100 * (c.engine.state.fills.length - c.engine.state.marginEntries) := by
  have hreg : ExecutionsMeet createUuid hp feed c fun e _ => Registered createUuid e :=
    executionsMeet_of_account (fun _ _ hs h => h.sameLedger hs.sameLedger) fun _ hr => registered hinj hr
  have hprices : ExecutionsMeet createUuid hp feed c fun e _ => ∀ b ∈ e.processed, 0 ≤ b.low ∧ 0 ≤ b.close := by
    refine executionsMeet_of_account (J := fun e => ∀ b ∈ e.processed, 0 ≤ b.low ∧ 0 ≤ b.close)
      (fun e e' hs h => by rw [hs.processed]; exact h) fun c' hr' b hb => ?_
    obtain ⟨item, hitem, rfl⟩ := processed_of_feed hr' b hb
    exact hbars item hitem
  have key := reachable_ledger (J := fun e => e.state.PositiveLots ∧ e.state.MarginDrift e.state.fills.length)
    ?_ ?_ ?_ (((hq.and hreg).and hprices).and (executionsMeet_triggered c)) hr
  · exact ⟨key.2.lower, key.2.upper⟩
  · refine ⟨fun side u a ha => ?_, fun u m hm => ?_, le_rfl, le_rfl⟩
    · cases side <;> cases ha
    · cases hm
  · rintro e e' hs ⟨hlots, hdrift⟩
    refine ⟨fun side u a ha => ?_, hdrift.congr hs.activeMarginForFills hs.marginInUse ?_⟩
    · rw [hs.active] at ha
      exact hlots side u a ha
    · rw [hs.fills]
  · rintro e o ⟨hlots, hdrift⟩ ⟨⟨⟨hq, hreg⟩, hprices⟩, hm, hreach⟩
    rcases execute_state createUuid hp e o with he | ⟨ha, he⟩
    · rw [he]
      exact ⟨hlots, hdrift⟩
    · rw [he]
      have hnonneg := marginRequired_nonneg ha (calculateFillPrice_nonneg hprices hm hreach ha)
      refine ⟨hlots.updateState (Or.inl (hq ha)), ?_⟩
      rw [(State.updateState_booking rfl).fills, List.length_append, List.length_singleton,
        Nat.cast_add, Nat.cast_one]
      exact marginDrift_update hinj hreg hlots hdrift (hq ha) hnonneg

/-- Of a share at a dollar 0.99995 are sold: the lot and its entry are gone, 50 microdollars stay. -/
theorem marginInUse_drift_residue :
    let c := sampleRun { sampleParams with allowFractionalShares := some true }
      (sampleFeed "A" 1000 [(1, "buy", 1), (1, "sell", 99995 / 100000), (1, "sell", 0)]) 40
    c.engine.state.marginInUse = 50 ∧ c.engine.state.recalculateMarginInUse = 0 ∧
      c.engine.state.recalculateMarginInUse ≤ c.engine.state.marginInUse ∧
      c.engine.state.marginInUse ≤ c.engine.state.recalculateMarginInUse +
        100 * (c.engine.state.fills.length - c.engine.state.marginEntries) := by
  refine ⟨by decide +kernel, by decide +kernel, ?_⟩
  refine marginInUse_drift sampleUuid_injective (by decide +kernel) ?_ (reachable_sampleRun _ _ _)
  refine (executionsMeet_sampleRun (G := fun e o => 0 < o.quantity → 0 < fillableQuantity o
    { sampleParams with allowFractionalShares := some true } e.state) (le_refl 40)
    (Option.isNone_iff_eq_none.1 (by decide +kernel)) (by decide +kernel)).mono ?_
  exact fun _ _ _ _ _ h ha => h ha.quantity_pos

end BackTestEngine

end QuantForge
