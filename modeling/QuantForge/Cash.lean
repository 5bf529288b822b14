import QuantForge.LotValue
import QuantForge.WalksAgree

/-!
# Cash over whole runs

Cash and margin together are the initial capital, plus what sells brought in, less what buys cost, less commissions,
plus what the open lots cost (`CashLaw.law`).  When the account is flat no lot is left, and cash alone makes up the
sum as long as the margin in use has returned to zero.  It does unless an execution crosses zero (its margin is
charged in full but only the share of the new lot is recorded) or a partial close leaves between nothing and `EPSILON`
dollars of margin on a lot (the entry is erased and the rest never released).
-/

namespace QuantForge

namespace BackTestEngine

open Executor

variable {createUuid : ℕ → Uuid} {hp : HostParams} {feed : List FeedItem} {c : Config}
  {e : BackTestEngine} {o : Order} {d : Side}

/-- A fill of `q` shares carries the position from one side across zero to the other. -/
def CrossesZero (s : State) (d : Side) (symbol : Symbol) (q : ℚ) : Prop :=
  d.sign * s.positionQuantity symbol < 0 ∧ |s.positionQuantity symbol| < q

instance (s : State) (d : Side) (symbol : Symbol) (q : ℚ) : Decidable (CrossesZero s d symbol q) :=
  inferInstanceAs (Decidable (_ ∧ _))

/-- The order, executed now, loses no margin: if it crosses zero, the share of the new lot in its margin is all of it,
and no lot it touches loses margin. -/
def ConservesMargin (hp : HostParams) (e : BackTestEngine) (o : Order) : Prop :=
  (CrossesZero e.state o.side o.symbol (fillableQuantity o hp e.state) →
    Money.mul (marginRequired o hp e.state)
      (positionOpeningQuantity o hp e.state / fillableQuantity o hp e.state) = marginRequired o hp e.state) ∧
    ∀ t ∈ e.state.taken o.side.opposite o.symbol (e.state.closing o.side o.symbol (fillableQuantity o hp e.state)),
      ∀ m ∈ e.state.activeMarginForFills.lookup t.1.uuid, State.LosesNoMargin t.2.1 t.2.2 m

instance (hp : HostParams) (e : BackTestEngine) (o : Order) : Decidable (ConservesMargin hp e o) :=
  inferInstanceAs (Decidable (_ ∧ _))

/-- Where the money is. -/
structure CashLaw (hp : HostParams) (s : State) : Prop where
  law : (s.cash : ℚ) + s.marginInUse =
    hp.initialCapital + (tradeValue .sell s.fills - tradeValue .buy s.fills) - commissions hp s.fills +
      (s.openValue .buy - s.openValue .sell)
  backed : s.MarginBacked

/-- The law, seen from one side. -/
private theorem law_iff (d : Side) (s : State) :
    (s.cash : ℚ) + s.marginInUse =
      hp.initialCapital + (tradeValue .sell s.fills - tradeValue .buy s.fills) - commissions hp s.fills +
        (s.openValue .buy - s.openValue .sell) ↔
      (s.cash : ℚ) + s.marginInUse = hp.initialCapital - commissions hp s.fills +
        d.sign * ((s.openValue d - tradeValue d s.fills) -
          (s.openValue d.opposite - tradeValue d.opposite s.fills)) := by
  constructor <;> intro h <;> rw [h] <;> cases d <;> simp only [Side.sign, Side.opposite] <;> ring

section Update

variable (hinj : Function.Injective createUuid) (hw : hp.fractional = false) (hreg : Registered createUuid e)
  (hQ : IsWhole (e.state.positionQuantity o.symbol)) (hlots : e.state.LotStore)
  (ha : Accepted o hp e.state (createUuid e.uuidCount)) (hd : o.isOn d = true)

include hw hQ hd in
/-- The margin recorded for the new lot is the margin charged, unless the order crosses zero. -/
private theorem recorded_margin
    (hcross : CrossesZero e.state d o.symbol (fillableQuantity o hp e.state) →
      Money.mul (marginRequired o hp e.state)
        (positionOpeningQuantity o hp e.state / fillableQuantity o hp e.state) = marginRequired o hp e.state) :
    openedMargin o hp e.state d = marginRequired o hp e.state := by
  cases e.state.tradeCase d hQ (fillableQuantity_whole (o := o) (s := e.state) hw) with
  | opens hle _ _ => exact openedMargin_eq hd (Or.inl hle)
  | reduces _ hle _ _ => exact openedMargin_eq hd (Or.inr hle)
  | crosses hneg hlt hc ho =>
    rw [openedMargin, ho]
    have := hcross ⟨hneg, hlt⟩
    rwa [positionOpeningQuantity_eq hd, hc] at this

include hw hreg hQ hd in
/-- Cash and margin together change by the profit realized less the commission. -/
theorem cash_add_margin
    (hcross : CrossesZero e.state d o.symbol (fillableQuantity o hp e.state) →
      Money.mul (marginRequired o hp e.state)
        (positionOpeningQuantity o hp e.state / fillableQuantity o hp e.state) = marginRequired o hp e.state) :
    (e.state.updateState (success o hp e.state (createUuid e.uuidCount))).cash +
        (e.state.updateState (success o hp e.state (createUuid e.uuidCount))).marginInUse =
      e.state.cash + e.state.marginInUse +
        State.realizedPnl d.opposite (calculateFillPrice o e.state)
          (e.state.taken d.opposite o.symbol (e.state.closing d o.symbol (fillableQuantity o hp e.state))) -
        commission o hp e.state (createUuid e.uuidCount) := by
  rw [cash_add_marginInUse hd hreg.nodup, recorded_margin hw hQ hd hcross]
  ring

variable (hp) in
include hinj hreg hd in
private theorem openValue_same :
    (e.state.updateState (success o hp e.state (createUuid e.uuidCount))).openValue d =
      e.state.openValue d + calculateFillPrice o e.state *
        (e.state.opened d o.symbol (fillableQuantity o hp e.state)).getD 0 := by
  set r := success o hp e.state (createUuid e.uuidCount) with hr
  have hfd : r.fill.isOn d = true := by cases d <;> exact hd
  have hfills := (State.updateState_booking (s := e.state) (r := r) rfl).fills
  have hold : ∀ v a, (e.state.active d).lookup v = some a →
      ((e.state.updateState r).priceOf v : ℚ) * a = e.state.priceOf v * a := by
    intro v a hv
    obtain ⟨f, hf, hu, -⟩ := hreg.keys d v (Option.isSome_of_eq_some hv)
    rw [State.priceOf_append hfills v (hu ▸ List.mem_map_of_mem hf)]
  have hnew : (e.state.updateState r).priceOf r.fill.uuid = calculateFillPrice o e.state := by
    have hfresh : r.fill.uuid ∉ e.state.fills.map Fill.uuid := hreg.fresh hinj
    have hnd : ((e.state.updateState r).fills.map Fill.uuid).Nodup := by
      rw [hfills, List.map_append]
      exact hreg.nodup.append (List.nodup_singleton _) (by simpa using hfresh)
    exact State.priceOf_of_mem hnd (by rw [hfills]; simp)
  have hact := State.updateState_active_same (s := e.state) hfd
  rcases ho : e.state.opened d o.symbol (fillableQuantity o hp e.state) with _ | q
  · rw [show e.state.opened d r.fill.symbol r.fill.quantity = none from ho] at hact
    unfold State.openValue
    rw [hact, Map.sumBy_congr hold]
    simp
  · rw [show e.state.opened d r.fill.symbol r.fill.quantity = some q from ho] at hact
    unfold State.openValue
    dsimp only at hact
    have hnone : (e.state.active d).lookup r.fill.uuid = none := hreg.active_fresh hinj d
    rw [hact, Map.sumBy_insert_of_notMem _ hnone, hnew, Map.sumBy_congr hold]
    simp [add_comm]

include hw hreg hlots hd in
private theorem openValue_opposite :
    (e.state.updateState (success o hp e.state (createUuid e.uuidCount))).openValue d.opposite =
      e.state.openValue d.opposite -
        ((e.state.taken d.opposite o.symbol (e.state.closing d o.symbol (fillableQuantity o hp e.state))).map
          fun p => (p.1.price : ℚ) * p.2.2).sum := by
  set r := success o hp e.state (createUuid e.uuidCount) with hr
  have hfd : r.fill.isOn d = true := by cases d <;> exact hd
  have hside := Fill.side_of_isOn hfd
  have hfills := (State.updateState_booking (s := e.state) (r := r) rfl).fills
  set t := e.state.taken d.opposite o.symbol (e.state.closing d o.symbol (fillableQuantity o hp e.state)) with ht
  have hmem : ∀ p ∈ t, p.1 ∈ e.state.fills ∧ (e.state.active d.opposite).lookup p.1.uuid = some p.2.1 := by
    intro p hp'
    have := State.mem_lotsIn.1 (State.mem_lots_of_mem_taken hp')
    exact ⟨this.1, this.2.2.2⟩
  have hspec := hlots.taken_spec d.opposite o.symbol
    (hlots.isWhole_closing d o.symbol (fillableQuantity_whole (o := o) (s := e.state) hw))
  have hprice : ∀ v, (e.state.updateState r).priceOf v = (e.state.closeLots r d).priceOf v := by
    intro v
    unfold State.priceOf
    rw [hfills, (State.closeLots_frame e.state r d).fills]
    rfl
  -- the price of an old fill is found before the new fill is looked at
  have hrecord : ∀ v ∈ e.state.fills.map Fill.uuid, (e.state.recordFill r).priceOf v = e.state.priceOf v :=
    State.priceOf_append rfl
  have hfold := State.foldl_closeLot_openValue (e.state.recordFill r) d.opposite (t := t)
    (State.taken_uuids_nodup _ _ _ _ hreg.nodup) (fun p hp' => by rw [State.active_recordFill]; exact (hmem p hp').2)
    (fun p hp' => ⟨(hspec p hp').1, (hspec p hp').2.1, (hspec p hp').2.2.2⟩)
  have hopen : (e.state.updateState r).openValue d.opposite = (e.state.closeLots r d).openValue d.opposite := by
    unfold State.openValue
    simp only [hprice, State.updateState_active_opposite hside]
  have hstart : (e.state.recordFill r).openValue d.opposite = e.state.openValue d.opposite := by
    unfold State.openValue
    rw [State.active_recordFill]
    apply Map.sumBy_congr
    intro v a hv
    obtain ⟨f, hf, hu, -⟩ := hreg.keys _ v (Option.isSome_of_eq_some hv)
    rw [hrecord v (hu ▸ List.mem_map_of_mem hf)]
  rw [hopen, State.closeLots_eq_foldl hside hreg.nodup]
  refine hfold.trans ?_
  rw [hstart]
  congr 2
  apply List.map_congr_left
  intro p hp'
  rw [hrecord _ (List.mem_map_of_mem (hmem p hp').1), State.priceOf_of_mem hreg.nodup (hmem p hp').1]

include hinj hw hreg hlots hd in
private theorem marginBacked_update (h : e.state.MarginBacked)
    (hlost : ∀ t ∈ e.state.taken d.opposite o.symbol (e.state.closing d o.symbol (fillableQuantity o hp e.state)),
      ∀ m ∈ e.state.activeMarginForFills.lookup t.1.uuid, State.LosesNoMargin t.2.1 t.2.2 m) :
    (e.state.updateState (success o hp e.state (createUuid e.uuidCount))).MarginBacked := by
  have hspec := hlots.taken_spec d.opposite o.symbol
    (hlots.isWhole_closing d o.symbol (fillableQuantity_whole (o := o) (s := e.state) hw))
  obtain ⟨hbacked, -, hnew⟩ := hreg.closeLots_induction hp hinj (Order.side_of_isOn hd) (P := State.MarginBacked)
    ⟨h.total, fun u => by simp only [State.active_recordFill]; exact h.keys u⟩
    (by
      intro s' p hp' _ hm _ hbacked
      obtain ⟨h1, h2, h3, h4⟩ := hspec p hp'
      exact hbacked.closeLot h1 h2 h3 h4 (by rw [hm]; exact hlost p hp'))
  set r := success o hp e.state (createUuid e.uuidCount)
  have hfd : r.fill.isOn d = true := by cases d <;> exact hd
  rcases State.updateState_maps_cases (s := e.state) hfd with ⟨hall, hm, -, hu⟩ | ⟨q, m, hact, hopp, hm, -, hu⟩
  · refine ⟨?_, fun u hu => ?_⟩
    · rw [hu, State.recalculateMarginInUse, hm]
      exact hbacked.total
    · rw [hm] at hu
      simp only [hall]
      exact hbacked.keys u hu
  · exact hbacked.openLot hnew hact hopp hm hu

include hinj hw hreg hlots ha hd in
/-- An execution that loses no margin keeps the law. -/
private theorem cashLaw_update (h : CashLaw hp e.state) (hG : ConservesMargin hp e o) :
    CashLaw hp (e.state.updateState (success o hp e.state (createUuid e.uuidCount))) := by
  obtain ⟨hcross, hlost⟩ := hG
  rw [Order.side_of_isOn hd] at hcross hlost
  have hQ := hlots.isWhole_quantity o.symbol
  have hsum := cash_add_margin hw hreg hQ hd hcross
  have hsame := openValue_same hp hinj hreg hd
  have hopposite := openValue_opposite hw hreg hlots hd
  have hq := fillableQuantity_whole (o := o) (s := e.state) hw
  have hq0 : 0 ≤ fillableQuantity o hp e.state := zero_le_one.trans (one_le_fillableQuantity hw ha)
  have hcw := hlots.isWhole_closing d o.symbol hq
  have hspec := hlots.taken_spec d.opposite o.symbol hcw
  have htotal := hlots.taken_total d.opposite o.symbol hcw (State.closing_nonneg hq0)
    (hlots.closing_le_total d o.symbol _)
  have hpnl := State.cast_realizedPnl (d := d) (calculateFillPrice o e.state) fun p hp' => (hspec p hp').2.1
  rw [htotal] at hpnl
  set r := success o hp e.state (createUuid e.uuidCount) with hr
  have hfd : r.fill.isOn d = true := by cases d <;> exact hd
  have hb := State.updateState_booking (s := e.state) (r := r) rfl
  have hcomm : Exchange.calculateCommision r.fill hp = commission o hp e.state (createUuid e.uuidCount) := rfl
  have hopenq := e.state.opened_getD d hQ hq
  refine ⟨(law_iff d _).2 ?_, marginBacked_update hinj hw hreg hlots hd h.backed hlost⟩
  have hlaw := (law_iff d _).1 h.law
  have hsumq := congrArg (Int.cast : ℤ → ℚ) hsum
  push_cast at hsumq
  rw [hsumq, hlaw, hpnl, hsame, hopposite, hopenq, hb.fills, tradeValue_append_same hfd,
    tradeValue_append_opposite hfd, commissions_append, hcomm]
  show _ = _ - (_ + _) + d.sign * (_ - (_ + (calculateFillPrice o e.state : ℚ) * fillableQuantity o hp e.state) - _)
  ring

end Update

/-- Cash is what the trades left of the initial capital. -/
def CashConserved (hp : HostParams) (s : State) : Prop :=
  (s.cash : ℚ) =
    hp.initialCapital + tradeValue .sell s.fills - tradeValue .buy s.fills - commissions hp s.fills

instance (hp : HostParams) (s : State) : Decidable (CashConserved hp s) :=
  inferInstanceAs (Decidable (_ = _))

/-- Without positions there are no lots, no margins, and all money is cash. -/
private theorem CashLaw.conserved {s : State} (h : CashLaw hp s) (hlots : s.LotStore)
    (hkeys : ∀ d u, ((s.active d).lookup u).isSome → ∃ f ∈ s.fills, f.uuid = u ∧ f.isOn d = true)
    (hflat : s.positions = ∅) : CashConserved hp s := by
  have hnil : ∀ d symbol, s.lots d symbol = [] := by
    intro d symbol
    have hQ : s.positionQuantity symbol = 0 := by rw [State.positionQuantity, hflat]; rfl
    have hs := hlots.signed symbol d
    rw [hQ, mul_zero] at hs
    by_contra hne
    have hpos := Fifo.total_pos (fun l hl => (hlots.whole symbol d l hl).2) hne
    have := (hlots.oneSided symbol d).resolve_left hne
    rw [this, Fifo.total_nil] at hs
    linarith
  have hactive : ∀ d, s.active d = ∅ := by
    intro d
    apply Map.eq_empty_of_lookup
    intro u
    rcases hu : (s.active d).lookup u with _ | a
    · rfl
    · obtain ⟨f, hf, rfl, hfd⟩ := hkeys d u (Option.isSome_of_eq_some hu)
      have : (f, a) ∈ s.lots d f.symbol := State.mem_lotsIn.2 ⟨hf, rfl, hfd, hu⟩
      rw [hnil] at this
      cases this
  have hmargin : s.activeMarginForFills = ∅ := by
    apply Map.eq_empty_of_lookup
    intro u
    rcases hu : s.activeMarginForFills.lookup u with _ | m
    · rfl
    · obtain ⟨d, hd⟩ := h.backed.keys u (Option.isSome_of_eq_some hu)
      rw [hactive] at hd
      cases hd
  have hzero : s.marginInUse = 0 := by
    rw [h.backed.total, State.recalculateMarginInUse, hmargin]
    rfl
  have hlaw := h.law
  unfold State.openValue at hlaw
  rw [hactive, hactive, hzero] at hlaw
  simp only [Map.sumBy_empty, sub_self, add_zero, Int.cast_zero] at hlaw
  rw [CashConserved, hlaw]
  ring

/-- In every whole-share run that only buys and sells and whose executions lose no margin, cash is conserved whenever
the account is flat. -/
theorem cash_conserved_of_conservesMargin (hinj : Function.Injective createUuid) (hw : hp.fractional = false)
    (hfeed : OnlyBuySell feed)
    (hG : ExecutionsMeet createUuid hp feed c fun e o =>
      Accepted o hp e.state (createUuid e.uuidCount) → ConservesMargin hp e o)
    (hr : Reachable createUuid hp feed c) (hflat : c.engine.state.positions = ∅) :
    CashConserved hp c.engine.state := by
  have hlaw : CashLaw hp c.engine.state := by
    have hstore := executionsMeet_lotStore (c := c) hinj hw hfeed
    refine reachable_ledger (J := fun e => CashLaw hp e.state) ?_ ?_ ?_ (hG.and hstore) hr
    · refine ⟨?_, rfl, fun u hu => ?_⟩
      · show ((hp.initialCapital : ℤ) : ℚ) + ((0 : ℤ) : ℚ) = hp.initialCapital + (0 - 0) - 0 + (0 - 0)
        push_cast
        ring
      · cases hu
    · intro e e' hs h
      have hopen : ∀ d, e'.state.openValue d = e.state.openValue d := by
        intro d
        unfold State.openValue State.priceOf
        rw [hs.active, hs.fills]
      refine ⟨?_, ?_, fun u => ?_⟩
      · rw [hs.cash, hs.marginInUse, hs.fills, hopen, hopen]
        exact h.law
      · rw [hs.marginInUse, State.recalculateMarginInUse, hs.activeMarginForFills]
        exact h.backed.total
      · simp only [hs.activeMarginForFills, hs.active]
        exact h.backed.keys u
    · rintro e o h ⟨hcons, hlots, hreg, d, hd⟩
      rcases execute_cases createUuid hp e o with he | ha
      · rw [he]; exact h
      · rw [execute_accepted ha]
        exact cashLaw_update hinj hw hreg hlots ha hd h (hcons ha)
  exact hlaw.conserved (lotStore hinj hw hfeed hr) (registered hinj hr).keys hflat

/-- Ten shares bought at 100, sold at 110 and at 120. -/
theorem cash_conserved_of_conservesMargin_halves :
    let c := sampleRun sampleParams (sampleFeed "A" 1000 [(90, "buy", 10), (100, "sell", 5), (110, "sell", 5),
      (120, "sell", 0)]) 40
    c.engine.executions.length = 3 ∧ CashConserved sampleParams c.engine.state := by
  refine ⟨by decide +kernel, ?_⟩
  refine cash_conserved_of_conservesMargin sampleUuid_injective rfl (by decide +kernel) ?_
    (reachable_sampleRun _ _ _) (Map.eq_empty_of_isEmpty (by decide +kernel))
  refine (executionsMeet_sampleRun (G := fun e o => ConservesMargin sampleParams e o)
    (le_refl 40) (Option.isNone_iff_eq_none.1 (by decide +kernel)) (by decide +kernel)).mono ?_
  exact fun _ _ _ _ _ h _ => h

/-- Ten shares bought, twenty sold and ten bought back, all at 100 dollars: 500 dollars are gone. -/
theorem cash_not_conserved_across_zero :
    ¬ ∀ (createUuid : ℕ → Uuid) (hp : HostParams) (feed : List FeedItem) (c : Config),
      Function.Injective createUuid → hp.fractional = false → OnlyBuySell feed → Reachable createUuid hp feed c →
      c.engine.state.positions = ∅ → CashConserved hp c.engine.state := by
  intro h
  have hc := h sampleUuid sampleParams
    (sampleFeed "A" 1000 [(100, "buy", 10), (100, "sell", 20), (100, "buy", 10), (100, "buy", 0)]) (sampleRun _ _ 40)
    sampleUuid_injective rfl (by decide +kernel) (reachable_sampleRun _ _ _)
      (Map.eq_empty_of_isEmpty (by decide +kernel))
  revert hc
  decide +kernel

end BackTestEngine

end QuantForge
