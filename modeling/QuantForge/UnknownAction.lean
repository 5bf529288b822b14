import QuantForge.LotStore

/-!
# Orders that neither buy nor sell

No function checks the action of an order.  Scheduling an instruction never touches the account, and the cash and the
position are left alone when an order with an unknown action is executed; but the lots, the margins and the exit
orders treat what is not a buy as a sell.  `inert_iff` says exactly when nothing changes.
-/

namespace QuantForge

namespace BackTestEngine

open Executor

variable {createUuid : ℕ → Uuid} {hp : HostParams} {feed : List FeedItem} {c : Config}

/-- Nothing of the account and the exit orders differs. -/
structure Inert (e e' : BackTestEngine) : Prop where
  cash : e'.state.cash = e.state.cash
  marginInUse : e'.state.marginInUse = e.state.marginInUse
  positions : ∀ symbol, e'.state.positions.lookup symbol = e.state.positions.lookup symbol
  active : ∀ d u, (e'.state.active d).lookup u = (e.state.active d).lookup u
  margins : ∀ u, e'.state.activeMarginForFills.lookup u = e.state.activeMarginForFills.lookup u
  exitOrderBook : e'.exitOrderBook = e.exitOrderBook
  equity : e'.state.calculateEquity = e.state.calculateEquity

/-- The account is long, and a fill of `q` shares neither exceeds the position nor meets an active buy lot, up to
`EPSILON` shares. -/
def PassesBy (s : State) (symbol : Symbol) (q : ℚ) : Prop :=
  Constants.epsilon ≤ s.positionQuantity symbol ∧ q ≤ s.positionQuantity symbol + Constants.epsilon ∧
    (min q (s.positionQuantity symbol) ≤ Constants.epsilon ∨ s.lots .buy symbol = [])

instance (s : State) (symbol : Symbol) (q : ℚ) : Decidable (PassesBy s symbol q) :=
  inferInstanceAs (Decidable (_ ∧ _ ∧ (_ ∨ _)))

/-- The equity is a function of the cash, the margin, the positions and the prices. -/
private theorem calculateEquity_congr {s s' : State} (hc : s'.cash = s.cash) (hm : s'.marginInUse = s.marginInUse)
    (hpos : ∀ symbol, s'.positions.lookup symbol = s.positions.lookup symbol)
    (hprices : s'.currentBarPrices = s.currentBarPrices) : s'.calculateEquity = s.calculateEquity := by
  have hpnl : s'.positionPnl = s.positionPnl := by
    funext symbol p
    unfold State.positionPnl State.hasSymbolPrices State.getSymbolClose State.symbolPrices
    rw [hprices]
  unfold State.calculateEquity
  rw [hc, hm, hpnl, Map.sumBy_of_lookup_eq _ hpos]

/-! ### An accepted fill -/

private theorem closing_sell (s : State) (symbol : Symbol) (q : ℚ) :
    s.closing .sell symbol q = if 0 < s.positionQuantity symbol then min q (s.positionQuantity symbol) else 0 := by
  unfold State.closing
  by_cases hQ : 0 < s.positionQuantity symbol
  · simp [hQ, Side.sign, abs_of_pos hQ]
  · simp [hQ, Side.sign]

private theorem opened_sell_eq_none_iff (s : State) (symbol : Symbol) (q : ℚ) :
    s.opened .sell symbol q = none ↔
      0 < s.positionQuantity symbol ∧ q ≤ s.positionQuantity symbol + Constants.epsilon := by
  unfold State.opened
  rw [closing_sell]
  generalize s.positionQuantity symbol = Q
  have hε := Constants.epsilon_pos
  by_cases hQ : 0 < Q
  · have hmin : q - min q Q ≤ Constants.epsilon ↔ q ≤ Q + Constants.epsilon := by
      rcases le_total q Q with h | h
      · rw [min_eq_left h]
        exact iff_of_true (by linarith) (by linarith)
      · rw [min_eq_right h]
        exact ⟨fun h => by linarith, fun h => by linarith⟩
    simp [hQ, Side.sign, hmin]
  · simp [hQ, Side.sign]

section Unknown

variable {o : Order} {s : State} {uuid : Uuid} (hb : o.isBuy = false) (hs : o.isSell = false)

variable (hp s uuid) in
include hb in
private theorem side_unknown : (success o hp s uuid).fill.side = .sell := by
  have : (success o hp s uuid).fill.isBuy = false := hb
  simp [Fill.side, this]

include hb in
/-- Without a new lot there are no exit orders. -/
private theorem exitOrders_unknown (h : PassesBy s o.symbol (fillableQuantity o hp s)) :
    (success o hp s uuid).exitOrders = [] := by
  obtain ⟨hQ, hq, -⟩ := h
  have hpos : 0 < s.positionQuantity o.symbol := lt_of_lt_of_le Constants.epsilon_pos hQ
  have hopen : positionOpeningQuantity o hp s ≤ Constants.epsilon := by
    simp only [positionOpeningQuantity, calculatePositionOpeningQuantity, newPositionQuantity, hb, Bool.false_eq_true,
      if_false, not_le.2 hpos]
    exact max_le Constants.epsilon_pos.le (by linarith)
  show createExitOrders _ _ _ _ _ = []
  rw [createExitOrders, if_pos hopen]

variable (hp uuid) in
include hb hs in
private theorem position_unknown (hQ : Constants.epsilon ≤ s.positionQuantity o.symbol) :
    ∃ p, s.positions.lookup o.symbol = some p ∧ (success o hp s uuid).position = p := by
  have hpos : 0 < s.positionQuantity o.symbol := lt_of_lt_of_le Constants.epsilon_pos hQ
  rcases hl : s.positions.lookup o.symbol with _ | p
  · simp [State.positionQuantity, hl] at hpos
  · refine ⟨p, rfl, ?_⟩
    have hp : ¬ |p.quantity| < Constants.epsilon := by
      simp only [State.positionQuantity, hl, Option.elim_some] at hQ
      exact not_lt.2 (hQ.trans (le_abs_self _))
    simp [success, PositionCalc.calculatePosition, hb, hs, State.getSymbolPositionOr, hl, hp]

variable (hp uuid) in
include hb in
/-- The walk over the buy lots touches none. -/
private theorem closeLots_unknown (hnd : (s.fills.map Fill.uuid).Nodup)
    (h : PassesBy s o.symbol (fillableQuantity o hp s)) :
    s.closeLots (success o hp s uuid) .sell = s.recordFill (success o hp s uuid) := by
  have htaken : s.taken .buy o.symbol (s.closing .sell o.symbol (fillableQuantity o hp s)) = [] := by
    obtain ⟨hQ, -, hmin | hlots⟩ := h
    · rw [closing_sell, if_pos (lt_of_lt_of_le Constants.epsilon_pos hQ)]
      exact Fifo.takes_of_le hmin _
    · unfold State.taken
      rw [hlots]
      rfl
  rw [State.closeLots_eq_foldl (side_unknown hp s uuid hb) hnd]
  show (s.taken .buy o.symbol _).foldl _ _ = _
  rw [show s.taken .buy o.symbol
      (s.closing .sell (success o hp s uuid).fill.symbol (success o hp s uuid).fill.quantity) = []
    from htaken]
  rfl

end Unknown

section Execute

variable {e : BackTestEngine} {o : Order} (hb : o.isBuy = false) (hs : o.isSell = false)
  (hinj : Function.Injective createUuid) (hreg : Registered createUuid e)
  (ha : Accepted o hp e.state (createUuid e.uuidCount))

include hb hs hreg ha

private theorem inert_of_passesBy (h : PassesBy e.state o.symbol (fillableQuantity o hp e.state)) :
    Inert e (execute createUuid hp e o) := by
  have hside := side_unknown hp e.state (createUuid e.uuidCount) hb
  have hbook := State.updateState_booking (s := e.state) hside
  have hclose := closeLots_unknown hp (createUuid e.uuidCount) hb hreg.nodup h
  have hnone : e.state.opened .sell (success o hp e.state (createUuid e.uuidCount)).fill.symbol
      (success o hp e.state (createUuid e.uuidCount)).fill.quantity = none :=
    (opened_sell_eq_none_iff _ _ _).2 ⟨lt_of_lt_of_le Constants.epsilon_pos h.1, h.2.1⟩
  have hmargin := State.updateState_margin (s := e.state) hside
  rw [hnone, hclose] at hmargin
  have hcash : (e.state.updateState (success o hp e.state (createUuid e.uuidCount))).cash = e.state.cash := by
    rw [hbook.cash]
    simp [success, calculateCashDelta, hb, hs]
  have hpositions : ∀ symbol, (e.state.updateState (success o hp e.state (createUuid e.uuidCount))).positions.lookup
      symbol = e.state.positions.lookup symbol := by
    intro symbol
    obtain ⟨p, hp, hpos⟩ := position_unknown hp (createUuid e.uuidCount) hb hs h.1
    obtain ⟨hsym, hne⟩ := hreg.positions _ p hp
    rw [hbook.positions, hpos, if_neg hne, Map.lookup_insert_eq, hsym]
    split
    · rename_i he
      rw [he, hp]
    · rfl
  have hactive : ∀ d, (e.state.updateState (success o hp e.state (createUuid e.uuidCount))).active d =
      e.state.active d := by
    intro d
    cases d with
    | buy =>
      have hopp := State.updateState_active_opposite (s := e.state) hside
      rw [hclose, State.active_recordFill] at hopp
      exact hopp
    | sell => exact State.updateState_active_unknown hside hs
  have hinUse : (e.state.updateState (success o hp e.state (createUuid e.uuidCount))).marginInUse =
      e.state.marginInUse := hmargin.2.2
  rw [execute_accepted ha]
  refine ⟨hcash, hinUse, hpositions, fun d u => ?_, fun u => by rw [hmargin.1]; rfl, ?_, ?_⟩
  · dsimp only
    rw [hactive]
  · have hfills : fillsClosedBy (success o hp e.state (createUuid e.uuidCount)).fill e.state = [] := by
      have hb' : (success o hp e.state (createUuid e.uuidCount)).fill.isBuy = false := hb
      have hs' : (success o hp e.state (createUuid e.uuidCount)).fill.isSell = false := hs
      simp [fillsClosedBy, hb', hs']
    show exitBookAfter _ _ = _
    rw [exitBookAfter, exitOrders_unknown hb h, hfills]
    rfl
  · exact calculateEquity_congr hcash hinUse hpositions hbook.currentBarPrices

include hinj

omit hs in
/-- A new lot would have an entry in the margin map. -/
private theorem opened_none_of_inert (h : Inert e (execute createUuid hp e o)) :
    e.state.opened .sell o.symbol (fillableQuantity o hp e.state) = none := by
  rw [execute_accepted ha] at h
  rcases ho : e.state.opened .sell o.symbol (fillableQuantity o hp e.state) with _ | q
  · rfl
  · have hmargin := State.updateState_margin (s := e.state) (side_unknown hp e.state (createUuid e.uuidCount) hb)
    rw [show e.state.opened .sell (success o hp e.state (createUuid e.uuidCount)).fill.symbol
      (success o hp e.state (createUuid e.uuidCount)).fill.quantity = some q from ho] at hmargin
    have hm := h.margins (createUuid e.uuidCount)
    rw [hreg.margin_fresh hinj] at hm
    dsimp only at hm
    rw [hmargin.1] at hm
    rw [show (success o hp e.state (createUuid e.uuidCount)).fill.uuid = createUuid e.uuidCount from rfl,
      AList.lookup_insert] at hm
    cases hm

omit hinj in
/-- A long position below `EPSILON` would be erased. -/
private theorem epsilon_le_of_inert (h : Inert e (execute createUuid hp e o))
    (hpos : 0 < e.state.positionQuantity o.symbol) : Constants.epsilon ≤ e.state.positionQuantity o.symbol := by
  rw [execute_accepted ha] at h
  by_contra hlt
  have hQ : (e.state.updateState (success o hp e.state (createUuid e.uuidCount))).positionQuantity o.symbol =
      e.state.positionQuantity o.symbol := by
    unfold State.positionQuantity
    rw [h.positions o.symbol]
  have hzero : (success o hp e.state (createUuid e.uuidCount)).position.quantity = 0 := by
    show (PositionCalc.calculatePosition o _ _ _).quantity = 0
    rw [PositionCalc.calculatePosition_quantity_unknown hb hs, if_pos (by rw [abs_of_pos hpos]; exact not_le.1 hlt)]
  rw [State.updateState_positionQuantity (r := success o hp e.state (createUuid e.uuidCount))
    (PositionCalc.calculatePosition_symbol (fun p hp => (hreg.positions _ p hp).1) _ _), hzero,
    if_pos (show o.symbol = (success o hp e.state (createUuid e.uuidCount)).fill.symbol from rfl)] at hQ
  exact hpos.ne hQ

omit hs in
/-- The buy lots the walk leaves are those that were there. -/
private theorem drop_of_inert (h : Inert e (execute createUuid hp e o)) :
    Fifo.drop Constants.epsilon (e.state.lots .buy o.symbol)
      (e.state.closing .sell o.symbol (fillableQuantity o hp e.state)) = e.state.lots .buy o.symbol := by
  rw [execute_accepted ha] at h
  have hside := side_unknown hp e.state (createUuid e.uuidCount) hb
  have hlots := State.updateState_lots_opposite (s := e.state) hside hreg.nodup (hreg.fresh hinj) o.symbol
  rw [if_pos (show o.symbol = (success o hp e.state (createUuid e.uuidCount)).fill.symbol from rfl)] at hlots
  refine (hlots.symm.trans ?_ : _)
  unfold State.lots
  rw [(State.updateState_booking hside).fills, State.lotsIn_append, State.lotsIn_cons_skip]
  · rw [show State.lotsIn _ _ _ ([] : List Fill) = [] from rfl, List.append_nil]
    exact State.lotsIn_congr fun f _ _ _ => h.active .buy f.uuid
  · intro _ hon
    have := Fill.isOn_opposite_side (success o hp e.state (createUuid e.uuidCount)).fill
    rw [hside] at this
    rw [show Side.opposite .sell = .buy from rfl] at this hon
    rw [hon] at this
    cases this

private theorem passesBy_of_inert (h : Inert e (execute createUuid hp e o)) :
    PassesBy e.state o.symbol (fillableQuantity o hp e.state) := by
  obtain ⟨hpos, hq⟩ := (opened_sell_eq_none_iff _ _ _).1 (opened_none_of_inert hb hinj hreg ha h)
  refine ⟨epsilon_le_of_inert hb hs hreg ha h hpos, hq, ?_⟩
  -- a lot that the walk touches would change
  by_contra hor
  push Not at hor
  obtain ⟨hmin, hne⟩ := hor
  refine Fifo.drop_ne Constants.epsilon_pos.le ?_ hne (drop_of_inert hb hinj hreg ha h)
  rw [closing_sell, if_pos hpos]
  exact hmin

end Execute

/-! ### Every unknown action -/

theorem Inert.of_state_eq {e e' : BackTestEngine} (hs : e'.state = e.state)
    (hx : e'.exitOrderBook = e.exitOrderBook) :
    Inert e e' := by
  constructor
  all_goals simp only [hs, hx, implies_true]

/-- An order that is neither a buy nor a sell was not in the exit book. -/
private theorem nextExecution_unknown {o : Order} {e : BackTestEngine} (hn : nextExecution c = some (o, e))
    (hb : o.isBuy = false) (hs : o.isSell = false) : e.exitOrderBook = c.engine.exitOrderBook := by
  cases nextExecution_cases hn with
  | orderBook bar x _ _ _ _ he => rw [he]
  | limit side symbol symbols x _ _ _ _ _ he => rw [he]
  | exit kind l x _ _ _ _ _ ho _ =>
    subst ho
    rcases hx : x.isShortPosition with _ | _
    · simp [ExitOrder.toCloseInstruction, Order.isSell, hx] at hs
    · simp [ExitOrder.toCloseInstruction, Order.isBuy, hx] at hb

/-- Scheduling an instruction is inert.  Executing an order with an unknown action is inert exactly when the order is
rejected or its fill passes by. -/
theorem inert_iff (hinj : Function.Injective createUuid) (hr : Reachable createUuid hp feed c) :
    (∀ (e e' : BackTestEngine) (i : CInstruction), scheduleInstruction hp e i = .ok e' → Inert e e') ∧
      ∀ (o : Order) (e : BackTestEngine), nextExecution c = some (o, e) → o.isBuy = false → o.isSell = false →
        (Inert c.engine (execute createUuid hp e o) ↔
          (Accepted o hp e.state (createUuid e.uuidCount) →
            PassesBy e.state o.symbol (fillableQuantity o hp e.state))) := by
  constructor
  · intro e e' i h
    obtain ⟨-, o, -, -, rfl⟩ := scheduleInstruction_ok h
    exact .of_state_eq (sameAccount_schedule _ _ _).state (exitOrderBook_schedule _ _ _)
  · intro o e hn hb hs
    have hsame := nextExecution_sameAccount hn
    have hreg : Registered createUuid e := (registered hinj hr).sameLedger hsame.sameLedger
    have hbook := nextExecution_unknown hn hb hs
    -- popping the order changes neither the account nor the exit book
    have hpop : ∀ e', Inert c.engine e' ↔ Inert e e' := by
      intro e'
      constructor
      · rintro ⟨h1, h2, h3, h4, h5, h6, h7⟩
        rw [← hsame.state] at h1 h2 h3 h4 h5 h7
        exact ⟨h1, h2, h3, h4, h5, h6.trans hbook.symm, h7⟩
      · rintro ⟨h1, h2, h3, h4, h5, h6, h7⟩
        rw [hsame.state] at h1 h2 h3 h4 h5 h7
        exact ⟨h1, h2, h3, h4, h5, h6.trans hbook, h7⟩
    rw [hpop]
    by_cases ha : Accepted o hp e.state (createUuid e.uuidCount)
    · exact ⟨fun h _ => passesBy_of_inert hb hs hinj hreg ha h, fun h => inert_of_passesBy hb hs hreg ha (h ha)⟩
    · refine iff_of_true ?_ fun h => absurd h ha
      rcases execute_cases createUuid hp e o with he | ha'
      · rw [he]
        exact .of_state_eq rfl rfl
      · exact absurd ha' ha

/-- A buy of ten shares and orders for ten shares with an unknown action. -/
def holdFeed : List FeedItem := sampleFeed "A" 1000
    [(100, "buy", 10), (100, "hold", 10), (100, "hold", 10), (100, "", 0)]

/-- The second unknown order finds a position whose lots are gone. -/
theorem inert_iff_no_lots :
    ∃ o e, nextExecution (sampleRun sampleParams holdFeed 24) = some (o, e) ∧
      Accepted o sampleParams e.state (sampleUuid e.uuidCount) ∧
      Inert (sampleRun sampleParams holdFeed 24).engine (execute sampleUuid sampleParams e o) := by
  have hsome : (nextExecution (sampleRun sampleParams holdFeed 24)).isSome = true := by decide +kernel
  have hpasses : ∀ p ∈ nextExecution (sampleRun sampleParams holdFeed 24), p.1.isBuy = false ∧ p.1.isSell = false ∧
      Accepted p.1 sampleParams p.2.state (sampleUuid p.2.uuidCount) ∧
      PassesBy p.2.state p.1.symbol (fillableQuantity p.1 sampleParams p.2.state) := by
    decide +kernel
  have hr := reachable_sampleRun sampleParams holdFeed 24
  generalize sampleRun sampleParams holdFeed 24 = c at hsome hpasses hr
  obtain ⟨⟨o, e⟩, hn⟩ := Option.isSome_iff_exists.1 hsome
  obtain ⟨hb, hs, ha, hpass⟩ := hpasses (o, e) hn
  exact ⟨o, e, hn, ha, ((inert_iff sampleUuid_injective hr).2 o e hn hb hs).2 fun _ => hpass⟩

/-- The first unknown order closes the buy lot and frees its margin, and the position stays. -/
theorem unknown_action_not_inert :
    ¬ ∀ (createUuid : ℕ → Uuid) (hp : HostParams) (feed : List FeedItem) (c : Config) (o : Order)
    (e : BackTestEngine),
      Function.Injective createUuid → Reachable createUuid hp feed c → nextExecution c = some (o, e) →
      o.isBuy = false → o.isSell = false → Inert c.engine (execute createUuid hp e o) := by
  intro h
  have hsome : (nextExecution (sampleRun sampleParams holdFeed 16)).isSome = true := by decide +kernel
  have hfrees : ∀ p ∈ nextExecution (sampleRun sampleParams holdFeed 16), p.1.isBuy = false ∧ p.1.isSell = false ∧
      (execute sampleUuid sampleParams p.2 p.1).state.marginInUse ≠
        (sampleRun sampleParams holdFeed 16).engine.state.marginInUse := by
    decide +kernel
  have hr := reachable_sampleRun sampleParams holdFeed 16
  generalize sampleRun sampleParams holdFeed 16 = c at hsome hfrees hr
  obtain ⟨⟨o, e⟩, hn⟩ := Option.isSome_iff_exists.1 hsome
  obtain ⟨hb, hs, hne⟩ := hfrees (o, e) hn
  exact hne (h sampleUuid sampleParams holdFeed c o e sampleUuid_injective hr hn hb hs).marginInUse

end BackTestEngine

end QuantForge
