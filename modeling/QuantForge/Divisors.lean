import QuantForge.BookOps
import QuantForge.Lookahead
import QuantForge.Termination

/-!
# Divisors

For every function of the engine that divides, the list of the numbers it divides by, with the branches and loops of
the function itself; `stepDivisors` collects them over a step, and `Traced.stepDivisors_eq` compares them with the
functions.  A step can divide by zero in two ways: a market order is scheduled under `time_volume_based` slippage
while the volume of its symbol is zero, or a fill of zero shares is accepted that does not go against the position
held.  A run in which neither happens never divides by zero, and one in which one of them happens does
(`no_zero_divisor_iff`).
-/

namespace QuantForge

/-! ### The functions that divide -/

/-- `calculate_slippage_time_ns`. -/
def slippageDivisors (order : Order) (hp : HostParams) (s : State) : List ℚ :=
  match hp.slippageModel with
  | some .timeVolumeBased =>
    if !s.hasSymbolVolume order.symbol then [] else [(s.getSymbolVolume order.symbol : ℚ)]
  | _ => []

namespace PositionCalc

/-- `calculate_signal_position_size`. -/
def signalSizeDivisors (signal : Signal) (hp : HostParams) (s : State) : List ℚ :=
  let currentPrice := Money.toDollars (s.getSymbolClose signal.symbol)
  match hp.positionSizingMethod.getD .fixedPercentage with
  | .fixedPercentage => [currentPrice]
  | .fixedDollar => [currentPrice]
  | .equalWeight => if hp.symbols.length = 0 then [] else [(hp.symbols.length : ℚ), currentPrice]

/-- `calculate_position`. -/
def positionDivisors (order : Order) (fillableQuantity : ℚ) (s : State) : List ℚ :=
  let oldQuantity := (s.getSymbolPositionOr order.symbol ⟨order.symbol, 0, 0⟩).quantity
  if order.isBuy then
    let newQuantity := oldQuantity + fillableQuantity
    if oldQuantity < 0 ∧ newQuantity > 0 then [] else if oldQuantity ≥ 0 then [newQuantity] else []
  else if order.isSell then
    let newQuantity := oldQuantity - fillableQuantity
    if oldQuantity > 0 ∧ newQuantity < 0 then [] else if oldQuantity ≤ 0 then [|newQuantity|] else []
  else []

end PositionCalc

namespace State

/-- A lot is divided by its shares if it has a margin. -/
def lotDivisors (s : State) (uuid : Uuid) (available : ℚ) : List ℚ :=
  match s.activeMarginForFills.lookup uuid with
  | none => []
  | some _ => [available]

/-- The two FIFO reducers. -/
def reduceFifoDivisors (side : Side) (symbol : Symbol) : List Fill → ℚ → State → List ℚ
  | [], _, _ => []
  | fill :: fills, remaining, s =>
    if remaining ≤ Constants.epsilon then []
    else if fill.symbol = symbol ∧ fill.isOn side then
      match (s.active side).lookup fill.uuid with
      | none => reduceFifoDivisors side symbol fills remaining s
      | some available =>
        let toClose := min available remaining
        s.lotDivisors fill.uuid available ++
          reduceFifoDivisors side symbol fills (remaining - toClose) (s.closeLot side fill.uuid available toClose)
    else reduceFifoDivisors side symbol fills remaining s

/-- `update_state`, with `populate_active_fills`. -/
def updateStateDivisors (s : State) (r : ExecutionResultSuccess) : List ℚ :=
  let s := { s with cash := s.cash + r.cashDelta, fills := s.fills ++ [r.fill], newFills := s.newFills ++ [r.fill] }
  let currentQty := s.positionQuantity r.fill.symbol
  let comparison : Bool := if r.fill.isBuy then currentQty < 0 else currentQty > 0
  if !comparison then [r.fill.quantity]
  else
    let diffQty := min r.fill.quantity |currentQty|
    (if diffQty > 0 then
      if r.fill.isBuy then reduceFifoDivisors .sell r.fill.symbol s.fills diffQty s
      else reduceFifoDivisors .buy r.fill.symbol s.fills diffQty s
    else []) ++
      -- the proportion of a lot that is opened
      (if r.fill.quantity - diffQty > Constants.epsilon then [r.fill.quantity] else [])

/-- `record_bar_equity_snapshot`, with `calculate_max_drawdown` and `calculate_return`. -/
def snapshotDivisors (s : State) (hp : HostParams) : List ℚ :=
  let s := if s.calculateEquity > s.peakEquity then { s with peakEquity := s.calculateEquity } else s
  (if Money.toDollars s.peakEquity > Constants.epsilon then [Money.toDollars s.peakEquity] else []) ++
    [Money.toDollars hp.initialCapital]

end State

namespace Executor

/-- The loop of `calculate_closing_margin_info` over `fills_`. -/
def closingLoopDivisors (order : Order) (s : State) : List Fill → ℚ → List ℚ
  | [], _ => []
  | fill :: fills, remaining =>
    if remaining ≤ Constants.epsilon then []
    else
      let activeFills := if order.isSell then s.activeBuyFills else s.activeSellFills
      let isMatchingFill : Bool := (order.isSell && fill.isBuy) || (order.isBuy && fill.isSell)
      if fill.symbol = order.symbol ∧ isMatchingFill then
        match activeFills.lookup fill.uuid with
        | none => closingLoopDivisors order s fills remaining
        | some available =>
          s.lotDivisors fill.uuid available ++
            closingLoopDivisors order s fills (remaining - min available remaining)
      else closingLoopDivisors order s fills remaining

/-- `calculate_closing_margin_info`. -/
def closingDivisors (order : Order) (positionClosingQuantity : ℚ) (s : State) : List ℚ :=
  if positionClosingQuantity ≤ Constants.epsilon then []
  else closingLoopDivisors order s s.fills positionClosingQuantity

/-- `calculate_margin_required`, which is only called for an opening quantity. -/
def marginDivisors (order : Order) (hp : HostParams) (s : State) : List ℚ :=
  if positionOpeningQuantity order hp s > Constants.epsilon then [orderLeverage order] else []

/-- `validate_margin`: a pure close is checked with its closing margin. -/
def validateMarginDivisors (order : Order) (hp : HostParams) (s : State) : List ℚ :=
  let leverage := order.leverage.getD 1
  if order.isSell && !hp.allowShortSelling.getD true && newPositionQuantity order hp s < 0 then []
  else if leverage < 1 then []
  else if leverage > hp.maxLeverage.getD 1 then []
  else if positionOpeningQuantity order hp s ≤ Constants.epsilon then
    closingDivisors order (fillableQuantity order hp s) s
  else []

/-- `execute_order`: the margin and its validation, and for an order that passes, the cash and the position. -/
def executeOrderDivisors (order : Order) (hp : HostParams) (s : State) (uuid : Uuid) : List ℚ :=
  if order.quantity ≤ 0 then []
  else if !s.hasSymbolPrices order.symbol then []
  else if !s.hasSymbolVolume order.symbol then []
  else if order.isExitOrder && sourceInactive order s then []
  else if !hp.fractional && fillableQuantity order hp s ≤ 0 then []
  else
    marginDivisors order hp s ++ validateMarginDivisors order hp s ++
      match executeOrder order hp s uuid with
      | .error _ => []
      | .ok _ =>
        closingDivisors order (fillableQuantity order hp s - positionOpeningQuantity order hp s) s ++
          PositionCalc.positionDivisors order (fillableQuantity order hp s) s

end Executor

namespace BackTestEngine

open Executor

/-- Scheduling an order: the slippage of one that goes into the order book. -/
def scheduleDivisors (hp : HostParams) (s : State) (order : Order) : List ℚ :=
  if order.isLimitOrder then [] else slippageDivisors order hp s

/-- `execute_order` and `handle_execution_result`. -/
def executeDivisors (createUuid : ℕ → Uuid) (hp : HostParams) (e : BackTestEngine) (order : Order) : List ℚ :=
  executeOrderDivisors order hp e.state (createUuid e.uuidCount) ++
    match executeOrder order hp e.state (createUuid e.uuidCount) with
    | .error _ => []
    | .ok r => r.partialOrder.toList.flatMap (scheduleDivisors hp e.state) ++ e.state.updateStateDivisors r

/-- The sizing of a signal. -/
def instructionDivisors (hp : HostParams) (s : State) : CInstruction → List ℚ
  | .signal inst => PositionCalc.signalSizeDivisors ⟨inst.symbol, inst.action⟩ hp s
  | _ => []

/-- `schedule_plugin_instructions`, up to the first instruction that throws. -/
def instructionsDivisors (hp : HostParams) (e : BackTestEngine) : List CInstruction → List ℚ
  | [] => []
  | c :: l => match instructionOrder hp e c with
    | .error _ => []
    | .ok o => instructionDivisors hp e.state c ++ scheduleDivisors hp e.state o ++ instructionsDivisors hp e l

/-- What the next step divides by. -/
def stepDivisors (createUuid : ℕ → Uuid) (hp : HostParams) (c : Config) : List ℚ :=
  match nextExecution c with
  | some (o, e) => executeDivisors createUuid hp e o
  | none =>
    if c.phase = .onBar ∧ c.result.code = 0 then
      instructionsDivisors hp c.engine c.result.instructions ++
        match schedulePluginInstructions hp c.engine c.result with
        | .error _ => []
        | .ok e => e.state.snapshotDivisors hp
    else []

end BackTestEngine

/-! ### Lots have shares -/

namespace State

variable {s : State} {r : ExecutionResultSuccess}

/-- Every active lot has shares. -/
def PositiveLots (s : State) : Prop := ∀ side uuid a, (s.active side).lookup uuid = some a → 0 < a

theorem PositiveLots.closeLot (h : s.PositiveLots) (side : Side) (u : Uuid) (a c : ℚ) :
    (s.closeLot side u a c).PositiveLots := by
  intro side' v b hb
  rcases Side.eq_or_eq_opposite side side' with rfl | rfl
  · rw [closeLot_active] at hb
    split at hb
    · unfold lotAfter at hb
      split at hb
      · cases hb
      · rename_i hleft
        cases hb
        exact Constants.epsilon_pos.trans (not_le.1 hleft)
    · exact h _ v b hb
  · rw [(closeLot_frame s side u a c).opposite] at hb
    exact h _ v b hb

/-- A fill has shares, or it has none and goes against the position. -/
def FillsOrCloses (s : State) (d : Side) (symbol : Symbol) (q : ℚ) : Prop :=
  0 < q ∨ q = 0 ∧ d.sign * s.positionQuantity symbol < 0

/-- A fill that has shares or closes nothing opens a lot with shares or none. -/
theorem FillsOrCloses.opened_pos {d : Side} {symbol : Symbol} {q a : ℚ} (hq : s.FillsOrCloses d symbol q)
    (ho : s.opened d symbol q = some a) : 0 < a := by
  unfold opened at ho
  split at ho
  · cases ho
  · rename_i hopen
    cases ho
    by_cases hneg : d.sign * s.positionQuantity symbol < 0
    · exact Constants.epsilon_pos.trans (not_le.1 fun hle => hopen ⟨hneg, hle⟩)
    · rw [closing, if_neg hneg, sub_zero]
      exact hq.resolve_right fun h => hneg h.2

theorem PositiveLots.updateState (h : s.PositiveLots)
    (hq : s.FillsOrCloses r.fill.side r.fill.symbol r.fill.quantity) : (s.updateState r).PositiveLots := by
  intro d u a ha
  rcases updateState_active_cases ha with hold | ⟨hon, -, ho⟩ | ⟨-, hclosed⟩
  · exact h d u a hold
  · rw [← Fill.side_of_isOn hon] at ho
    exact hq.opened_pos ho
  · have hrecord : (s.recordFill r).PositiveLots := fun d u a ha => h d u a (by rwa [active_recordFill] at ha)
    have hclose : (s.closeLots r r.fill.side).PositiveLots :=
      reduceFifo_induction (P := PositiveLots) hrecord fun _ u a c h _ => h.closeLot _ u a c
    exact hclose d u a hclosed

theorem PositiveLots.zero_notMem_lotDivisors (h : s.PositiveLots) (side : Side) {u : Uuid} {a : ℚ}
    (ha : (s.active side).lookup u = some a) : 0 ∉ s.lotDivisors u a := by
  unfold lotDivisors
  split
  · exact List.not_mem_nil
  · rw [List.mem_singleton]
    exact (h side u a ha).ne

theorem PositiveLots.zero_notMem_reduceFifoDivisors (h : s.PositiveLots) (side : Side) (symbol : Symbol)
    (fills : List Fill) (x : ℚ) : 0 ∉ reduceFifoDivisors side symbol fills x s := by
  induction fills generalizing x s with
  | nil => exact List.not_mem_nil
  | cons f fills ih =>
    unfold reduceFifoDivisors
    split
    · exact List.not_mem_nil
    · split
      · split
        · exact ih h x
        · rename_i a ha
          rw [List.mem_append, not_or]
          exact ⟨h.zero_notMem_lotDivisors side ha, ih (h.closeLot _ _ _ _) _⟩
      · exact ih h x

/-- The divisors of `update_state`: the shares of the fill unless it goes against the position, and otherwise those of
the lots it closes, and of the fill if it opens one. -/
theorem updateStateDivisors_eq (s : State) (r : ExecutionResultSuccess) :
    s.updateStateDivisors r =
      if r.fill.side.sign * s.positionQuantity r.fill.symbol < 0 then
        (if min r.fill.quantity |s.positionQuantity r.fill.symbol| > 0 then
          reduceFifoDivisors r.fill.side.opposite r.fill.symbol (s.fills ++ [r.fill])
            (min r.fill.quantity |s.positionQuantity r.fill.symbol|) (s.recordFill r)
        else []) ++
          (if r.fill.quantity - min r.fill.quantity |s.positionQuantity r.fill.symbol| > Constants.epsilon then
            [r.fill.quantity] else [])
      else [r.fill.quantity] := by
  have h : s.updateStateDivisors r = if !(if r.fill.isBuy then decide (s.positionQuantity r.fill.symbol < 0)
      else decide (s.positionQuantity r.fill.symbol > 0)) then [r.fill.quantity]
      else (if min r.fill.quantity |s.positionQuantity r.fill.symbol| > 0 then
        if r.fill.isBuy then reduceFifoDivisors .sell r.fill.symbol (s.fills ++ [r.fill])
          (min r.fill.quantity |s.positionQuantity r.fill.symbol|) (s.recordFill r)
        else reduceFifoDivisors .buy r.fill.symbol (s.fills ++ [r.fill])
          (min r.fill.quantity |s.positionQuantity r.fill.symbol|) (s.recordFill r)
        else []) ++
          (if r.fill.quantity - min r.fill.quantity |s.positionQuantity r.fill.symbol| > Constants.epsilon then
            [r.fill.quantity] else []) := rfl
  rw [h, comparison_eq, Fill.isBuy_eq]
  by_cases hneg : r.fill.side.sign * s.positionQuantity r.fill.symbol < 0
  · simp only [hneg, decide_true, Bool.not_true, Bool.false_eq_true, if_false, if_true]
    cases r.fill.side <;> simp [Side.opposite]
  · simp [hneg]

theorem PositiveLots.zero_notMem_updateStateDivisors (h : s.PositiveLots)
    (hq : s.FillsOrCloses r.fill.side r.fill.symbol r.fill.quantity) : 0 ∉ s.updateStateDivisors r := by
  rw [updateStateDivisors_eq]
  split
  · rw [List.mem_append, not_or]
    constructor
    · split
      · have hrecord : (s.recordFill r).PositiveLots := fun d u a ha => h d u a (by rwa [active_recordFill] at ha)
        exact hrecord.zero_notMem_reduceFifoDivisors _ _ _ _
      · exact List.not_mem_nil
    · split
      · rename_i hopen
        rcases hq with hpos | ⟨hzero, -⟩
        · rw [List.mem_singleton]
          exact hpos.ne
        · -- nothing is opened by a fill of zero shares
          rw [hzero, min_eq_left (abs_nonneg _), sub_zero] at hopen
          exact absurd hopen (not_lt.2 Constants.epsilon_pos.le)
      · exact List.not_mem_nil
  · rename_i hneg
    rw [List.mem_singleton]
    exact (hq.resolve_right fun hz => hneg hz.2).ne

theorem zero_notMem_snapshotDivisors {hp : HostParams} (hcapital : 0 < hp.initialCapital) (s : State) :
    0 ∉ s.snapshotDivisors hp := by
  have hpeak : ∀ s : State,
      0 ∉ (if Money.toDollars s.peakEquity > Constants.epsilon then [Money.toDollars s.peakEquity] else []) := by
    intro s
    split
    · rename_i hpeak
      rw [List.mem_singleton]
      exact (Constants.epsilon_pos.trans hpeak).ne
    · exact List.not_mem_nil
  unfold snapshotDivisors
  rw [List.mem_append, not_or, List.mem_singleton]
  exact ⟨hpeak _, (Money.toDollars_pos hcapital).ne⟩

end State

/-! ### The divisors of an execution -/

namespace Executor

variable {o : Order} {hp : HostParams} {s : State} {uuid : Uuid}

theorem zero_notMem_closingDivisors (h : s.PositiveLots) (o : Order) (x : ℚ) : 0 ∉ closingDivisors o x s := by
  have loop : ∀ (fills : List Fill) (x : ℚ), 0 ∉ closingLoopDivisors o s fills x := by
    intro fills
    induction fills with
    | nil => exact fun x => List.not_mem_nil
    | cons f fills ih =>
      intro x
      unfold closingLoopDivisors
      split
      · exact List.not_mem_nil
      · dsimp only
        split
        · split
          · exact ih x
          · rename_i a ha
            rw [List.mem_append, not_or]
            refine ⟨?_, ih _⟩
            cases hs : o.isSell with
            | true =>
              rw [hs] at ha
              exact h.zero_notMem_lotDivisors .buy ha
            | false =>
              rw [hs] at ha
              exact h.zero_notMem_lotDivisors .sell ha
        · exact ih x
  unfold closingDivisors
  split
  · exact List.not_mem_nil
  · exact loop s.fills x

/-- An accepted fill has shares, unless fractional shares are allowed and nothing of the volume may be filled. -/
theorem fillableQuantity_pos_or (hcap : ∀ p ∈ hp.fillMaxPctOfVolume, 0 ≤ (s.getSymbolVolume o.symbol : ℚ) * p)
    (ha : Accepted o hp s uuid) :
    0 < fillableQuantity o hp s ∨
      fillableQuantity o hp s = 0 ∧ hp.fractional = true ∧
        ∃ p ∈ hp.fillMaxPctOfVolume, (s.getSymbolVolume o.symbol : ℚ) * p = 0 := by
  by_cases hf : hp.fractional = true
  · have hfill : fillableQuantity o hp s = (getFillableAndRemainingQuantities o hp s).1 := by
      simp [fillableQuantity, hf]
    rw [hfill]
    unfold getFillableAndRemainingQuantities
    rcases hpct : hp.fillMaxPctOfVolume with _ | p
    · exact Or.inl ha.quantity_pos
    · dsimp only
      split
      · rcases (hcap p hpct).lt_or_eq with hpos | hzero
        · exact Or.inl hpos
        · exact Or.inr ⟨hzero.symm, hf, p, rfl, hzero.symm⟩
      · exact Or.inl ha.quantity_pos
  · exact Or.inl (ha.whole (by simpa using hf))

/-- With fractional shares and nothing of the volume to fill, a fill has no shares, and the remainder is the order. -/
theorem fillableQuantity_eq_zero (hf : hp.fractional = true) {p : ℚ} (hpct : hp.fillMaxPctOfVolume = some p)
    (hzero : (s.getSymbolVolume o.symbol : ℚ) * p = 0) (hq : 0 < o.quantity) :
    fillableQuantity o hp s = 0 ∧ partialOrder o hp s = some o := by
  have hquantities : getFillableAndRemainingQuantities o hp s = (0, o.quantity) := by
    simp [getFillableAndRemainingQuantities, hpct, hzero, hq]
  refine ⟨by simp [fillableQuantity, hquantities, hf], ?_⟩
  have hrem : remainingQuantity o hp s = o.quantity := by rw [remainingQuantity, hquantities]
  rw [partialOrder, hrem, if_pos hq]

theorem zero_notMem_positionDivisors {q : ℚ} (hq : s.FillsOrCloses o.side o.symbol q) :
    0 ∉ PositionCalc.positionDivisors o q s := by
  have hQ := s.getSymbolPositionOr_quantity o.symbol
  unfold PositionCalc.positionDivisors
  rw [hQ]
  unfold State.FillsOrCloses Order.side at hq
  generalize s.positionQuantity o.symbol = Q at hq ⊢
  dsimp only
  split
  · rename_i hbuy
    rw [if_pos hbuy] at hq
    split
    · exact List.not_mem_nil
    · split
      · rename_i hQ0
        rw [List.mem_singleton]
        rcases hq with hpos | ⟨-, hneg⟩
        · linarith
        · simp only [Side.sign] at hneg
          linarith
      · exact List.not_mem_nil
  · rename_i hbuy
    rw [if_neg hbuy] at hq
    split
    · split
      · exact List.not_mem_nil
      · split
        · rename_i hQ0
          rw [List.mem_singleton, eq_comm, abs_eq_zero]
          rcases hq with hpos | ⟨-, hneg⟩
          · linarith
          · simp only [Side.sign] at hneg
            linarith
        · exact List.not_mem_nil
    · exact List.not_mem_nil

theorem zero_notMem_executeOrderDivisors (hlots : s.PositiveLots) (hlev : ∀ l ∈ o.leverage, 0 < l)
    (hq : Accepted o hp s uuid → s.FillsOrCloses o.side o.symbol (fillableQuantity o hp s)) :
    0 ∉ executeOrderDivisors o hp s uuid := by
  have hmargin : 0 ∉ marginDivisors o hp s := by
    unfold marginDivisors orderLeverage
    split
    · rw [List.mem_singleton]
      rcases hl : o.leverage with _ | l
      · exact zero_ne_one
      · exact (hlev l hl).ne
    · exact List.not_mem_nil
  have hvalidate : 0 ∉ validateMarginDivisors o hp s := by
    unfold validateMarginDivisors
    dsimp only
    split_ifs
    · exact List.not_mem_nil
    · exact List.not_mem_nil
    · exact List.not_mem_nil
    · exact zero_notMem_closingDivisors hlots o _
    · exact List.not_mem_nil
  unfold executeOrderDivisors
  split_ifs
  · exact List.not_mem_nil
  · exact List.not_mem_nil
  · exact List.not_mem_nil
  · exact List.not_mem_nil
  · exact List.not_mem_nil
  · rw [List.mem_append, List.mem_append, not_or, not_or]
    refine ⟨⟨hmargin, hvalidate⟩, ?_⟩
    rcases hex : executeOrder o hp s uuid with m | r
    · exact List.not_mem_nil
    · dsimp only
      rw [List.mem_append, not_or]
      exact ⟨zero_notMem_closingDivisors hlots o _,
        zero_notMem_positionDivisors (hq (executeOrder_ok_iff.1 hex).1)⟩

end Executor

/-! ### The divisors of a step -/

namespace BackTestEngine

open Executor StateTransition

variable {createUuid : ℕ → Uuid} {hp : HostParams} {feed : List FeedItem} {c : Config}

/-- Under `time_volume_based` slippage no market order is issued while the volume of its symbol is zero.  An accepted
order of which fractional shares are allowed but nothing may be filled goes against the position held; and if it is a
market order under `time_volume_based` slippage, the volume is not zero, since the order is scheduled again. -/
structure Divisible (createUuid : ℕ → Uuid) (hp : HostParams) (c : Config) : Prop where
  issued : hp.slippageModel = some .timeVolumeBased → c.phase = .onBar → c.result.code = 0 →
    ∀ o ∈ issuedOrders hp c.engine c.result.instructions, o.isLimitOrder = false →
      c.engine.state.currentBarVolumes.lookup o.symbol ≠ some 0
  executed : ∀ o e, nextExecution c = some (o, e) → Accepted o hp e.state (createUuid e.uuidCount) →
    hp.fractional = true → ∀ p ∈ hp.fillMaxPctOfVolume, (e.state.getSymbolVolume o.symbol : ℚ) * p = 0 →
      o.side.sign * e.state.positionQuantity o.symbol < 0 ∧
      (hp.slippageModel = some .timeVolumeBased → o.isLimitOrder = false → e.state.getSymbolVolume o.symbol ≠ 0)

theorem zero_mem_scheduleDivisors {s : State} {o : Order} :
    0 ∈ scheduleDivisors hp s o ↔ hp.slippageModel = some .timeVolumeBased ∧ o.isLimitOrder = false ∧
      s.currentBarVolumes.lookup o.symbol = some 0 := by
  unfold scheduleDivisors slippageDivisors State.hasSymbolVolume State.getSymbolVolume
  cases o.isLimitOrder with
  | true => simp
  | false =>
    rcases hp.slippageModel with _ | (_ | _ | _)
    · simp
    · simp
    · simp
    · cases s.currentBarVolumes.lookup o.symbol with
      | none => simp
      | some v => simp [eq_comm]

theorem scheduleDivisors_subset {e : BackTestEngine} {o : Order} {l : List CInstruction}
    (ho : o ∈ issuedOrders hp e l) :
    scheduleDivisors hp e.state o ⊆ instructionsDivisors hp e l := by
  induction l with
  | nil => cases ho
  | cons i l ih =>
    unfold issuedOrders at ho
    unfold instructionsDivisors
    rcases hi : instructionOrder hp e i with m | o'
    · rw [hi] at ho
      cases ho
    · rw [hi] at ho
      rcases List.mem_cons.1 ho with rfl | ho
      · exact List.Subset.trans (List.subset_append_right _ _) (List.subset_append_left _ _)
      · exact List.Subset.trans (ih ho) (List.subset_append_right _ _)

theorem zero_notMem_instructionsDivisors {e : BackTestEngine}
    (hprices : ∀ symbol, e.state.hasSymbolPrices symbol = true → 0 < e.state.getSymbolClose symbol)
    {l : List CInstruction} (hissued : ∀ o ∈ issuedOrders hp e l, 0 ∉ scheduleDivisors hp e.state o) :
    0 ∉ instructionsDivisors hp e l := by
  induction l with
  | nil => exact List.not_mem_nil
  | cons i l ih =>
    unfold issuedOrders at hissued
    unfold instructionsDivisors
    rcases hi : instructionOrder hp e i with m | o
    · exact List.not_mem_nil
    · rw [hi] at hissued
      dsimp only at hissued ⊢
      rw [List.mem_append, List.mem_append, not_or, not_or]
      refine ⟨⟨?_, hissued o List.mem_cons_self⟩, ih fun o' ho' => hissued o' (List.mem_cons_of_mem _ ho')⟩
      cases i with
      | signal inst =>
        have hsome : e.state.hasSymbolPrices inst.symbol = true := by
          by_contra hnone
          simp [instructionOrder, toInstruction, instructionToOrder, hnone, bind, Except.bind] at hi
        have hpos := Money.toDollars_pos (hprices inst.symbol hsome)
        unfold instructionDivisors PositionCalc.signalSizeDivisors
        dsimp only
        split
        · rw [List.mem_singleton]
          exact hpos.ne
        · rw [List.mem_singleton]
          exact hpos.ne
        · split
          · exact List.not_mem_nil
          · rename_i hlen
            have hlen' : (hp.symbols.length : ℚ) ≠ 0 := by exact_mod_cast hlen
            simp [hpos.ne, hlen'.symm]
      | order inst => exact List.not_mem_nil
      | invalid => exact List.not_mem_nil

/-- A step that does not divide by zero is divisible. -/
theorem divisible_of_zero_notMem (h : 0 ∉ stepDivisors createUuid hp c) : Divisible createUuid hp c := by
  unfold stepDivisors at h
  refine ⟨fun hmodel hphase hcode o ho hmarket hzero => h ?_, fun o e hn ha hf p hp' hzero => ?_⟩
  · have hn : nextExecution c = none := by
      unfold nextExecution
      rw [hphase]
    rw [hn]
    dsimp only
    rw [if_pos ⟨hphase, hcode⟩]
    exact List.mem_append_left _
      (scheduleDivisors_subset ho (zero_mem_scheduleDivisors.2 ⟨hmodel, hmarket, hzero⟩))
  · rw [hn] at h
    dsimp only at h
    obtain ⟨hfill, hpartial⟩ := fillableQuantity_eq_zero hf hp' hzero ha.quantity_pos
    rw [executeDivisors, executeOrder_ok_iff.2 ⟨ha, rfl⟩, List.mem_append, List.mem_append, not_or, not_or] at h
    obtain ⟨-, hsched, hupdate⟩ := h
    constructor
    · by_contra hnot
      have hnot' : ¬ (success o hp e.state (createUuid e.uuidCount)).fill.side.sign *
          e.state.positionQuantity (success o hp e.state (createUuid e.uuidCount)).fill.symbol < 0 := hnot
      refine hupdate ?_
      rw [State.updateStateDivisors_eq, if_neg hnot', List.mem_singleton]
      exact hfill.symm
    · intro hmodel hmarket hvol
      refine hsched ?_
      rw [show (success o hp e.state (createUuid e.uuidCount)).partialOrder = some o from hpartial]
      obtain ⟨v, hv⟩ := Option.isSome_iff_exists.1 ha.volume
      rw [State.getSymbolVolume, hv] at hvol
      have hv0 : v = 0 := hvol
      have hmem : 0 ∈ scheduleDivisors hp e.state o := zero_mem_scheduleDivisors.2 ⟨hmodel, hmarket, by rw [hv, hv0]⟩
      simpa using hmem

/-- What is needed of the market data and the lots for the divisors that are not in doubt. -/
structure Sound (hp : HostParams) (s : State) : Prop where
  lots : s.PositiveLots
  prices : ∀ symbol, s.hasSymbolPrices symbol = true → 0 < s.getSymbolClose symbol
  cap : ∀ symbol, ∀ p ∈ hp.fillMaxPctOfVolume, 0 ≤ (s.getSymbolVolume symbol : ℚ) * p

/-- An accepted order of a divisible step has a fill with shares, or one that goes against the position. -/
theorem Divisible.fillsOrCloses (h : Divisible createUuid hp c) {o : Order} {e : BackTestEngine}
    (hn : nextExecution c = some (o, e))
    (hcap : ∀ p ∈ hp.fillMaxPctOfVolume, 0 ≤ (e.state.getSymbolVolume o.symbol : ℚ) * p)
    (ha : Accepted o hp e.state (createUuid e.uuidCount)) :
    e.state.FillsOrCloses o.side o.symbol (fillableQuantity o hp e.state) := by
  rcases fillableQuantity_pos_or hcap ha with hpos | ⟨hfill, hf, p, hp', hzero⟩
  · exact Or.inl hpos
  · exact Or.inr ⟨hfill, (h.executed o e hn ha hf p hp' hzero).1⟩

/-- A divisible step from a sound account does not divide by zero. -/
theorem Divisible.zero_notMem (h : Divisible createUuid hp c) (hs : Sound hp c.engine.state)
    (hcapital : 0 < hp.initialCapital)
    (hlev : ∀ o e, nextExecution c = some (o, e) → ∀ l ∈ o.leverage, 0 < l) :
    0 ∉ stepDivisors createUuid hp c := by
  unfold stepDivisors
  rcases hn : nextExecution c with _ | ⟨o, e⟩
  · dsimp only
    split
    · rename_i hbar
      rw [List.mem_append, not_or]
      constructor
      · refine zero_notMem_instructionsDivisors hs.prices fun o ho hzero => ?_
        obtain ⟨hmodel, hmarket, hv⟩ := zero_mem_scheduleDivisors.1 hzero
        exact h.issued hmodel hbar.1 hbar.2 o ho hmarket hv
      · split
        · exact List.not_mem_nil
        · exact State.zero_notMem_snapshotDivisors hcapital _
    · exact List.not_mem_nil
  · dsimp only
    have hstate := (nextExecution_sameAccount hn).state
    rw [← hstate] at hs
    have hfill := h.fillsOrCloses hn (hs.cap o.symbol)
    rw [executeDivisors, List.mem_append, not_or]
    refine ⟨zero_notMem_executeOrderDivisors hs.lots (hlev o e hn) hfill, ?_⟩
    rcases hex : executeOrder o hp e.state (createUuid e.uuidCount) with m | r
    · exact List.not_mem_nil
    · obtain ⟨ha, rfl⟩ := executeOrder_ok_iff.1 hex
      dsimp only
      rw [List.mem_append, not_or]
      refine ⟨?_, hs.lots.zero_notMem_updateStateDivisors (hfill ha)⟩
      intro hmem
      obtain ⟨o', ho', hzero⟩ := List.mem_flatMap.1 hmem
      obtain ⟨hmodel, hmarket, hv⟩ := zero_mem_scheduleDivisors.1 hzero
      obtain ⟨rfl, hrem⟩ := partialOrder_eq (Option.mem_toList.1 ho')
      -- a remainder at volume zero is that of a fill of zero shares
      have hvol : e.state.getSymbolVolume o.symbol = 0 := by
        rw [State.getSymbolVolume, show e.state.currentBarVolumes.lookup o.symbol = some 0 from hv]
        rfl
      rcases hpct : hp.fillMaxPctOfVolume with _ | p
      · simp [remainingQuantity, getFillableAndRemainingQuantities, hpct] at hrem
      · have hzero : (e.state.getSymbolVolume o.symbol : ℚ) * p = 0 := by rw [hvol]; simp
        have hf : hp.fractional = true := by
          by_contra hf
          have hw := ha.whole (by simpa using hf)
          simp [fillableQuantity, getFillableAndRemainingQuantities, hpct, hzero, hf, ha.quantity_pos] at hw
        exact (h.executed o e hn ha hf p hpct hzero).2 hmodel hmarket hvol

/-! ### Runs -/

/-- All prices are at least one microdollar, and the volume is not negative. -/
def SoundBar (bar : AggregateBarResult) : Prop :=
  1 / 1000000 ≤ bar.openPrice ∧ 1 / 1000000 ≤ bar.close ∧ 1 / 1000000 ≤ bar.high ∧
    1 / 1000000 ≤ bar.low ∧ 0 ≤ bar.volume

instance : DecidablePred SoundBar := fun bar =>
  inferInstanceAs (Decidable (1 / 1000000 ≤ bar.openPrice ∧ 1 / 1000000 ≤ bar.close ∧ 1 / 1000000 ≤ bar.high ∧
    1 / 1000000 ≤ bar.low ∧ 0 ≤ bar.volume))

/-- Every order executed has no leverage or a positive one. -/
theorem leverage_pos (hr : Reachable createUuid hp feed c) {o : Order} {e : BackTestEngine}
    (hn : nextExecution c = some (o, e)) : ∀ l ∈ o.leverage, 0 < l := by
  refine (reachable_orders (P := fun o => ∀ l ∈ o.leverage, 0 < l) (fun o q h => h) ?_ ?_ hr).2 o e hn
  · intro x l hl
    cases hl
  · intro item _ i _ hp s n j o hj ho l hl
    cases i with
    | signal inst =>
      cases hj
      simp only [instructionToOrder] at ho
      split at ho
      · cases ho
        cases hl
      · cases ho
    | order inst =>
      cases hj
      cases ho
      simp only [Order.ofCOrder] at hl
      split at hl
      · cases hl
      · rename_i hpos
        cases hl
        exact not_le.1 hpos
    | invalid => cases hj

theorem sound (hadm : Admissible hp) (hbars : ∀ item ∈ feed, SoundBar item.bar) (hr : Reachable createUuid hp feed c)
    (hlots : c.engine.state.PositiveLots) : Sound hp c.engine.state := by
  have hlast : ∀ symbol b k, lastBarOf symbol c.engine.processed = some (b, k) → SoundBar b := by
    intro symbol b k h
    obtain ⟨item, hitem, rfl⟩ := processed_of_feed hr b (lastBarOf_mem h)
    exact hbars item hitem
  refine ⟨hlots, fun symbol hsome => ?_, fun symbol p hp' => ?_⟩
  · rcases hb : lastBarOf symbol c.engine.processed with _ | ⟨b, k⟩
    · rw [State.hasSymbolPrices, (marketData hr).prices, hb] at hsome
      cases hsome
    · have hclose : c.engine.state.getSymbolClose symbol = Money.fromDollars b.close := by
        rw [State.getSymbolClose, State.symbolPrices, (marketData hr).prices, hb]
        rfl
      rw [hclose]
      have hone : Money.fromDollars (1 / 1000000) = 1 := by decide +kernel
      have hle := Money.fromDollars_mono (hlast symbol b k hb).2.1
      rw [hone] at hle
      exact lt_of_lt_of_le one_pos hle
  · refine mul_nonneg ?_ (hadm.cap p hp').1
    rw [State.getSymbolVolume, (marketData hr).volumes]
    rcases hb : lastBarOf symbol c.engine.processed with _ | ⟨b, k⟩
    · simp
    · have hv := (hlast symbol b k hb).2.2.2.2
      simpa [Rounding.truncZero, hv] using Int.floor_nonneg.2 hv

/-- As long as the steps are divisible, every lot has shares. -/
theorem positiveLots (hadm : Admissible hp) (hbars : ∀ item ∈ feed, SoundBar item.bar)
    (hdiv : ∀ c', Reachable createUuid hp feed c' → Reaches₁ (step createUuid hp) c' c → Divisible createUuid hp c')
    (hr : Reachable createUuid hp feed c) : c.engine.state.PositiveLots := by
  refine reachable_ledger (J := fun e => e.state.PositiveLots)
    (G := fun e o => Accepted o hp e.state (createUuid e.uuidCount) → e.state.PositiveLots →
      e.state.FillsOrCloses o.side o.symbol (fillableQuantity o hp e.state)) ?_ ?_ ?_ ?_ hr
  · intro side u a ha
    cases side <;> cases ha
  · intro e e' hs h side u a ha
    rw [hs.active] at ha
    exact h side u a ha
  · intro e o h hG
    rcases execute_state createUuid hp e o with he | ⟨ha, he⟩
    · rw [he]
      exact h
    · rw [he]
      exact h.updateState (hG ha h)
  · intro c' hr' hc' o e hn ha hlots
    have hstate := (nextExecution_sameAccount hn).state
    have hs := sound hadm hbars hr' (hstate ▸ hlots)
    rw [← hstate] at hs
    exact (hdiv c' hr' hc').fillsOrCloses hn (hs.cap o.symbol) ha

/-- In a run up to `c` no step divides by zero if and only if every step is divisible. -/
theorem no_zero_divisor_iff (hadm : Admissible hp) (hcapital : 0 < hp.initialCapital)
    (hbars : ∀ item ∈ feed, SoundBar item.bar) :
    (∀ c', Reachable createUuid hp feed c' → Reaches (step createUuid hp) c' c → 0 ∉ stepDivisors createUuid hp c') ↔
      ∀ c', Reachable createUuid hp feed c' → Reaches (step createUuid hp) c' c → Divisible createUuid hp c' := by
  refine ⟨fun h c' hr hc => divisible_of_zero_notMem (h c' hr hc), fun h c' hr hc => ?_⟩
  have hlots : c'.engine.state.PositiveLots := by
    refine positiveLots hadm hbars (fun c'' hr'' hc'' => h c'' hr'' ?_) hr
    exact Relation.ReflTransGen.trans hc''.to_reflTransGen hc
  exact (h c' hr hc).zero_notMem (sound hadm hbars hr hlots) hcapital fun o e hn => leverage_pos hr hn

/-- A million dollars and slippage by time and volume. -/
def timeVolumeParams : HostParams := { sampleParams with slippageModel := some .timeVolumeBased }

/-- A market order on a bar without volume. -/
def emptyBarFeed : List FeedItem := sampleFeed "A" 0 [(100, "buy", 1)]

/-- A market order on a bar with volume, and a bar without volume. -/
def emptyBarAfterFeed : List FeedItem := sampleFeed "A" 1000 [(100, "buy", 1)] ++ [⟨sampleBar "A" 100 0 1, {}⟩]

/-- Every bar is sound, and still the slippage of a market order on a bar without volume divides by zero; so does a
fill of zero shares, which is accepted on such a bar when fractional shares are allowed and fills are capped. -/
theorem zero_volume_divides_by_zero :
    (Admissible timeVolumeParams ∧ 0 < timeVolumeParams.initialCapital ∧ (∀ item ∈ emptyBarFeed, SoundBar item.bar) ∧
      0 ∈ stepDivisors sampleUuid timeVolumeParams (sampleRun timeVolumeParams emptyBarFeed 6)) ∧
    (Admissible fractionalParams ∧ 0 < fractionalParams.initialCapital ∧
      (∀ item ∈ emptyBarAfterFeed, SoundBar item.bar) ∧
      0 ∈ stepDivisors sampleUuid fractionalParams (sampleRun fractionalParams emptyBarAfterFeed 8)) := by
  refine ⟨⟨⟨?_, ?_⟩, by decide, by decide +kernel, by decide +kernel⟩,
    ⟨⟨?_, ?_⟩, by decide, by decide +kernel, by decide +kernel⟩⟩
  · rintro p ⟨⟩
  · rintro l ⟨⟩
  · rintro p ⟨rfl⟩
    norm_num
  · rintro l ⟨⟩

/-- With volume in every bar the slippage divides by the volume, and the snapshot by the peak and the capital. -/
theorem no_zero_divisor_with_volume :
    let feed := sampleFeed "A" 1000 [(100, "buy", 1), (101, "sell", 1)]
    stepDivisors sampleUuid timeVolumeParams (sampleRun timeVolumeParams feed 6) = [1000, 1000000, 1000000] ∧
      0 ∉ stepDivisors sampleUuid timeVolumeParams (sampleRun timeVolumeParams feed 6) := by
  intro feed
  have hadm : Admissible timeVolumeParams := ⟨by rintro p ⟨⟩, by rintro l ⟨⟩⟩
  have hbars : ∀ item ∈ feed, SoundBar item.bar := by decide +kernel
  have hvolume : ∀ item ∈ feed, item.bar.volume = 1000 := by decide +kernel
  refine ⟨by decide +kernel, (no_zero_divisor_iff hadm (by decide) hbars).2 (fun c hr _ => ⟨?_, ?_⟩) _
    (reachable_sampleRun timeVolumeParams feed 6) Relation.ReflTransGen.refl⟩
  · intro _ _ _ o _ _ hzero
    rw [(marketData hr).volumes] at hzero
    obtain ⟨⟨b, k⟩, hb, hv⟩ := Option.map_eq_some_iff.1 hzero
    obtain ⟨item, hitem, rfl⟩ := processed_of_feed hr b (lastBarOf_mem hb)
    rw [hvolume item hitem] at hv
    exact absurd hv (by decide +kernel)
  · rintro o e _ _ _ p ⟨⟩

end BackTestEngine

end QuantForge
