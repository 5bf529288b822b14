import QuantForge.EquityCurve
import QuantForge.Registry

/-!
# What the plugin sees

`ABIConverter::to_c_state` and `to_plugin_bar`, and the calls of `on_bar` in a run; an array is taken here as its
entries.  A call hands over the bar, the account and the fills and exit orders that are new; over a run these are all
fills and exit orders, each once, in their order, and in the call of the bar they belong to (`reported`).  Without
fractional shares a plugin that nets the fills it has been told of knows its positions (`positions_reported`).
-/

namespace QuantForge

/-! ### `abi.h` -/

structure CFill where
  quantity : ℚ
  price : ℤ
  createdAtNs : ℤ
  symbol : Symbol
  uuid : Uuid
  action : String
  deriving DecidableEq

/-- The fields that `CStopLossExitOrder` and `CTakeProfitExitOrder` have in common; `triggerPrice` is the
`stop_loss_price_` of the one and the `take_profit_price_` of the other. -/
structure CExitOrderData where
  isTriggered : Bool
  triggerQuantity : ℚ
  triggerPrice : ℤ
  price : ℤ
  createdAtNs : ℤ
  symbol : Symbol
  fillUuid : Uuid
  deriving DecidableEq

inductive CExitOrder
  | stopLoss (order : CExitOrderData)
  | takeProfit (order : CExitOrderData)
  deriving DecidableEq

structure CPosition where
  symbol : Symbol
  quantity : ℚ
  averagePrice : ℚ
  deriving DecidableEq

structure CEquitySnapshot where
  timestampNs : ℤ
  equity : ℤ
  returns : ℚ
  maxDrawdown : ℚ
  sharpeRatio : ℚ
  sortinoRatio : ℚ
  calmarRatio : ℚ
  tailRatio : ℚ
  valueAtRisk : ℚ
  conditionalValueAtRisk : ℚ
  deriving DecidableEq

structure CState where
  cash : ℤ
  positions : List CPosition
  newExitOrders : List CExitOrder
  newFills : List CFill
  equityCurve : List CEquitySnapshot
  deriving DecidableEq

structure CBar where
  symbol : Symbol
  unixTsNs : ℤ
  openPrice : ℚ
  high : ℚ
  low : ℚ
  close : ℚ
  volume : ℚ
  deriving DecidableEq

/-- `to_plugin_bar`. -/
def toPluginBar (bar : AggregateBarResult) : CBar :=
  ⟨bar.symbol, bar.unixTsNs, bar.openPrice, bar.high, bar.low, bar.close, bar.volume⟩

/-! ### `abi_converter.cpp` -/

namespace ABIConverter

def toCFill (fill : Fill) : CFill :=
  ⟨fill.quantity, fill.price, fill.createdAtNs, fill.symbol, fill.uuid, fill.action⟩

def toCFills (fills : List Fill) : List CFill := fills.map toCFill

/-- One entry for each position, in the order of the symbols. -/
def toCPositions (positions : Map Symbol Position) : List CPosition :=
  positions.sortedKeys.filterMap fun symbol =>
    (positions.lookup symbol).map fun p => ⟨symbol, p.quantity, Money.toDollars p.averagePrice⟩

/-- The ratios are zero in every snapshot. -/
def toCEquitySnapshots (curve : List EquitySnapshot) : List CEquitySnapshot :=
  curve.map fun x => ⟨x.timestampNs, x.equity, x.returns, x.maxDrawdown, 0, 0, 0, 0, 0, 0⟩

/-- `to_c_stop_loss_exit_order` and `to_c_take_profit_exit_order`; nothing ever sets `is_triggered_`. -/
def toCExitOrder (x : ExitOrder) : CExitOrder :=
  let data : CExitOrderData :=
    ⟨false, x.triggerQuantity, x.triggerPrice, x.price, x.createdAtNs, x.symbol, x.fillUuid⟩
  match x.kind with
  | .stopLoss => .stopLoss data
  | .takeProfit => .takeProfit data

def toCExitOrders (exitOrders : List ExitOrder) : List CExitOrder := exitOrders.map toCExitOrder

def toCState (s : State) : CState where
  cash := s.cash
  positions := toCPositions s.positions
  newExitOrders := toCExitOrders s.newExitOrders
  newFills := toCFills s.newFills
  equityCurve := toCEquitySnapshots s.equityCurve

end ABIConverter

open ABIConverter

/-- The quantity reported for a symbol, zero when it is not listed. -/
def CState.quantityOf (s : CState) (symbol : Symbol) : ℚ :=
  ((s.positions.find? fun p => p.symbol = symbol).map CPosition.quantity).getD 0

/-- What a fill adds to the position of its symbol. -/
def CFill.signedQuantity (f : CFill) : ℚ :=
  if f.action = Constants.buy then f.quantity else if f.action = Constants.sell then -f.quantity else 0

/-- The fills of a symbol, netted. -/
def netOf (symbol : Symbol) (fills : List CFill) : ℚ :=
  ((fills.filter fun f => f.symbol = symbol).map CFill.signedQuantity).sum

theorem netOf_append (symbol : Symbol) (fills fills' : List CFill) :
    netOf symbol (fills ++ fills') = netOf symbol fills + netOf symbol fills' := by
  simp [netOf]

theorem netOf_singleton (symbol : Symbol) (f : CFill) :
    netOf symbol [f] = if f.symbol = symbol then f.signedQuantity else 0 := by
  unfold netOf
  by_cases h : f.symbol = symbol <;> simp [h]

/-! ### The positions reported -/

section Positions

variable (positions : Map Symbol Position)

/-- Each symbol is listed at most once, and the symbols increase. -/
theorem toCPositions_sorted : (toCPositions positions).Pairwise fun p q => p.symbol < q.symbol := by
  have hsorted : positions.sortedKeys.Pairwise (· < ·) := by
    have hle : positions.sortedKeys.Pairwise (· ≤ ·) := List.pairwise_insertionSort _ _
    have hnd : positions.sortedKeys.Pairwise (· ≠ ·) :=
      (List.perm_insertionSort (· ≤ ·) positions.keys).nodup_iff.2 positions.keys_nodup
    exact (hle.and hnd).imp fun h => lt_of_le_of_ne h.1 h.2
  unfold toCPositions
  rw [List.pairwise_filterMap]
  refine hsorted.imp fun {a b} hab p hp q hq => ?_
  obtain ⟨_, -, rfl⟩ := Option.map_eq_some_iff.1 hp
  obtain ⟨_, -, rfl⟩ := Option.map_eq_some_iff.1 hq
  exact hab

theorem mem_toCPositions {p : CPosition} :
    p ∈ toCPositions positions ↔
      ∃ q, positions.lookup p.symbol = some q ∧ p.quantity = q.quantity ∧
        p.averagePrice = Money.toDollars q.averagePrice := by
  unfold toCPositions Map.sortedKeys
  simp only [List.mem_filterMap, List.mem_insertionSort, Option.map_eq_some_iff]
  constructor
  · rintro ⟨symbol, -, q, hq, rfl⟩
    exact ⟨q, hq, rfl, rfl⟩
  · rintro ⟨q, hq, hquantity, hprice⟩
    refine ⟨p.symbol, AList.mem_keys.1 (AList.lookup_isSome.1 (Option.isSome_of_eq_some hq)), q, hq, ?_⟩
    rw [← hquantity, ← hprice]

end Positions

theorem quantityOf_toCState (s : State) (symbol : Symbol) :
    (toCState s).quantityOf symbol = s.positionQuantity symbol := by
  unfold CState.quantityOf State.positionQuantity
  rcases hfind : (toCState s).positions.find? fun p => p.symbol = symbol with _ | p
  · rw [hfind]
    rcases hlook : s.positions.lookup symbol with _ | q
    · rfl
    · have hmem : (⟨symbol, q.quantity, Money.toDollars q.averagePrice⟩ : CPosition) ∈ toCPositions s.positions :=
        (mem_toCPositions _).2 ⟨q, hlook, rfl, rfl⟩
      exact absurd (decide_eq_true rfl) (List.find?_eq_none.1 hfind _ hmem)
  · obtain ⟨q, hq, hquantity, -⟩ := (mem_toCPositions _).1 (List.mem_of_find?_eq_some hfind)
    have hsymbol : p.symbol = symbol := by simpa using List.find?_some hfind
    rw [hfind, ← hsymbol, hq]
    exact hquantity

namespace BackTestEngine

open Executor

variable {createUuid : ℕ → Uuid} {hp : HostParams} {feed : List FeedItem} {c c' : Config}

/-! ### What a run reports -/

/-- What a step hands to the plugin: the current bar and the account, when it calls `on_bar`. -/
def handed (c : Config) : List (CBar × CState) :=
  if c.phase = .onBar then c.engine.processed.getLast?.toList.map fun bar =>
    (toPluginBar bar, toCState c.engine.state)
  else []

/-- The plugin has been called for the last bar taken up. -/
def Phase.isReported : Phase → Bool
  | .nextBar => true
  | .failed _ => true
  | _ => false

/-- What the plugin has been told, together with what it is yet to be told of the current bar, are the bars, fills and
exit orders of the run. -/
structure Reported (seen : List (CBar × CState)) (c : Config) : Prop where
  bars : c.engine.processed.map toPluginBar =
    seen.map Prod.fst ++ if c.phase.isReported then [] else c.engine.processed.getLast?.toList.map toPluginBar
  fills : toCFills c.engine.state.fills =
    (seen.flatMap fun v => v.2.newFills) ++ if c.phase.isReported then [] else toCFills c.engine.state.newFills
  exitOrders : toCExitOrders c.engine.state.exitOrders =
    (seen.flatMap fun v => v.2.newExitOrders) ++
      if c.phase.isReported then [] else toCExitOrders c.engine.state.newExitOrders
  /-- a fill is reported with the bar it was executed on -/
  timely : ∀ v ∈ seen, ∀ f ∈ v.2.newFills, f.createdAtNs = v.1.unixTsNs
  /-- nothing is left over from the last bar -/
  cleared : c.phase = .nextBar → c.engine.state.newFills = [] ∧ c.engine.state.newExitOrders = []
  current : c.phase.isReported = false → ∃ bar, c.engine.processed.getLast? = some bar ∧
    c.engine.state.currentTimestampNs = bar.unixTsNs ∧
    ∀ f ∈ c.engine.state.newFills, f.createdAtNs = c.engine.state.currentTimestampNs

/-- Where a step inside a bar leads: an exception of `on_bar`, or another place before the call. -/
theorem step_phases (hs : step createUuid hp c = some c') (h : c.phase ≠ .nextBar) (h' : c'.phase ≠ .nextBar) :
    (c.phase = .onBar ∧ c'.phase.isReported = true) ∨
      (c.phase ≠ .onBar ∧ c.phase.isReported = false ∧ c'.phase.isReported = false) := by
  have inside : ∀ p p', c.phase = p → c'.phase = p' → p ≠ .onBar → p.isReported = false → p'.isReported = false →
      (c.phase = .onBar ∧ c'.phase.isReported = true) ∨
        (c.phase ≠ .onBar ∧ c.phase.isReported = false ∧ c'.phase.isReported = false) := by
    rintro p p' rfl rfl hon hp hp'
    exact Or.inr ⟨hon, hp, hp'⟩
  cases step_cases hs with
  | execute o e hn hphase _ _ _ =>
    have hloop : c.phase.isReported = false ∧ c.phase ≠ .onBar := by
      rcases hc : c.phase with _ | _ | _ | _ | _ | _ | _ | _ <;> simp [nextExecution, hc] at hn <;>
        exact ⟨rfl, by simp⟩
    exact inside _ _ rfl hphase hloop.2 hloop.1 hloop.1
  | closed item hphase _ _ => exact absurd hphase h
  | bar item hphase _ _ => exact absurd hphase h
  | toBuyLimits bar hphase _ hc => exact inside _ _ hphase (by rw [hc]) (by simp) rfl rfl
  | nextBuySymbol _ _ hphase _ hc => exact inside _ _ hphase (by rw [hc]) (by simp) rfl rfl
  | toSellLimits hphase hc => exact inside _ _ hphase (by rw [hc]) (by simp) rfl rfl
  | nextSellSymbol _ _ hphase _ hc => exact inside _ _ hphase (by rw [hc]) (by simp) rfl rfl
  | toStopLosses hphase hc => exact inside _ _ hphase (by rw [hc]) (by simp) rfl rfl
  | dropStopLoss l x hphase _ _ _ hc =>
    exact inside _ (.stopLosses l) hphase (by rw [hc]; exact hphase) (by simp) rfl rfl
  | setStopLossAside l x hphase _ _ _ hc => exact inside _ _ hphase (by rw [hc]) (by simp) rfl rfl
  | toTakeProfits l hphase _ hc => exact inside _ _ hphase (by rw [hc]) (by simp) rfl rfl
  | dropTakeProfit l x hphase _ _ _ hc =>
    exact inside _ (.takeProfits l) hphase (by rw [hc]; exact hphase) (by simp) rfl rfl
  | setTakeProfitAside l x hphase _ _ _ hc => exact inside _ _ hphase (by rw [hc]) (by simp) rfl rfl
  | toOnBar l hphase _ hc => exact inside _ _ hphase (by rw [hc]) (by simp) rfl rfl
  | fail message hphase _ hc => exact Or.inl ⟨hphase, by rw [hc]; rfl⟩
  | throw t hphase _ hc => exact Or.inl ⟨hphase, by rw [hc]; rfl⟩
  | finish e _ _ hc => exact absurd (by rw [hc]) h'

/-- A step that touches neither the account nor the bars, and does not call the plugin. -/
private theorem Reported.quiet {seen : List (CBar × CState)} (h : Reported seen c)
    (hphase : c.phase.isReported = false) (hphase' : c'.phase.isReported = false)
    (hsame : SameAccount c.engine c'.engine) : Reported seen c' := by
  have hnext : c'.phase ≠ .nextBar := fun hc => by rw [hc] at hphase'; cases hphase'
  refine ⟨?_, ?_, ?_, h.timely, fun hc => absurd hc hnext, fun _ => ?_⟩
  · rw [hsame.processed, h.bars, hphase, hphase']
  · rw [hsame.state, h.fills, hphase, hphase']
  · rw [hsame.state, h.exitOrders, hphase, hphase']
  · rw [hsame.state, hsame.processed]
    exact h.current hphase

/-- The call of `on_bar`. -/
private theorem Reported.call {seen : List (CBar × CState)} (h : Reported seen c) (hphase : c.phase = .onBar)
    (hphase' : c'.phase.isReported = true) (hprocessed : c'.engine.processed = c.engine.processed)
    (hfills : c'.engine.state.fills = c.engine.state.fills)
    (hexits : c'.engine.state.exitOrders = c.engine.state.exitOrders)
    (hcleared : c'.phase = .nextBar → c'.engine.state.newFills = [] ∧ c'.engine.state.newExitOrders = []) :
    Reported (seen ++ handed c) c' := by
  have hrep : c.phase.isReported = false := by rw [hphase]; rfl
  obtain ⟨bar, hbar, htime, hnew⟩ := h.current hrep
  have hhanded : handed c = [(toPluginBar bar, toCState c.engine.state)] := by
    rw [handed, if_pos hphase, hbar]
    rfl
  rw [hhanded]
  refine ⟨?_, ?_, ?_, ?_, hcleared, fun hc => absurd hc (by rw [hphase']; simp)⟩
  · rw [hprocessed, h.bars, hrep, hphase', hbar]
    simp
  · rw [hfills, h.fills, hrep, hphase']
    simp [toCState]
  · rw [hexits, h.exitOrders, hrep, hphase']
    simp [toCState]
  · intro v hv f hf
    rcases List.mem_append.1 hv with hv | hv
    · exact h.timely v hv f hf
    · rw [List.mem_singleton.1 hv] at hf ⊢
      obtain ⟨fill, hfill, rfl⟩ := List.mem_map.1 hf
      exact (hnew fill hfill).trans htime

/-- An execution before the call: its fill is still to be reported. -/
private theorem Reported.execute {seen : List (CBar × CState)} (h : Reported seen c) {o : Order} {e : BackTestEngine}
    (hphase : c.phase.isReported = false) (hphase' : c'.phase = c.phase) (hsame : SameAccount c.engine e)
    (he : c'.engine = execute createUuid hp e o) : Reported seen c' := by
  have hnext : c'.phase ≠ .nextBar := fun hc => by rw [← hphase', hc] at hphase; cases hphase
  have hprocessed : c'.engine.processed = c.engine.processed := by
    rw [he, (execute_marketData createUuid hp e o).1, hsame.processed]
  have htime : c'.engine.state.currentTimestampNs = c.engine.state.currentTimestampNs := by
    rw [he, execute_currentTimestampNs, hsame.state]
  obtain ⟨bar, hbar, hts, hnew⟩ := h.current hphase
  have hbars := h.bars
  have hfills := h.fills
  have hexits := h.exitOrders
  rw [hphase] at hbars hfills hexits
  rcases execute_state createUuid hp e o with hstate | ⟨-, hstate⟩
  · rw [← he, hsame.state] at hstate
    refine ⟨?_, ?_, ?_, h.timely, fun hc => absurd hc hnext, fun _ => ⟨bar, ?_, ?_⟩⟩
    · rw [hprocessed, hphase', hphase, hbars]
    · rw [hstate, hphase', hphase, hfills]
    · rw [hstate, hphase', hphase, hexits]
    · rw [hprocessed, hbar]
    · rw [hstate]
      exact ⟨hts, hnew⟩
  · rw [← he, hsame.state] at hstate
    set r := success o hp c.engine.state (createUuid e.uuidCount)
    have hbook := State.updateState_booking (s := c.engine.state) (r := r) rfl
    obtain ⟨hexits', hnewExits⟩ := State.updateState_exitOrders c.engine.state r
    refine ⟨?_, ?_, ?_, h.timely, fun hc => absurd hc hnext, fun _ => ⟨bar, ?_, ?_, ?_⟩⟩
    · rw [hprocessed, hphase', hphase, hbars]
    · rw [hstate, hbook.fills, hbook.newFills, hphase', hphase, toCFills, List.map_append, ← toCFills, hfills]
      simp [toCFills]
    · rw [hstate, hexits', hnewExits, hphase', hphase, toCExitOrders, List.map_append, ← toCExitOrders, hexits]
      simp [toCExitOrders]
    · rw [hprocessed, hbar]
    · rw [htime, hts]
    · intro f hf
      rw [hstate, hbook.newFills] at hf
      rw [htime]
      rcases List.mem_append.1 hf with hf | hf
      · exact hnew f hf
      · rw [List.mem_singleton.1 hf]
        rfl

/-- A bar is taken up. -/
private theorem Reported.bar {seen : List (CBar × CState)} (h : Reported seen c) {bar : AggregateBarResult}
    (hphase : c.phase = .nextBar) (hphase' : c'.phase.isReported = false)
    (he : c'.engine = c.engine.prepareNextBar bar) : Reported seen c' := by
  obtain ⟨hnil, hnilExits⟩ := h.cleared hphase
  have hrep : c.phase.isReported = true := by rw [hphase]; rfl
  have hbars := h.bars
  have hfills := h.fills
  have hexits := h.exitOrders
  rw [hrep] at hbars hfills hexits
  have hnext : c'.phase ≠ .nextBar := fun hc => by rw [hc] at hphase'; cases hphase'
  refine ⟨?_, ?_, ?_, h.timely, fun hc => absurd hc hnext, fun _ => ⟨bar, ?_, ?_, ?_⟩⟩
  · rw [he, hphase']
    show (c.engine.processed ++ [bar]).map toPluginBar = _
    rw [List.map_append, hbars]
    simp [prepareNextBar]
  · rw [he, hphase']
    show toCFills c.engine.state.fills = _ ++ toCFills c.engine.state.newFills
    rw [hfills, hnil]
    rfl
  · rw [he, hphase']
    show toCExitOrders c.engine.state.exitOrders = _ ++ toCExitOrders c.engine.state.newExitOrders
    rw [hexits, hnilExits]
    rfl
  · rw [he]
    exact List.getLast?_concat
  · rw [he]
    rfl
  · rw [he]
    intro f hf
    change f ∈ c.engine.state.newFills at hf
    rw [hnil] at hf
    cases hf

private theorem reported {seen : List (CBar × CState)}
    (h : Loop.Trace (step createUuid hp) handed (start hp feed) seen c) : Reported seen c := by
  refine Loop.trace_invariant (P := Reported) ?_ ?_ h
  · exact ⟨rfl, rfl, rfl, by simp, fun _ => ⟨rfl, rfl⟩, fun h => by cases h⟩
  intro seen c c' _ hI hs
  have silent : c.phase ≠ .onBar → handed c = [] := fun hon => if_neg hon
  cases step_kinds hs with
  | execute o e hn hphase _ _ he =>
    have hnext : c.phase ≠ .nextBar := fun hc => by simp [nextExecution, hc] at hn
    rcases step_phases hs hnext (by rw [hphase]; exact hnext) with ⟨hon, -⟩ | ⟨hon, hrep, -⟩
    · simp [nextExecution, hon] at hn
    · rw [silent hon, List.append_nil]
      exact hI.execute hrep hphase (nextExecution_sameAccount hn) he
  | closed item hphase _ hc =>
    rw [silent (by rw [hphase]; simp), List.append_nil, hc]
    exact ⟨hI.bars, hI.fills, hI.exitOrders, hI.timely, hI.cleared, hI.current⟩
  | bar item hphase _ hc =>
    rw [silent (by rw [hphase]; simp), List.append_nil]
    exact hI.bar hphase (by rw [hc]; rfl) (by rw [hc])
  | finish e hphase hsched hc =>
    have hsame := sameAccount_scheduled hsched
    obtain ⟨curve, peak, drawdown, hfin⟩ := finishBar_frame e hp
    refine hI.call hphase (by rw [hc]; rfl) ?_ ?_ ?_ ?_ <;> rw [hc, hfin]
    · exact hsame.processed
    · show e.state.fills = c.engine.state.fills
      rw [hsame.state]
    · show e.state.exitOrders = c.engine.state.exitOrders
      rw [hsame.state]
    · exact fun _ => ⟨rfl, rfl⟩
  | throw t hphase hsched hc =>
    have hsame := sameAccount_thrown hsched
    rw [hc]
    refine hI.call hphase rfl hsame.processed ?_ ?_ fun hc => by cases hc
    · exact congrArg State.fills hsame.state
    · exact congrArg State.exitOrders hsame.state
  | move hphase hfeed _ hsame _ _ =>
    have hnext : c.phase ≠ .nextBar := by
      intro hc
      obtain ⟨item, hitem⟩ := feed_of_nextBar hs hc
      rw [hfeed] at hitem
      exact List.cons_ne_self item c.feed hitem.symm
    rcases step_phases hs hnext hphase with ⟨hon, hrep'⟩ | ⟨hon, hrep, hrep'⟩
    · refine hI.call hon hrep' hsame.processed ?_ ?_ fun hc => absurd hc hphase
      · exact congrArg State.fills hsame.state
      · exact congrArg State.exitOrders hsame.state
    · rw [silent hon, List.append_nil]
      exact hI.quiet hrep hrep' hsame

theorem handed_of_onBar (hr : Reachable createUuid hp feed c) (hphase : c.phase = .onBar) :
    ∃ bar, handed c = [(toPluginBar bar, toCState c.engine.state)] := by
  obtain ⟨seen, h⟩ := Loop.exists_trace handed hr
  obtain ⟨bar, hbar, -⟩ := (reported h).current (by rw [hphase]; rfl)
  refine ⟨bar, ?_⟩
  rw [handed, if_pos hphase, hbar]
  rfl

/-- Between two bars the plugin has been called once for every bar, in order, and has been told of every fill and
every exit order of the run once, in order and in the call of the bar they belong to. -/
theorem reported_once {seen : List (CBar × CState)}
    (h : Loop.Trace (step createUuid hp) handed (start hp feed) seen c) (hrest : c.phase.isReported = true) :
    seen.map Prod.fst = c.engine.processed.map toPluginBar ∧
      (seen.flatMap fun v => v.2.newFills) = toCFills c.engine.state.fills ∧
      (seen.flatMap fun v => v.2.newExitOrders) = toCExitOrders c.engine.state.exitOrders ∧
      ∀ v ∈ seen, ∀ f ∈ v.2.newFills, f.createdAtNs = v.1.unixTsNs := by
  have hrep := reported h
  have hbars := hrep.bars
  have hfills := hrep.fills
  have hexits := hrep.exitOrders
  rw [hrest, if_pos rfl, List.append_nil] at hbars hfills hexits
  exact ⟨hbars.symm, hfills.symm, hexits.symm, hrep.timely⟩

/-- Two of a hundred shares filled at once, with a stop loss; the rest on the bars after. -/
def reportedFeed : List FeedItem :=
  [⟨sampleBar "A" 100 1000 1,
      { instructions := [.order { sampleOrder "A" "buy" 2 with stopLossPrice := 90000000 }] }⟩,
    ⟨sampleBar "A" 100 1000 2, { instructions := [.order (sampleOrder "A" "sell" 1)] }⟩,
      ⟨sampleBar "A" 80 1000 3, {}⟩]

/-- Three fills, the last of them the stop loss, in two of the three calls. -/
theorem reported_once_sample :
    let c := sampleRun sampleParams reportedFeed 40
    let seen := Loop.events (step sampleUuid sampleParams) handed 40 (start sampleParams reportedFeed)
    (seen.map fun v => (v.1.unixTsNs, v.2.newFills.length, v.2.newExitOrders.length)) =
      [(1, 0, 0), (2, 1, 1), (3, 2, 0)] ∧
      (seen.flatMap fun v => v.2.newFills) = toCFills c.engine.state.fills := by
  intro c seen
  exact ⟨by decide +kernel, (reported_once (Loop.trace_iter _ _ 40 _) (by decide +kernel)).2.1⟩

/-! ### The positions a plugin can work out -/

/-- What an execution adds to the position of its symbol, whatever the action of the order. -/
private theorem position_success (hw : hp.fractional = false) {o : Order} {s : State} (uuid : Uuid)
    (hQ : IsWhole (s.positionQuantity o.symbol)) :
    IsWhole (success o hp s uuid).position.quantity ∧
      (success o hp s uuid).position.quantity =
        s.positionQuantity o.symbol + (toCFill (success o hp s uuid).fill).signedQuantity := by
  have hq : IsWhole (fillableQuantity o hp s) := fillableQuantity_whole hw
  have hclamp : ∀ x : ℚ, IsWhole x → (if |x| < Constants.epsilon then 0 else x) = x := by
    intro x hx
    split
    · rename_i hlt
      exact (hx.eq_zero_of_abs_lt hlt).symm
    · rfl
  show IsWhole (PositionCalc.calculatePosition o _ _ s).quantity ∧ (PositionCalc.calculatePosition o _ _ s).quantity =
    _ + (if o.action = _ then fillableQuantity o hp s else if o.action = _ then -fillableQuantity o hp s else 0)
  by_cases hon : ∃ d, o.isOn d = true
  · obtain ⟨d, hd⟩ := hon
    have hsum : IsWhole (s.positionQuantity o.symbol + d.sign * fillableQuantity o hp s) := hQ.add (hq.sign_mul d)
    rw [PositionCalc.calculatePosition_quantity hd, hclamp _ hsum]
    refine ⟨hsum, ?_⟩
    obtain ⟨hb, hs⟩ := isBuy_isSell_of_isOn hd
    unfold Order.isBuy at hb
    unfold Order.isSell at hs
    cases d <;> simp_all [Side.sign]
  · have hb : o.isBuy = false := Bool.eq_false_iff.2 fun hb => hon ⟨.buy, hb⟩
    have hs : o.isSell = false := Bool.eq_false_iff.2 fun hs => hon ⟨.sell, hs⟩
    rw [PositionCalc.calculatePosition_quantity_unknown hb hs, hclamp _ hQ]
    unfold Order.isBuy at hb
    unfold Order.isSell at hs
    exact ⟨hQ, by simp_all⟩

/-- Without fractional shares a position is what the fills of its symbol add up to. -/
private theorem netted (hw : hp.fractional = false) (hr : Reachable createUuid hp feed c) (symbol : Symbol) :
    c.engine.state.positionQuantity symbol = netOf symbol (toCFills c.engine.state.fills) := by
  have hnamed : ExecutionsMeet createUuid hp feed c fun e _ =>
      ∀ symbol p, e.state.positions.lookup symbol = some p → p.symbol = symbol :=
    executionsMeet_of_account (fun e e' hs h => by rw [hs.state]; exact h) fun _ hr => positions_named hr
  have key := reachable_ledger (J := fun e => ∀ symbol, IsWhole (e.state.positionQuantity symbol) ∧
    e.state.positionQuantity symbol = netOf symbol (toCFills e.state.fills)) ?_ ?_ ?_ hnamed hr
  · exact (key symbol).2
  · exact fun symbol => ⟨IsWhole.zero, rfl⟩
  · intro e e' hs h
    have hQ : ∀ symbol, e'.state.positionQuantity symbol = e.state.positionQuantity symbol := fun symbol => by
      rw [State.positionQuantity, State.positionQuantity, hs.positions]
    intro symbol
    rw [hQ, hs.fills]
    exact h symbol
  · intro e o h hpos symbol
    rcases execute_state createUuid hp e o with he | ⟨-, he⟩
    · rw [he]
      exact h symbol
    · set r := success o hp e.state (createUuid e.uuidCount)
      have hsym : r.fill.symbol = o.symbol := rfl
      have hsym' : (toCFill r.fill).symbol = o.symbol := rfl
      obtain ⟨hwhole, hquantity⟩ := position_success hw (createUuid e.uuidCount) (h o.symbol).1
      have hfills := (State.updateState_booking (s := e.state) (r := r) rfl).fills
      rw [he, State.updateState_positionQuantity (PositionCalc.calculatePosition_symbol (hpos _) _ _),
        hfills, toCFills,
        List.map_append, netOf_append, ← toCFills, ← (h symbol).2, List.map_singleton, netOf_singleton, hsym, hsym']
      by_cases hs : symbol = o.symbol
      · subst hs
        rw [if_pos rfl, if_pos rfl]
        exact ⟨hwhole, hquantity⟩
      · rw [if_neg hs, if_neg (Ne.symm hs), add_zero]
        exact h symbol |>.imp_right fun _ => rfl

/-- Without fractional shares the position of a symbol that a call of `on_bar` reports is the net of the fills
reported up to and including that call. -/
theorem positions_reported (hw : hp.fractional = false) {seen : List (CBar × CState)}
    (h : Loop.Trace (step createUuid hp) handed (start hp feed) seen c) {pre : List (CBar × CState)}
    {v : CBar × CState} (hpre : pre ++ [v] <+: seen) (symbol : Symbol) :
    v.2.quantityOf symbol = netOf symbol ((pre ++ [v]).flatMap fun v => v.2.newFills) := by
  induction h generalizing pre v with
  | refl => simp at hpre
  | @tail seen c c' h hs ih =>
    by_cases hon : c.phase = .onBar
    · have hrep : c.phase.isReported = false := by rw [hon]; rfl
      have hR := reported h
      obtain ⟨bar, hhanded⟩ := handed_of_onBar h.reaches hon
      rw [hhanded, List.prefix_concat_iff] at hpre
      rcases hpre with hlast | hpre
      · -- the call being made
        obtain ⟨rfl, hv⟩ := List.append_inj' hlast rfl
        have hfills := hR.fills
        rw [hrep] at hfills
        obtain rfl : v = _ := List.singleton_inj.1 hv
        rw [quantityOf_toCState, netted hw h.reaches, hfills, List.flatMap_append, List.flatMap_singleton]
        rfl
      · exact ih hpre
    · rw [handed, if_neg hon, List.append_nil] at hpre
      exact ih hpre

/-- Two shares bought, one sold, and the stop loss closes the last. -/
theorem positions_reported_sample :
    let seen := Loop.events (step sampleUuid sampleParams) handed 40 (start sampleParams reportedFeed)
    (seen.map fun v => v.2.quantityOf "A") = [0, 2, 0] ∧
      ∀ v, seen.getLast? = some v → v.2.quantityOf "A" = netOf "A" (seen.flatMap fun v => v.2.newFills) := by
  intro seen
  refine ⟨by decide +kernel, fun v hv => ?_⟩
  have hseen : seen.dropLast ++ [v] = seen := List.dropLast_append_getLast? v hv
  have hpre : seen.dropLast ++ [v] <+: seen := by rw [hseen]
  have hnet := positions_reported rfl (Loop.trace_iter _ _ 40 _) hpre "A"
  rwa [hseen] at hnet

end BackTestEngine

end QuantForge
