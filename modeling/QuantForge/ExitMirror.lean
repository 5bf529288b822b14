import QuantForge.ExitInvariant

/-!
# The exit-order book and the open lots

Between the bars of a run the exit heaps should hold one order for each lot that was opened with an exit price, for
the shares left of it.  The loops break this: lots are closed oldest first, whatever lot an exit order belongs to, and
the orders a pass has set aside are not reduced.  As long as every exit order that triggers belongs to the oldest lot
of its symbol, the books mirror the lots (`mirrors_of_oldestSource`).  The invariant counts the orders set aside with
those in the heap.
-/

namespace QuantForge

namespace BackTestEngine

open Executor

variable {createUuid : ℕ → Uuid} {hp : HostParams} {feed : List FeedItem} {c : Config}

/-! ### Sources of exit orders -/

private theorem fills_execute_subset (e : BackTestEngine) (o : Order) {f : Fill} (hf : f ∈ e.state.fills) :
    f ∈ (execute createUuid hp e o).state.fills := by
  rcases execute_state createUuid hp e o with h | ⟨-, h⟩
  · rw [h]; exact hf
  · rw [h, (State.updateState_booking rfl).fills]
    exact List.mem_append_left _ hf

private theorem Sourced.execute {e : BackTestEngine} {x : ExitOrder} (h : Sourced e.state x) (o : Order) :
    Sourced (execute createUuid hp e o).state x := by
  obtain ⟨f, hf, hx⟩ := h
  exact ⟨f, fills_execute_subset e o hf, hx⟩

/-- The orders in the exit heaps still belong to fills after an execution. -/
private theorem sourced_execute {e : BackTestEngine} {o : Order} {d : Side} (hd : o.isOn d = true)
    (h : ∀ kind, ∀ x ∈ (e.exitOrderBook.heap kind).toList, Sourced e.state x) (kind : ExitKind) :
    ∀ x ∈ ((execute createUuid hp e o).exitOrderBook.heap kind).toList,
      Sourced (execute createUuid hp e o).state x := by
  intro x hx
  rcases mem_heap_execute hx with ⟨y, hy, q, rfl⟩ | ⟨ha, hnew⟩
  · exact Sourced.execute (h kind y hy) o
  · obtain ⟨-, -, -, hsym, hu⟩ := mem_createExitOrders hnew
    have hside := lotSide_createExitOrders hd hnew
    refine ⟨(success o hp e.state (createUuid e.uuidCount)).fill, ?_, hu.symm, hsym.symm, ?_⟩
    · rw [execute_accepted ha]
      show _ ∈ (e.state.updateState _).fills
      rw [(State.updateState_booking rfl).fills]
      exact List.mem_append_right _ (List.mem_singleton_self _)
    · rw [hside]
      cases d <;> exact hd

/-! ### Steps -/

private theorem protectedLots_sameLedger {e e' : BackTestEngine} (h : SameLedger e e') (kind : ExitKind) :
    protectedLots e' kind = protectedLots e kind := by
  unfold protectedLots
  rw [h.executions]
  exact protectedIn_congr fun x _ => by rw [h.active]

/-- A step that moves exit orders between the heap and the pass, or leaves them where they are. -/
private theorem Mirrored.of_perm {c' : Config} (h : Mirrored c) (hs : SameLedger c.engine c'.engine)
    (hperm : ∀ kind, (exitOrders c' kind).Perm (exitOrders c kind)) : Mirrored c' := by
  refine ⟨fun kind => ?_, fun kind x hx => ?_⟩
  · rw [protectedLots_sameLedger hs]
    exact ((hperm kind).map _).trans (h.keys kind)
  · obtain ⟨f, hf, hx⟩ := h.sources kind x ((hperm kind).mem_iff.1 hx)
    exact ⟨f, hs.fills ▸ hf, hx⟩

/-- An execution outside the exit passes. -/
private theorem mirrored_book (hinj : Function.Injective createUuid) (hw : hp.fractional = false) (h : Mirrored c)
    (hi : InOrder createUuid c.engine) {c' : Config} {o : Order} {d : Side} {e : BackTestEngine}
    (hd : o.isOn d = true) (hsame : SameAccount c.engine e) (hbook : e.exitOrderBook = c.engine.exitOrderBook)
    (hnil : ∀ kind, setAside c.phase kind = []) (hphase : c'.phase = c.phase)
    (he : c'.engine = execute createUuid hp e o) : Mirrored c' := by
  have hi' := hi.sameAccount hsame
  have hheap : ∀ kind, exitOrders c kind = (e.exitOrderBook.heap kind).toList := by
    intro kind
    rw [exitOrders, hnil, List.append_nil, hbook]
  have hheap' : ∀ kind, exitOrders c' kind = ((execute createUuid hp e o).exitOrderBook.heap kind).toList := by
    intro kind
    rw [exitOrders, hphase, hnil, List.append_nil, he]
  have hkeys : ∀ kind, ((e.exitOrderBook.heap kind).toList.map ExitOrder.key).Perm (protectedLots e kind) := by
    intro kind
    rw [← hheap, protectedLots_sameLedger hsame.sameLedger]
    exact h.keys kind
  have hsources : ∀ kind, ∀ x ∈ (e.exitOrderBook.heap kind).toList, Sourced e.state x := by
    intro kind x hx
    rw [hsame.state]
    exact h.sources kind x (by rw [hheap]; exact hx)
  refine ⟨fun kind => ?_, fun kind x hx => ?_⟩
  · rw [hheap', he]
    rcases execute_cases createUuid hp e o with hrej | ha
    · rw [hrej]
      exact hkeys kind
    · rw [protectedLots_execute hw hd ha hinj hi'.registered hi'.store hi'.fills kind]
      exact (keys_execute hw hd ha kind).trans ((reduceKeys_perm _ (hkeys kind)).append_right _)
  · rw [hheap'] at hx
    rw [he]
    exact sourced_execute hd hsources kind x hx

/-- No order set aside belongs to the lot of the order at the top of the heap. -/
private theorem reduceKeys_setAside (h : Mirrored c) (hi : InOrder createUuid c.engine) {kind : ExitKind}
    {l : List ExitOrder} {x : ExitOrder} (hpass : c.phase = .exits kind l)
    (htop : (c.engine.exitOrderBook.heap kind).top = some x) (kind' : ExitKind) :
    reduceKeys [x.key] ((setAside c.phase kind').map ExitOrder.key) = (setAside c.phase kind').map ExitOrder.key := by
  refine reduceKeys_of_ne fun k hk hku => ?_
  by_cases hkind : kind' = kind
  · subst hkind
    have hkeys := ((exitOrders_pass hpass htop kind').map ExitOrder.key).symm.trans (h.keys kind')
    have hnd := (hkeys.map Prod.fst).nodup_iff.2 (protectedLots_nodup hi.registered.nodup hi.fills kind')
    simp only [if_true, List.map_append, List.map_cons, List.singleton_append, List.nodup_cons] at hnd
    refine hnd.1 (List.mem_append_right _ ?_)
    rw [← show k.1 = x.key.1 from hku]
    exact List.mem_map_of_mem (f := Prod.fst) hk
  · rw [hpass, setAside_exits, if_neg hkind] at hk
    cases hk

/-- An accepted execution in an exit pass, of an order whose lot is the oldest. -/
private theorem mirrored_exit (hinj : Function.Injective createUuid) (hw : hp.fractional = false)
    (hcap : hp.fillMaxPctOfVolume = none) (h : Mirrored c) (hi : InOrder createUuid c.engine) {c' : Config}
    {kind : ExitKind} {l : List ExitOrder} {x : ExitOrder} (hpass : c.phase = .exits kind l)
    (htop : (c.engine.exitOrderBook.heap kind).top = some x)
    (ha : Accepted x.toCloseInstruction hp (popExit kind c.engine).state
      (createUuid (popExit kind c.engine).uuidCount))
    (hold : OldestSource c.engine.state x.toCloseInstruction) (hphase : c'.phase = c.phase)
    (he : c'.engine = execute createUuid hp (popExit kind c.engine) x.toCloseInstruction) : Mirrored c' := by
  have hsame : SameAccount c.engine (popExit kind c.engine) := ⟨rfl, rfl, rfl, rfl⟩
  have hi' := hi.sameAccount hsame
  have hd := x.toCloseInstruction_isOn
  have hx : x ∈ exitOrders c kind := List.mem_append_left _ (BinaryHeap.top_mem htop)
  obtain ⟨f, hu, hf⟩ := h.lot hi hx
  have hclosed : fillsClosedBy (success x.toCloseInstruction hp (popExit kind c.engine).state
      (createUuid (popExit kind c.engine).uuidCount)).fill (popExit kind c.engine).state = [x.key] :=
    fillsClosedBy_exit hw hcap hi.store hi.registered.nodup hu hf hold
  have hopened : ∀ kind', openedKeys x.toCloseInstruction hp (popExit kind c.engine).state
      (createUuid (popExit kind c.engine).uuidCount) kind' = [] := by
    intro kind'
    cases kind' <;> rfl
  have hexit : ∀ kind', exitOrders c' kind' =
      ((execute createUuid hp (popExit kind c.engine) x.toCloseInstruction).exitOrderBook.heap kind').toList ++
        setAside c.phase kind' := by
    intro kind'
    rw [exitOrders, hphase, he]
  refine ⟨fun kind' => ?_, fun kind' y hy => ?_⟩
  · -- the walk takes the key of the order out of the protected lots, and the others stay
    have hkeys := ((exitOrders_pass hpass htop kind').map ExitOrder.key).symm.trans (h.keys kind')
    have haside := reduceKeys_setAside h hi hpass htop kind'
    have htaken : reduceKeys [x.key] ((if kind' = kind then [x] else []).map ExitOrder.key) = [] := by
      split
      · simp [reduceKeys, reduceKey]
      · rfl
    have hreduced := reduceKeys_perm [x.key] hkeys
    rw [List.map_append, List.map_append, reduceKeys_append, reduceKeys_append, haside, htaken, List.nil_append]
      at hreduced
    have hexec := keys_execute hw hd ha kind'
    rw [hopened, List.append_nil, hclosed] at hexec
    rw [hexit, List.map_append, he,
      protectedLots_execute hw hd ha hinj hi'.registered hi'.store hi'.fills kind', hopened, List.append_nil, hclosed,
      protectedLots_sameLedger hsame.sameLedger]
    exact (hexec.append_right _).trans hreduced
  · rw [hexit] at hy
    rw [he]
    have hsub : ∀ kind, ∀ z ∈ ((popExit _ c.engine).exitOrderBook.heap kind).toList ++ setAside c.phase kind,
        Sourced c.engine.state z := fun kind z hz =>
      h.sources kind z ((exitOrders_pass hpass htop kind).mem_iff.2 (List.mem_append_right _ hz))
    rcases List.mem_append.1 hy with hy | hy
    · refine sourced_execute (e := popExit kind c.engine) hd (fun kind z hz => ?_) kind' y hy
      exact hsub kind z (List.mem_append_left _ hz)
    · exact Sourced.execute (e := popExit kind c.engine) (hsub kind' y (List.mem_append_right _ hy)) _

/-- An exit order of the invariant is never dropped: its lot has a position and prices. -/
private theorem not_dropped (h : Mirrored c) (hi : InOrder createUuid c.engine) (kind : ExitKind) {x : ExitOrder}
    (htop : (c.engine.exitOrderBook.heap kind).top = some x)
    (hx : (c.engine.state.positions.lookup x.symbol).isNone ∨ c.engine.state.hasSymbolPrices x.symbol = false) :
    False := by
  obtain ⟨f, -, hf⟩ := h.lot hi (List.mem_append_left _ (BinaryHeap.top_mem htop))
  rcases hx with hnone | hprices
  · have hneg := (closing_of_lot hi.store (d := x.lotSide.opposite) (by rw [Side.opposite_opposite]; exact hf)).1
    rw [State.positionQuantity, Option.isNone_iff_eq_none.1 hnone] at hneg
    simp at hneg
  · obtain ⟨hmem, hsym, -⟩ := State.mem_lotsIn.1 hf
    rw [← hsym, hi.priced f hmem] at hprices
    cases hprices

/-- A step of a run in which every exit order that triggers is accepted and belongs to the oldest lot. -/
private theorem mirrored_step (hinj : Function.Injective createUuid) (hw : hp.fractional = false)
    (hcap : hp.fillMaxPctOfVolume = none) {c' : Config} (h : Mirrored c) (hi : InOrder createUuid c.engine)
    (hside : ∀ o e, nextExecution c = some (o, e) → ∃ d, o.isOn d = true)
    (hexit : ∀ o e, nextExecution c = some (o, e) → o.isExitOrder = true →
      Accepted o hp e.state (createUuid e.uuidCount) ∧ OldestSource e.state o)
    (hs : step createUuid hp c = some c') : Mirrored c' := by
  cases step_exitOrders hs with
  | execute o e hn hphase he =>
    obtain ⟨d, hd⟩ := hside o e hn
    have hsame := nextExecution_sameAccount hn
    cases nextExecution_cases hn with
    | orderBook bar x hp' _ _ _ he' =>
      exact mirrored_book hinj hw h hi hd hsame (by rw [he']) (fun kind => by rw [hp']; rfl) hphase he
    | limit side symbol symbols x hp' _ _ _ _ he' =>
      exact mirrored_book hinj hw h hi hd hsame (by rw [he']) (fun kind => by rw [hp']; cases side <;> rfl) hphase he
    | exit kind l x hp' htop _ _ _ ho he' =>
      subst ho he'
      obtain ⟨ha, hold⟩ := hexit _ _ hn rfl
      exact mirrored_exit hinj hw hcap h hi hp' htop ha hold hphase he
  | drop kind l x _ htop hx _ => exact (not_dropped h hi kind htop hx).elim
  | keep hledger hperm => exact h.of_perm hledger hperm

/-- In a whole-share run without a volume cap that only buys and sells and accepts every exit order that triggers, the
exit heaps mirror the lots after every bar if every such order belongs to the oldest lot of its symbol. -/
theorem mirrors_of_oldestSource (hinj : Function.Injective createUuid) (hw : hp.fractional = false)
    (hcap : hp.fillMaxPctOfVolume = none) (hfeed : OnlyBuySell feed)
    (haccepted : ExecutionsMeet createUuid hp feed c fun e o =>
      o.isExitOrder = true → Accepted o hp e.state (createUuid e.uuidCount))
    (holdest : ExecutionsMeet createUuid hp feed c fun e o => o.isExitOrder = true → OldestSource e.state o)
    (hr : Reachable createUuid hp feed c) (hphase : c.phase = .nextBar) (kind : ExitKind) :
    Mirrors c.engine kind := by
  have hmirrored : Mirrored c := by
    refine reachable_induction ?_ ?_ (haccepted.and holdest) hr
    · refine ⟨fun kind => ?_, fun kind x hx => ?_⟩
      · cases kind <;> exact List.Perm.refl _
      · cases kind <;> cases hx
    · intro c c' hr h hs hG
      refine mirrored_step hinj hw hcap h (inOrder hinj hw hfeed hr) ?_ ?_ hs
      · exact fun o e hn => Order.exists_isOn (reachable_buySell hfeed hr hn)
      · exact fun o e hn hx => ⟨(hG o e hn).1 hx, (hG o e hn).2 hx⟩
  have hkeys := hmirrored.keys kind
  rw [exitOrders, hphase, show setAside .nextBar kind = [] from rfl, List.append_nil] at hkeys
  exact hkeys

/-- Two lots with different stop losses, and a bar whose low is between them. -/
def twoStopsFeed (first second : ℤ) : List FeedItem :=
  [⟨sampleBar "A" 100 1000 1, { instructions := [.order { sampleOrder "A" "buy" 10 with stopLossPrice := first }] }⟩,
    ⟨sampleBar "A" 100 1000 2,
      { instructions := [.order { sampleOrder "A" "buy" 10 with stopLossPrice := second }] }⟩,
    ⟨sampleBar "A" 100 1000 3, {}⟩,
    ⟨{ sampleBar "A" 100 1000 4 with low := 92 }, {}⟩]

/-- The stop loss of the older lot triggers, and the younger lot keeps its own. -/
theorem mirrors_of_oldestSource_two_stops :
    let c := sampleRun sampleParams (twoStopsFeed 95000000 90000000) 35
    protectedLots c.engine .stopLoss = [("1", 10)] ∧ Mirrors c.engine .stopLoss := by
  have hend : step sampleUuid sampleParams (sampleRun sampleParams (twoStopsFeed 95000000 90000000) 35) = none :=
    Option.isNone_iff_eq_none.1 (by decide +kernel)
  refine ⟨by decide +kernel, mirrors_of_oldestSource sampleUuid_injective rfl rfl
    (by decide +kernel) ?_ ?_ (reachable_sampleRun _ _ _) (by decide +kernel) .stopLoss⟩
  · exact executionsMeet_sampleRun (le_refl _) hend (by decide +kernel)
  · exact executionsMeet_sampleRun (le_refl _) hend (by decide +kernel)

/-- The stop loss of the younger lot triggers and closes the older one: the stop loss of the older lot is stale, and
the younger lot has none. -/
theorem exit_book_not_mirrored :
    ¬ ∀ (createUuid : ℕ → Uuid) (hp : HostParams) (feed : List FeedItem) (c : Config) (kind : ExitKind),
      Function.Injective createUuid → hp.fractional = false → hp.fillMaxPctOfVolume = none → OnlyBuySell feed →
      (ExecutionsMeet createUuid hp feed c fun e o =>
        o.isExitOrder = true → Accepted o hp e.state (createUuid e.uuidCount)) →
      Reachable createUuid hp feed c → c.phase = .nextBar → Mirrors c.engine kind := by
  intro h
  have hend : step sampleUuid sampleParams (sampleRun sampleParams (twoStopsFeed 90000000 95000000) 35) = none :=
    Option.isNone_iff_eq_none.1 (by decide +kernel)
  have hmirrors := h sampleUuid sampleParams (twoStopsFeed 90000000 95000000)
    (sampleRun sampleParams (twoStopsFeed 90000000 95000000) 35) .stopLoss sampleUuid_injective rfl rfl
    (by decide +kernel) (executionsMeet_sampleRun (le_refl _) hend (by decide +kernel)) (reachable_sampleRun _ _ _)
    (by decide +kernel)
  have hmem : ("1", (10 : ℚ)) ∈
      protectedLots (sampleRun sampleParams (twoStopsFeed 90000000 95000000) 35).engine .stopLoss := by decide +kernel
  exact absurd (hmirrors.mem_iff.2 hmem) (by decide +kernel)

end BackTestEngine

end QuantForge
