import QuantForge.ExitReduction

/-!
# The exit passes

The exit orders of a kind are those in the heap and those that a pass has set aside.  A step executes an order, drops
the top of an exit heap, or moves exit orders about without losing or changing any (`step_exitOrders`).  So a property
of exit orders that new ones have and that does not look at their quantity holds of all of them
(`reachable_exitOrders`).
-/

namespace QuantForge

namespace BackTestEngine

open Executor

variable {createUuid : ℕ → Uuid} {hp : HostParams} {feed : List FeedItem} {c : Config}

/-- The exit orders a pass has set aside. -/
def setAside : Phase → ExitKind → List ExitOrder
  | .stopLosses l, .stopLoss => l
  | .takeProfits l, .takeProfit => l
  | _, _ => []

/-- The exit orders of a kind. -/
def exitOrders (c : Config) (kind : ExitKind) : List ExitOrder :=
  (c.engine.exitOrderBook.heap kind).toList ++ setAside c.phase kind

theorem setAside_exits (kind kind' : ExitKind) (l : List ExitOrder) :
    setAside (.exits kind l) kind' = if kind' = kind then l else [] := by
  cases kind <;> cases kind' <;> rfl

theorem heap_popExit (kind kind' : ExitKind) (e : BackTestEngine) :
    (popExit kind e).exitOrderBook.heap kind' =
      if kind' = kind then (e.exitOrderBook.heap kind).pop else e.exitOrderBook.heap kind' :=
  ExitOrderBook.heap_setHeap _ _ _ _

/-- The exit orders in a pass: the top of the heap, what is below it, and what has been set aside. -/
theorem exitOrders_pass {kind : ExitKind} {l : List ExitOrder} {x : ExitOrder} (hphase : c.phase = .exits kind l)
    (htop : (c.engine.exitOrderBook.heap kind).top = some x) (kind' : ExitKind) :
    (exitOrders c kind').Perm
      ((if kind' = kind then [x] else []) ++
        (((popExit kind c.engine).exitOrderBook.heap kind').toList ++ setAside c.phase kind')) := by
  unfold exitOrders
  rw [heap_popExit]
  by_cases hk : kind' = kind
  · subst hk
    rw [if_pos rfl, if_pos rfl, List.singleton_append, ← List.cons_append]
    exact (BinaryHeap.toList_pop htop).append_right _
  · rw [if_neg hk, if_neg hk]
    exact List.Perm.refl _

/-- An order that does not trigger is set aside. -/
theorem exitOrders_setAside {c' : Config} (kind : ExitKind) {l : List ExitOrder} {x : ExitOrder}
    (hpass : c.phase = .exits kind l) (htop : (c.engine.exitOrderBook.heap kind).top = some x)
    (hphase : c'.phase = .exits kind (l ++ [x])) (he : c'.engine = popExit kind c.engine) (kind' : ExitKind) :
    (exitOrders c' kind').Perm (exitOrders c kind') := by
  refine List.Perm.trans ?_ (exitOrders_pass hpass htop kind').symm
  unfold exitOrders
  rw [he, hphase, hpass, setAside_exits, setAside_exits]
  by_cases hk : kind' = kind
  · rw [if_pos hk, if_pos hk, if_pos hk, ← List.append_assoc]
    exact List.perm_append_comm
  · rw [if_neg hk, if_neg hk, if_neg hk]
    exact List.Perm.refl _

/-- At the end of a pass the orders set aside go back into the heap. -/
theorem exitOrders_restore {c' : Config} (kind : ExitKind) {l : List ExitOrder} (hpass : c.phase = .exits kind l)
    (hnil : ∀ kind, setAside c'.phase kind = []) (he : c'.engine = c.engine.restoreExitOrders kind l)
    (kind' : ExitKind) : (exitOrders c' kind').Perm (exitOrders c kind') := by
  unfold exitOrders
  rw [he, hnil, hpass, setAside_exits, List.append_nil]
  show ((c.engine.exitOrderBook.setHeap kind _).heap kind').toList.Perm _
  rw [ExitOrderBook.heap_setHeap]
  by_cases hk : kind' = kind
  · rw [if_pos hk, if_pos hk, hk]
    exact (BinaryHeap.toList_pushAll _ l).trans List.perm_append_comm
  · rw [if_neg hk, if_neg hk, List.append_nil]

/-! ### Steps -/

/-- What a step does to the exit orders. -/
inductive ExitStep (createUuid : ℕ → Uuid) (hp : HostParams) (c c' : Config) : Prop
  | execute (o : Order) (e : BackTestEngine) (hn : nextExecution c = some (o, e)) (hphase : c'.phase = c.phase)
      (he : c'.engine = execute createUuid hp e o)
  | drop (kind : ExitKind) (l : List ExitOrder) (x : ExitOrder) (hpass : c.phase = .exits kind l)
      (htop : (c.engine.exitOrderBook.heap kind).top = some x)
      (hx : (c.engine.state.positions.lookup x.symbol).isNone ∨ c.engine.state.hasSymbolPrices x.symbol = false)
      (hc : c' = { c with engine := popExit kind c.engine })
  | keep (hledger : SameLedger c.engine c'.engine) (hperm : ∀ kind, (exitOrders c' kind).Perm (exitOrders c kind))

theorem step_exitOrders {c' : Config} (hs : step createUuid hp c = some c') : ExitStep createUuid hp c c' := by
  have hexit : ∀ b, SameLedger c.engine { c.engine with exitOrderBook := b } :=
    fun b => ⟨rfl, rfl, rfl, rfl, fun _ => rfl, rfl, rfl, rfl, rfl⟩
  -- a step between two phases outside the exit passes
  have still : ∀ p, (∀ kind, setAside c.phase kind = []) → (∀ kind, setAside p kind = []) → c'.phase = p →
      SameLedger c.engine c'.engine → c'.engine.exitOrderBook = c.engine.exitOrderBook →
      ExitStep createUuid hp c c' := by
    intro p hc hp' hphase hledger hbook
    refine .keep hledger fun kind => ?_
    rw [exitOrders, exitOrders, hphase, hbook, hc, hp']
  have phase : ∀ p, (∀ kind, setAside c.phase kind = []) → (∀ kind, setAside p kind = []) →
      c' = { c with phase := p } → ExitStep createUuid hp c c' := by
    rintro p hc hp' rfl
    exact still p hc hp' rfl (SameAccount.refl _).sameLedger rfl
  cases step_cases hs with
  | execute o e hn hphase _ _ he => exact .execute o e hn hphase he
  | closed item hp' _ hc =>
    rw [hc]
    exact .keep (SameAccount.refl _).sameLedger fun kind => List.Perm.refl _
  | bar item hp' _ hc =>
    have hledger : SameLedger c.engine c'.engine := by rw [hc]; exact sameLedger_prepareNextBar _ _
    exact still (.orderBook item.bar) (fun _ => by rw [hp']; rfl) (fun _ => rfl) (by rw [hc]) hledger
      (by rw [hc]; rfl)
  | toBuyLimits bar hp' _ hc => exact phase _ (fun _ => by rw [hp']; rfl) (fun _ => rfl) hc
  | nextBuySymbol _ _ hp' _ hc => exact phase _ (fun _ => by rw [hp']; rfl) (fun _ => rfl) hc
  | toSellLimits hp' hc => exact phase _ (fun _ => by rw [hp']; rfl) (fun _ => rfl) hc
  | nextSellSymbol _ _ hp' _ hc => exact phase _ (fun _ => by rw [hp']; rfl) (fun _ => rfl) hc
  | toStopLosses hp' hc => exact phase _ (fun _ => by rw [hp']; rfl) (fun kind => by cases kind <;> rfl) hc
  | dropStopLoss l x hp' htop _ hx hc => exact .drop .stopLoss l x hp' htop hx hc
  | setStopLossAside l x hp' htop _ _ hc =>
    refine .keep (by rw [hc]; exact hexit _) ?_
    exact exitOrders_setAside .stopLoss hp' htop (by rw [hc]; rfl) (by rw [hc])
  | toTakeProfits l hp' _ hc =>
    refine .keep (by rw [hc]; exact hexit _) ?_
    exact exitOrders_restore .stopLoss hp' (fun kind => by rw [hc]; cases kind <;> rfl) (by rw [hc])
  | dropTakeProfit l x hp' htop _ hx hc => exact .drop .takeProfit l x hp' htop hx hc
  | setTakeProfitAside l x hp' htop _ _ hc =>
    refine .keep (by rw [hc]; exact hexit _) ?_
    exact exitOrders_setAside .takeProfit hp' htop (by rw [hc]; rfl) (by rw [hc])
  | toOnBar l hp' _ hc =>
    refine .keep (by rw [hc]; exact hexit _) ?_
    exact exitOrders_restore .takeProfit hp' (fun kind => by rw [hc]; cases kind <;> rfl) (by rw [hc])
  | fail m hp' _ hc => exact phase _ (fun _ => by rw [hp']; rfl) (fun _ => rfl) hc
  | throw t hp' hsched hc =>
    have hbook := exitOrderBook_schedulePluginInstructions hp c.engine c.result
    rw [hsched] at hbook
    have hledger : SameLedger c.engine c'.engine := by
      rw [hc]
      exact (sameAccount_thrown hsched).sameLedger
    exact still (.failed t.message) (fun _ => by rw [hp']; rfl) (fun _ => rfl) (by rw [hc]) hledger
      (by rw [hc]; exact hbook)
  | finish e hp' hsched hc =>
    have hbook := exitOrderBook_schedulePluginInstructions hp c.engine c.result
    rw [hsched] at hbook
    have hledger : SameLedger c.engine c'.engine := by
      rw [hc]
      exact (sameAccount_scheduled hsched).sameLedger.trans (sameLedger_finishBar e hp)
    exact still .nextBar (fun _ => by rw [hp']; rfl) (fun _ => rfl) (by rw [hc]) hledger (by rw [hc]; exact hbook)

/-- A step that executes an order has at most taken one exit order off its heap. -/
theorem exitOrders_of_nextExecution {o : Order} {e : BackTestEngine} (hn : nextExecution c = some (o, e))
    (kind : ExitKind) :
    ∃ dropped, (exitOrders c kind).Perm
      (dropped ++ ((e.exitOrderBook.heap kind).toList ++ setAside c.phase kind)) := by
  cases nextExecution_cases hn with
  | orderBook _ _ _ _ _ _ he => rw [he]; exact ⟨[], List.Perm.refl _⟩
  | limit _ _ _ _ _ _ _ _ _ he => rw [he]; exact ⟨[], List.Perm.refl _⟩
  | exit kind' _ _ hphase htop _ _ _ _ he => rw [he]; exact ⟨_, exitOrders_pass hphase htop kind⟩

/-- The exit orders of the engine that a step executes an order in are exit orders of the configuration. -/
theorem mem_exitOrders_of_nextExecution {o : Order} {e : BackTestEngine} (hn : nextExecution c = some (o, e))
    {kind : ExitKind} {x : ExitOrder} (hx : x ∈ (e.exitOrderBook.heap kind).toList) : x ∈ exitOrders c kind := by
  obtain ⟨dropped, hperm⟩ := exitOrders_of_nextExecution hn kind
  exact hperm.mem_iff.2 (List.mem_append_right _ (List.mem_append_left _ hx))

/-- An exit heap after an accepted execution: the old orders, reduced by the lots that the fill closes, and the new
ones. -/
theorem toList_heap_accepted {e : BackTestEngine} {o : Order} (ha : Accepted o hp e.state (createUuid e.uuidCount))
    (kind : ExitKind) :
    ((execute createUuid hp e o).exitOrderBook.heap kind).toList.Perm
      (ExitOrderBook.reduceOrders (fillsClosedBy (success o hp e.state (createUuid e.uuidCount)).fill e.state)
          (e.exitOrderBook.heap kind).toList ++
        (success o hp e.state (createUuid e.uuidCount)).exitOrders.filter fun x => x.kind = kind) := by
  rw [execute_accepted ha]
  exact (ExitOrderBook.toList_addExitOrders _ _ kind).trans
    ((ExitOrderBook.toList_reduceExitOrdersByFills _ _ kind).append_right _)

/-- After any execution some of the lots that the fill would close have been closed. -/
theorem toList_heap_execute (createUuid : ℕ → Uuid) (hp : HostParams) (e : BackTestEngine) (o : Order)
    (kind : ExitKind) :
    ∃ closed new, ((execute createUuid hp e o).exitOrderBook.heap kind).toList.Perm
        (ExitOrderBook.reduceOrders closed (e.exitOrderBook.heap kind).toList ++ new) ∧
      (∀ c ∈ closed, c ∈ fillsClosedBy (success o hp e.state (createUuid e.uuidCount)).fill e.state) ∧
      (new = [] ∨ Accepted o hp e.state (createUuid e.uuidCount) ∧
        new = (success o hp e.state (createUuid e.uuidCount)).exitOrders.filter fun x => x.kind = kind) := by
  rcases execute_cases createUuid hp e o with he | ha
  · refine ⟨[], [], ?_, fun c hc => (by cases hc), Or.inl rfl⟩
    rw [he, List.append_nil]
    exact List.Perm.refl _
  · exact ⟨_, _, toList_heap_accepted ha kind, fun c hc => hc, Or.inr ⟨ha, rfl⟩⟩

/-- The exit orders after an execution: the old ones, with other quantities, and the new ones. -/
theorem mem_heap_execute {e : BackTestEngine} {o : Order} {kind : ExitKind} {x : ExitOrder}
    (hx : x ∈ ((execute createUuid hp e o).exitOrderBook.heap kind).toList) :
    (∃ y ∈ (e.exitOrderBook.heap kind).toList, ∃ q, x = { y with triggerQuantity := q }) ∨
      (Accepted o hp e.state (createUuid e.uuidCount) ∧
        x ∈ (success o hp e.state (createUuid e.uuidCount)).exitOrders) := by
  obtain ⟨closed, new, hperm, -, hnew⟩ := toList_heap_execute createUuid hp e o kind
  rcases List.mem_append.1 (hperm.mem_iff.1 hx) with hold | hx
  · obtain ⟨y, hy, q, hxy, -⟩ := ExitOrderBook.mem_reduceOrders hold
    exact Or.inl ⟨y, hy, q, hxy⟩
  · rcases hnew with rfl | ⟨ha, rfl⟩
    · cases hx
    · exact Or.inr ⟨ha, (List.mem_filter.1 hx).1⟩

/-- Induction over a run for a property of the exit orders and the ledger. -/
theorem reachable_exitOrders {P : BackTestEngine → ExitOrder → Prop} {G : BackTestEngine → Order → Prop}
    (hsame : ∀ e e' x, SameLedger e e' → P e x → P e' x)
    (hold : ∀ e o x q, P e x → P (execute createUuid hp e o) { x with triggerQuantity := q })
    (hnew : ∀ e o, G e o → Accepted o hp e.state (createUuid e.uuidCount) →
      ∀ x ∈ (success o hp e.state (createUuid e.uuidCount)).exitOrders, P (execute createUuid hp e o) x)
    (hG : ExecutionsMeet createUuid hp feed c G) (hr : Reachable createUuid hp feed c) :
    ∀ kind, ∀ x ∈ exitOrders c kind, P c.engine x := by
  refine reachable_induction (J := fun c => ∀ kind, ∀ x ∈ exitOrders c kind, P c.engine x) ?_ ?_ hG hr
  · intro kind x hx
    cases kind <;> cases hx
  · intro c c' _ h hs hmeet kind x hx
    cases step_exitOrders hs with
    | execute o e hn hphase he =>
      have hacc := (nextExecution_sameAccount hn).sameLedger
      rw [exitOrders, he, hphase] at hx
      rw [he]
      rcases List.mem_append.1 hx with hx | hx
      · rcases mem_heap_execute hx with ⟨y, hy, q, rfl⟩ | ⟨ha, hx⟩
        · exact hold e o y q (hsame _ _ _ hacc (h kind y (mem_exitOrders_of_nextExecution hn hy)))
        · exact hnew e o (hmeet o e hn) ha x hx
      -- an order set aside keeps its quantity
      · exact hold e o x x.triggerQuantity (hsame _ _ _ hacc (h kind x (List.mem_append_right _ hx)))
    | drop kind' l y hpass htop _ hc =>
      have hmem := (exitOrders_pass hpass htop kind).mem_iff.2 (List.mem_append_right _ (by rw [hc] at hx; exact hx))
      refine hsame _ _ _ ?_ (h kind x hmem)
      rw [hc]
      exact ⟨rfl, rfl, rfl, rfl, fun _ => rfl, rfl, rfl, rfl, rfl⟩
    | keep hledger hperm => exact hsame _ _ _ hledger (h kind x ((hperm kind).mem_iff.1 hx))

end BackTestEngine

end QuantForge
