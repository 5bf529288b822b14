import QuantForge.BookOps
import QuantForge.ExitPasses
import QuantForge.Lookahead

/-!
# Room for the exit orders

An exit order asks for shares of one lot.  An execution takes what it closes off the exit orders in the heaps, but not
off those that the running pass has set aside, nor off the remainders in the order book, and off none at all if its
action is unknown (`missedExits`).  As long as every execution leaves room for the ones it misses (`LeavesRoom`), no
exit order asks for more than is left of its lot (`hasRoom`).
-/

namespace QuantForge

namespace State

variable {s : State} {r : ExecutionResultSuccess} {d : Side}

/-- No lot has a negative number of shares. -/
def LotsNonneg (s : State) : Prop := ∀ d u a, (s.active d).lookup u = some a → 0 ≤ a

/-- A lot of the side that a fill closes is what the fill has left of it. -/
theorem closeLots_active_cases (hd : r.fill.side = d) (hnd : (s.fills.map Fill.uuid).Nodup) {u : Uuid} {a : ℚ}
    (ha : ((s.closeLots r d).active d.opposite).lookup u = some a) :
    (∃ t ∈ s.taken d.opposite r.fill.symbol (s.closing d r.fill.symbol r.fill.quantity),
        t.1.uuid = u ∧ Constants.epsilon < t.2.1 - t.2.2 ∧ a = t.2.1 - t.2.2) ∨
      (s.active d.opposite).lookup u = some a := by
  rw [closeLots_eq_foldl hd hnd] at ha
  by_cases hu : ∃ t ∈ s.taken d.opposite r.fill.symbol (s.closing d r.fill.symbol r.fill.quantity), t.1.uuid = u
  · obtain ⟨t, ht, rfl⟩ := hu
    rw [foldl_closeLot_active_of_mem (taken_uuids_nodup _ _ _ _ hnd) ht, lotAfter] at ha
    split at ha
    · cases ha
    · rename_i hgt
      exact Or.inl ⟨t, ht, rfl, not_le.1 hgt, (Option.some.inj ha).symm⟩
  · have hne : ∀ t ∈ s.taken d.opposite r.fill.symbol (s.closing d r.fill.symbol r.fill.quantity), t.1.uuid ≠ u :=
      fun t ht hu' => hu ⟨t, ht, hu'⟩
    rw [foldl_closeLot_active_of_ne hne, active_recordFill] at ha
    exact Or.inr ha

theorem LotsNonneg.updateState (h : s.LotsNonneg) (hnd : (s.fills.map Fill.uuid).Nodup) (hq : 0 ≤ r.fill.quantity) :
    (s.updateState r).LotsNonneg := by
  intro d u a ha
  rcases updateState_active_cases ha with hold | ⟨-, -, hopened⟩ | ⟨rfl, hclosed⟩
  · exact h d u a hold
  · unfold opened at hopened
    split at hopened
    · cases hopened
    · rename_i hopen
      cases hopened
      by_cases hneg : d.sign * s.positionQuantity r.fill.symbol < 0
      · exact (Constants.epsilon_pos.trans (not_le.1 fun hle => hopen ⟨hneg, hle⟩)).le
      · rw [closing, if_neg hneg, sub_zero]
        exact hq
  · rcases closeLots_active_cases rfl hnd hclosed with ⟨t, -, -, hgt, rfl⟩ | hold
    · exact (Constants.epsilon_pos.trans hgt).le
    · exact h _ u a hold

end State

namespace BackTestEngine

open Executor

variable {createUuid : ℕ → Uuid} {hp : HostParams} {feed : List FeedItem} {c : Config} {e : BackTestEngine}
  {o y : Order}

/-! ### Exit orders and their lots -/

/-- The exit order is for shares of a lot, on the side that closes it, and asks for no more than is left of the
lot. -/
structure Room (s : State) (y : Order) : Prop where
  source : ∃ f ∈ s.fills, y.sourceFillUuid = some f.uuid ∧ f.symbol = y.symbol ∧
    ∀ d, f.isOn d = true → y.side = d.opposite
  within : ∀ u ∈ y.sourceFillUuid, ∀ d a, (s.active d).lookup u = some a → y.quantity ≤ a

theorem Room.sameLedger {e' : BackTestEngine} (hs : SameLedger e e') (h : Room e.state y) : Room e'.state y := by
  obtain ⟨hsource, hwithin⟩ := h
  refine ⟨?_, fun u hu d a ha => hwithin u hu d a ?_⟩
  · rw [hs.fills]
    exact hsource
  · rw [← hs.active d]
    exact ha

/-- An order for `q` shares or less of the lot still has room after an execution that leaves `q` shares of the lot or
closes it. -/
theorem Room.updateState (hinj : Function.Injective createUuid) (hreg : Registered createUuid e)
    (h : Room e.state y) {q : ℚ} (hq : q ≤ y.quantity)
    (htaken : ∀ t ∈ e.state.taken o.side.opposite o.symbol
        (e.state.closing o.side o.symbol (fillableQuantity o hp e.state)),
      y.sourceFillUuid = some t.1.uuid → q ≤ t.2.1 - t.2.2 ∨ t.2.1 - t.2.2 ≤ Constants.epsilon) :
    Room (e.state.updateState (success o hp e.state (createUuid e.uuidCount))) { y with quantity := q } := by
  obtain ⟨⟨f, hf, hu, hsym, hside⟩, hwithin⟩ := h
  refine ⟨⟨f, ?_, hu, hsym, hside⟩, fun u hu' d a ha => ?_⟩
  · rw [(State.updateState_booking rfl).fills]
    exact List.mem_append_left _ hf
  · rcases State.updateState_active_cases ha with hold | ⟨-, hfresh, -⟩ | ⟨rfl, hclosed⟩
    · exact hq.trans (hwithin u hu' d a hold)
    · -- the lot of the fill is under a new uuid
      rw [Option.mem_def, hfresh, hu] at hu'
      refine absurd (List.mem_map_of_mem (f := Fill.uuid) hf) ?_
      rw [Option.some.inj hu']
      exact hreg.fresh hinj
    · rcases State.closeLots_active_cases rfl hreg.nodup hclosed with ⟨t, ht, rfl, hgt, rfl⟩ | hold
      · exact (htaken t ht hu').resolve_right (not_le.2 hgt)
      · exact hq.trans (hwithin u hu' _ a hold)

/-- The exit orders of an execution have room in the lot it opens. -/
theorem room_createExitOrders (hinj : Function.Injective createUuid) (hreg : Registered createUuid e) {x : ExitOrder}
    (hx : x ∈ (success o hp e.state (createUuid e.uuidCount)).exitOrders) :
    Room (e.state.updateState (success o hp e.state (createUuid e.uuidCount))) x.toCloseInstruction := by
  obtain ⟨-, -, -, hsym, hu⟩ := mem_createExitOrders hx
  refine ⟨⟨(success o hp e.state (createUuid e.uuidCount)).fill, ?_, ?_, hsym.symm, fun d hd => ?_⟩, ?_⟩
  · rw [(State.updateState_booking rfl).fills]
    exact List.mem_append_right _ (List.mem_singleton_self _)
  · show some x.fillUuid = _
    rw [hu]
    rfl
  · have hd' : o.isOn d = true := by cases d <;> exact hd
    rw [Order.side_of_isOn x.toCloseInstruction_isOn, lotSide_createExitOrders hd' hx]
  · intro u hu' d a ha
    obtain rfl : x.fillUuid = u := Option.some.inj hu'
    have hnone := hreg.active_fresh hinj
    rw [hu] at ha
    rcases State.updateState_active_cases ha with hold | ⟨hon, -, hopened⟩ | ⟨rfl, hclosed⟩
    · rw [hnone d] at hold
      cases hold
    · have hd : o.isOn d = true := by cases d <;> exact hon
      show x.triggerQuantity ≤ a
      rw [triggerQuantity_createExitOrders hx, positionOpeningQuantity_eq hd]
      change e.state.opened d o.symbol (fillableQuantity o hp e.state) = some a at hopened
      unfold State.opened at hopened
      split at hopened
      · cases hopened
      · exact (Option.some.inj hopened).le
    · rcases State.closeLots_active_cases rfl hreg.nodup hclosed with ⟨t, ht, htu, -, -⟩ | hold
      · refine absurd (List.mem_map_of_mem (f := Fill.uuid)
          (State.mem_lotsIn.1 (State.mem_lots_of_mem_taken ht)).1) ?_
        rw [htu]
        exact hreg.fresh hinj
      · rw [hnone _] at hold
        cases hold

/-! ### Remainders in the order book -/

/-- The exit orders in the order book: remainders. -/
def parkedExits (e : BackTestEngine) : List Order :=
  (e.orderBook.toList.map ScheduledOrder.order).filter Order.isExitOrder

theorem mem_parkedExits {e : BackTestEngine} :
    y ∈ parkedExits e ↔ (∃ x ∈ e.orderBook.toList, x.order = y) ∧ y.isExitOrder = true := by
  simp only [parkedExits, List.mem_filter, List.mem_map]

private theorem parkedExits_schedule (h : y ∈ parkedExits (e.schedule o hp)) :
    (y = o ∧ o.isExitOrder = true) ∨ y ∈ parkedExits e := by
  rw [mem_parkedExits] at h
  rcases schedule_cases e o hp with ⟨-, he⟩ | ⟨limit, -, -, he⟩
  · rw [he] at h
    obtain ⟨⟨x, hx, rfl⟩, hexit⟩ := h
    rcases BinaryHeap.mem_push.1 hx with rfl | hx
    · exact Or.inl ⟨rfl, hexit⟩
    · exact Or.inr (mem_parkedExits.2 ⟨⟨x, hx, rfl⟩, hexit⟩)
  · rw [he] at h
    exact Or.inr (mem_parkedExits.2 h)

/-- An execution leaves at most the remainder of an exit order in the order book. -/
theorem parkedExits_execute (h : y ∈ parkedExits (execute createUuid hp e o)) :
    (Accepted o hp e.state (createUuid e.uuidCount) ∧ partialOrder o hp e.state = some y ∧ o.isExitOrder = true) ∨
      y ∈ parkedExits e := by
  rcases execute_cases createUuid hp e o with he | ha
  · rw [he] at h
    exact Or.inr h
  · rw [execute_accepted ha] at h
    change y ∈ parkedExits (e.scheduleRemainder (success o hp e.state (createUuid e.uuidCount)) hp) at h
    unfold scheduleRemainder at h
    split at h
    · rename_i o' ho'
      rcases parkedExits_schedule h with ⟨rfl, hexit⟩ | h
      · refine Or.inl ⟨ha, ho', ?_⟩
        rw [(partialOrder_eq ho').1] at hexit
        exact hexit
      · exact Or.inr h
    · exact Or.inr h

/-- The plugin issues no exit orders. -/
theorem isExitOrder_instruction {i : CInstruction} {instruction : Instruction} {s : State}
    (hi : toInstruction i = .ok instruction) (ho : instructionToOrder hp s instruction = .ok o) :
    o.isExitOrder = false := by
  cases i with
  | signal inst =>
    cases hi
    simp only [instructionToOrder] at ho
    split at ho
    · cases ho
      rfl
    · cases ho
  | order inst => cases hi; cases ho; rfl
  | invalid => cases hi

/-- Only executions add to them. -/
theorem parkedExits_step {c' : Config} (hs : step createUuid hp c = some c') (hn : nextExecution c = none)
    (h : y ∈ parkedExits c'.engine) : y ∈ parkedExits c.engine := by
  have hscheduled : y ∈ parkedExits (leftBy (schedulePluginInstructions hp c.engine c.result)) →
      y ∈ parkedExits c.engine := by
    refine schedulePluginInstructions_induction (P := fun e => y ∈ parkedExits e → y ∈ parkedExits c.engine) id ?_
    intro e i instruction o hP _ hi ho hy
    rcases parkedExits_schedule hy with ⟨-, hexit⟩ | hy
    · exact absurd ((isExitOrder_instruction hi ho).symm.trans hexit) Bool.false_ne_true
    · exact hP hy
  cases step_kinds hs with
  | execute o e hn' _ _ _ _ =>
    rw [hn] at hn'
    cases hn'
  | closed item _ _ hc => rw [hc] at h; exact h
  | bar item _ _ hc => rw [hc] at h; exact h
  | finish e _ hsched hc =>
    rw [hsched] at hscheduled
    rw [hc] at h
    exact hscheduled h
  | throw t _ hsched hc =>
    rw [hsched] at hscheduled
    rw [hc] at h
    exact hscheduled h
  | move _ _ _ _ horders _ =>
    rw [parkedExits, horders] at h
    exact h

/-! ### Runs that leave room -/

/-- The exit orders that an execution of `o` in `e` does not reduce: remainders, orders set aside, and if `o` neither
buys nor sells those in the heaps too. -/
def missedExits (p : Phase) (e : BackTestEngine) (o : Order) : List Order :=
  parkedExits e ++ [ExitKind.stopLoss, ExitKind.takeProfit].flatMap fun kind =>
    (setAside p kind ++ if o.isBuy || o.isSell then [] else (e.exitOrderBook.heap kind).toList).map
      ExitOrder.toCloseInstruction

theorem mem_missedExits {p : Phase} {kind : ExitKind} {x : ExitOrder}
    (h : x ∈ setAside p kind ∨ (o.isBuy || o.isSell) = false ∧ x ∈ (e.exitOrderBook.heap kind).toList) :
    x.toCloseInstruction ∈ missedExits p e o := by
  refine List.mem_append_right _ (List.mem_flatMap.2 ⟨kind, by cases kind <;> simp, List.mem_map_of_mem ?_⟩)
  rw [List.mem_append]
  refine h.imp_right fun ⟨hside, hx⟩ => ?_
  rw [hside]
  exact hx

/-- The lots that the order closes if it is filled as it asks: fill, active shares, shares closed. -/
def lotsAsked (hp : HostParams) (s : State) (o : Order) : List (Fill × ℚ × ℚ) :=
  s.taken o.side.opposite o.symbol (s.closing o.side o.symbol (orderedQuantity o hp))

/-- The next execution, if it is accepted, leaves each exit order that it does not reduce the shares that the order
asks for, or, where the volume allows all that is asked for, nothing of its lot. -/
def LeavesRoom (createUuid : ℕ → Uuid) (hp : HostParams) (c : Config) : Prop :=
  ∀ p ∈ nextExecution c, Accepted p.1 hp p.2.state (createUuid p.2.uuidCount) →
    ∀ y ∈ missedExits c.phase p.2 p.1, ∀ t ∈ lotsAsked hp p.2.state p.1, y.sourceFillUuid = some t.1.uuid →
      y.quantity ≤ t.2.1 - t.2.2 ∨ (t.2.1 - t.2.2 ≤ Constants.epsilon ∧
        ∀ v ∈ hp.fillMaxPctOfVolume, p.1.quantity ≤ p.2.state.getSymbolVolume p.1.symbol * v)

instance (createUuid : ℕ → Uuid) (hp : HostParams) (c : Config) : Decidable (LeavesRoom createUuid hp c) :=
  inferInstanceAs (Decidable (∀ p ∈ nextExecution c, _ → ∀ y ∈ missedExits c.phase p.2 p.1,
    ∀ t ∈ lotsAsked hp p.2.state p.1, _ → _))

section Accepted

variable (hinj : Function.Injective createUuid) (hreg : Registered createUuid e) (hlots : e.state.LotsNonneg)
  (ha : Accepted o hp e.state (createUuid e.uuidCount)) (hq0 : 0 ≤ fillableQuantity o hp e.state)

include hinj hreg ha in
/-- An exit order that the execution does not reduce. -/
private theorem room_missed (hn : nextExecution c = some (o, e)) (hleaves : LeavesRoom createUuid hp c)
    (hy : y ∈ missedExits c.phase e o) (h : Room e.state y) :
    Room (e.state.updateState (success o hp e.state (createUuid e.uuidCount))) y := by
  refine h.updateState hinj hreg (le_refl y.quantity) fun t ht hu => ?_
  have hleaves := hleaves (o, e) hn ha y hy
  obtain ⟨t', ht', h1, h2, h3⟩ := Fifo.takes_mono
    (State.closing_mono e.state o.side o.symbol (fillableQuantity_le_ordered (o := o))) t ht
  rcases hleaves t' ht' (by rw [h1]; exact hu) with hle | ⟨-, hfull⟩
  · left
    linarith
  -- filled as it asks, the order closes what it asks for
  · rw [fillableQuantity_eq_ordered hfull] at ht
    exact (hleaves t ht hu).imp_right And.left

include hinj hreg hlots in
/-- An exit order that the execution reduces. -/
private theorem room_reduced {d : Side} (hd : o.isOn d = true) {x : ExitOrder} {xs : List ExitOrder}
    (h : ∀ x ∈ xs, Room e.state x.toCloseInstruction)
    (hx : x ∈ ExitOrderBook.reduceOrders
      (fillsClosedBy (success o hp e.state (createUuid e.uuidCount)).fill e.state) xs) :
    Room (e.state.updateState (success o hp e.state (createUuid e.uuidCount))) x.toCloseInstruction := by
  rw [fillsClosedBy_eq (fill_isOn hp e.state _ hd)] at hx
  obtain ⟨z, hz, q, rfl, hq⟩ := ExitOrderBook.mem_reduceOrders hx
  obtain ⟨hle, hless⟩ := hq fun k hk _ => by
    obtain ⟨t, ht, rfl⟩ := List.mem_map.1 hk
    refine (Fifo.takes_le Constants.epsilon_pos.le (fun l hl => ?_) t ht).1
    exact hlots _ _ _ (State.mem_lotsIn.1 hl).2.2.2
  refine (h z hz).updateState hinj hreg hle fun t ht hu => Or.inl ?_
  rw [Order.side_of_isOn hd] at ht
  have hlot := (State.mem_lotsIn.1 (State.mem_lots_of_mem_taken ht)).2.2.2
  have hwithin : z.triggerQuantity ≤ t.2.1 := (h z hz).within t.1.uuid hu _ _ hlot
  have hclosed := hless (t.1.uuid, t.2.2) (List.mem_map_of_mem (f := fun t : Fill × ℚ × ℚ => (t.1.uuid, t.2.2)) ht)
    (Option.some.inj hu).symm
  linarith

include hinj hreg hlots hq0 in
/-- The remainder of an exit order. -/
private theorem room_remainder (h : Room e.state o) (hy : partialOrder o hp e.state = some y) :
    Room (e.state.updateState (success o hp e.state (createUuid e.uuidCount))) y := by
  obtain ⟨rfl, -⟩ := partialOrder_eq hy
  have hsum := (fillable_add_remaining o hp e.state).1
  have hfloor : fillableQuantity o hp e.state ≤ (getFillableAndRemainingQuantities o hp e.state).1 := by
    unfold fillableQuantity
    dsimp only
    split
    · exact le_refl _
    · exact Int.floor_le _
  refine h.updateState hinj hreg (by linarith) fun t ht hu => Or.inl ?_
  have hlot := (State.mem_lotsIn.1 (State.mem_lots_of_mem_taken ht)).2.2.2
  have hwithin := h.within t.1.uuid hu _ _ hlot
  have htaken := (Fifo.takes_le Constants.epsilon_pos.le
    (fun l hl => hlots _ _ _ (State.mem_lotsIn.1 hl).2.2.2) t ht).2
  have hclosing := State.closing_le e.state o.side o.symbol hq0
  linarith

end Accepted

/-- The exit orders all have room. -/
structure HasRoom (c : Config) : Prop where
  lots : c.engine.state.LotsNonneg
  parked : ∀ y ∈ parkedExits c.engine, Room c.engine.state y
  waiting : ∀ kind, ∀ x ∈ exitOrders c kind, Room c.engine.state x.toCloseInstruction

/-- The exit order that a step executes has room. -/
theorem HasRoom.served (h : HasRoom c) (hr : Reachable createUuid hp feed c)
    (hn : nextExecution c = some (o, e)) (hexit : o.isExitOrder = true) : Room c.engine.state o := by
  cases nextExecution_cases hn with
  | orderBook bar x _ htop _ ho _ =>
    rw [ho] at hexit ⊢
    exact h.parked _ (mem_parkedExits.2 ⟨⟨x, BinaryHeap.top_mem htop, rfl⟩, hexit⟩)
  | limit side symbol symbols x _ _ htop _ ho _ =>
    -- exit orders have no limit
    have hnone := (reachable_orders (P := fun o => o.isExitOrder = true → o.limitPrice = none) (fun _ _ h => h)
      (fun _ _ => rfl) (fun _ _ _ _ _ _ _ _ _ hi ho hx => by
        rw [isExitOrder_instruction hi ho] at hx
        cases hx) hr).2 o e hn hexit
    rw [ho, ((filed hr).limits side symbol x (BinaryHeap.top_mem htop)).2.1] at hnone
    cases hnone
  | exit kind l x _ htop _ _ _ ho _ =>
    rw [ho]
    exact h.waiting kind x (List.mem_append_left _ (BinaryHeap.top_mem htop))

private theorem fillsClosedBy_unknown {f : Fill} {s : State} (h : (f.isBuy || f.isSell) = false) :
    fillsClosedBy f s = [] := by
  rw [Bool.or_eq_false_iff] at h
  simp [fillsClosedBy, h.1, h.2]

private theorem parkedExits_of_nextExecution (hn : nextExecution c = some (o, e)) (h : y ∈ parkedExits e) :
    y ∈ parkedExits c.engine := by
  rw [mem_parkedExits] at h ⊢
  cases nextExecution_cases hn with
  | orderBook bar x _ htop _ _ he =>
    rw [he] at h
    exact h.imp_left fun ⟨z, hz, hzy⟩ => ⟨z, BinaryHeap.mem_of_mem_pop hz, hzy⟩
  | limit _ _ _ _ _ _ _ _ _ he => rw [he] at h; exact h
  | exit _ _ _ _ _ _ _ _ _ he => rw [he] at h; exact h

private theorem HasRoom.step_execute (hinj : Function.Injective createUuid) (hr : Reachable createUuid hp feed c)
    (h : HasRoom c) (hleaves : LeavesRoom createUuid hp c) (hn : nextExecution c = some (o, e))
    (hq0 : Accepted o hp e.state (createUuid e.uuidCount) → 0 ≤ fillableQuantity o hp e.state) :
    HasRoom { c with engine := execute createUuid hp e o } := by
  have hacc := nextExecution_sameAccount hn
  have hreg := (registered hinj hr).sameLedger hacc.sameLedger
  have hlots : e.state.LotsNonneg := by rw [hacc.state]; exact h.lots
  have hparked : ∀ y ∈ parkedExits e, Room e.state y := fun y hy =>
    (h.parked y (parkedExits_of_nextExecution hn hy)).sameLedger hacc.sameLedger
  have hwaiting : ∀ kind, ∀ x ∈ (e.exitOrderBook.heap kind).toList ++ setAside c.phase kind,
      Room e.state x.toCloseInstruction := by
    intro kind x hx
    obtain ⟨dropped, hperm⟩ := exitOrders_of_nextExecution hn kind
    exact (h.waiting kind x (hperm.mem_iff.2 (List.mem_append_right _ hx))).sameLedger hacc.sameLedger
  rcases execute_cases createUuid hp e o with he | ha
  · rw [he]
    exact ⟨hlots, hparked, hwaiting⟩
  have hstate : (execute createUuid hp e o).state =
      e.state.updateState (success o hp e.state (createUuid e.uuidCount)) := by rw [execute_accepted ha]
  have hmissed : ∀ y ∈ missedExits c.phase e o, Room e.state y →
      Room (e.state.updateState (success o hp e.state (createUuid e.uuidCount))) y :=
    fun y hy => room_missed hinj hreg ha hn hleaves hy
  refine ⟨?_, fun y hy => ?_, fun kind x hx => ?_⟩
  · show (execute createUuid hp e o).state.LotsNonneg
    rw [hstate]
    exact hlots.updateState hreg.nodup (hq0 ha)
  · show Room (execute createUuid hp e o).state y
    rw [hstate]
    rcases parkedExits_execute hy with ⟨-, hy, hexit⟩ | hy
    · exact room_remainder hinj hreg hlots (hq0 ha) ((h.served hr hn hexit).sameLedger hacc.sameLedger) hy
    · exact hmissed y (List.mem_append_left _ hy) (hparked y hy)
  · show Room (execute createUuid hp e o).state x.toCloseInstruction
    rw [hstate]
    rcases List.mem_append.1 hx with hx | hx
    · rcases List.mem_append.1 ((toList_heap_accepted ha kind).mem_iff.1 hx) with hx | hx
      · rcases hside : o.isBuy || o.isSell with _ | _
        · -- an unknown action reduces no exit orders
          rw [fillsClosedBy_unknown (f := (success o hp e.state (createUuid e.uuidCount)).fill) hside] at hx
          exact hmissed _ (mem_missedExits (Or.inr ⟨hside, hx⟩)) (hwaiting kind x (List.mem_append_left _ hx))
        · obtain ⟨d, hd⟩ := Order.exists_isOn (Bool.or_eq_true_iff.1 hside)
          exact room_reduced hinj hreg hlots hd (fun x hx => hwaiting kind x (List.mem_append_left _ hx)) hx
      · exact room_createExitOrders hinj hreg (List.mem_filter.1 hx).1
    · exact hmissed _ (mem_missedExits (Or.inl hx)) (hwaiting kind x (List.mem_append_right _ hx))

/-- In a run whose executions leave room, every exit order has room. -/
theorem hasRoom (hinj : Function.Injective createUuid)
    (hcap : hp.fractional = true → ∀ p ∈ hp.fillMaxPctOfVolume, ∀ item ∈ feed, 0 ≤ item.bar.volume * p)
    (hroom : ∀ c', Reachable createUuid hp feed c' → StateTransition.Reaches₁ (step createUuid hp) c' c →
      LeavesRoom createUuid hp c')
    (hr : Reachable createUuid hp feed c) : HasRoom c := by
  refine reachable_run (J := HasRoom) ⟨fun d u a ha => ?_, fun y hy => ?_, fun kind x hx => ?_⟩ ?_ hroom hr
  · cases d <;> cases ha
  · cases hy
  · cases kind <;> cases hx
  · intro c c' hr h hs hleaves
    rcases hn : nextExecution c with _ | ⟨o, e⟩
    · have hkept : SameLedger c.engine c'.engine ∧ ∀ kind, ∀ x ∈ exitOrders c' kind, x ∈ exitOrders c kind := by
        cases step_exitOrders hs with
        | execute o e hn' _ _ =>
          rw [hn] at hn'
          cases hn'
        | drop kind l x hpass htop _ hc =>
          rw [hc]
          exact ⟨⟨rfl, rfl, rfl, rfl, fun _ => rfl, rfl, rfl, rfl, rfl⟩, fun kind' y hy =>
            (exitOrders_pass hpass htop kind').mem_iff.2 (List.mem_append_right _ hy)⟩
        | keep hledger hperm => exact ⟨hledger, fun kind x hx => (hperm kind).mem_iff.1 hx⟩
      obtain ⟨hledger, hsub⟩ := hkept
      refine ⟨fun d u a ha => h.lots d u a ?_, fun y hy => ?_, fun kind x hx => ?_⟩
      · rw [← hledger.active]
        exact ha
      · exact (h.parked y (parkedExits_step hs hn hy)).sameLedger hledger
      · exact (h.waiting kind x (hsub kind x hx)).sameLedger hledger
    · obtain rfl := Option.some.inj ((step_of_nextExecution hn).symm.trans hs)
      exact h.step_execute hinj hr hleaves hn
        (executionsMeet_fillable_nonneg hcap c hr (Relation.TransGen.single hs) o e hn)

end BackTestEngine

end QuantForge
