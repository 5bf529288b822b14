import QuantForge.ExitTrigger

/-!
# A whole exit pass

A pass over an exit heap takes the orders off the top one by one and calls back into the engine for those that
trigger.  The callback reduces the orders still in the heap, but a close order has no exit prices of its own, so
nothing is added and the pass ends (`halts_pass`).  Every order is handed to the callback at most once
(`exit_pass_ends`), and one whose close order is rejected is not kept (`rejected_exit_lost`).
-/

namespace QuantForge

namespace BackTestEngine

open Executor StateTransition

variable {createUuid : ℕ → Uuid} {hp : HostParams} {feed : List FeedItem} {c : Config} {e e' : BackTestEngine}
  {kind : ExitKind} {l l' : List ExitOrder}

/-- The orders that a pass hands to the callback. -/
def firedBy (kind : ExitKind) (p : List ExitOrder × BackTestEngine) : List ExitOrder := (nextExit kind p.2).toList

/-! ### One iteration -/

/-- A close order creates no exit orders. -/
theorem exitOrders_toCloseInstruction (x : ExitOrder) (s : State) (uuid : Uuid) :
    (success x.toCloseInstruction hp s uuid).exitOrders = [] := by
  refine List.eq_nil_iff_forall_not_mem.2 fun y hy => ?_
  have hprice := (mem_createExitOrders hy).2.1
  rcases hk : y.kind with _ | _ <;> rw [hk] at hprice <;> cases hprice

/-- An exit heap after a close order: what the reduction keeps of it. -/
theorem toList_heap_close (createUuid : ℕ → Uuid) (hp : HostParams) (e : BackTestEngine) (x : ExitOrder)
    (kind : ExitKind) :
    ∃ closed, ((execute createUuid hp e x.toCloseInstruction).exitOrderBook.heap kind).toList.Perm
        (ExitOrderBook.reduceOrders closed (e.exitOrderBook.heap kind).toList) ∧
      ∀ c ∈ closed, ∃ d a, (e.state.active d).lookup c.1 = some a ∧ (0 < a → 0 < c.2) := by
  obtain ⟨closed, new, hperm, hclosed, hnew⟩ := toList_heap_execute createUuid hp e x.toCloseInstruction kind
  have hnil : new = [] := by
    rcases hnew with h | ⟨-, h⟩
    · exact h
    · rw [h, exitOrders_toCloseInstruction, List.filter_nil]
  rw [hnil, List.append_nil] at hperm
  exact ⟨closed, hperm, fun c hc => (mem_fillsClosedBy (hclosed c hc)).2⟩

/-- An iteration: the top order `x` is fired, dropped or set aside, and the rest of both heaps is reduced. -/
structure PassStep (createUuid : ℕ → Uuid) (hp : HostParams) (kind : ExitKind) (l : List ExitOrder)
    (e : BackTestEngine) (x : ExitOrder) (l' : List ExitOrder) (e' : BackTestEngine) : Prop where
  top : (e.exitOrderBook.heap kind).top = some x
  moved : (firedBy kind (l, e) = [x] ∧ l' = l) ∨ (firedBy kind (l, e) = [] ∧
    (l' = l ∨ l' = l ++ [x] ∧ shouldTrigger e.state x = false))
  heaps : ∀ kind', ∃ closed, (e'.exitOrderBook.heap kind').toList.Perm
      (ExitOrderBook.reduceOrders closed ((popExit kind e).exitOrderBook.heap kind').toList) ∧
    ∀ c ∈ closed, ∃ d a, (e.state.active d).lookup c.1 = some a ∧ (0 < a → 0 < c.2)
  engine : e' = popExit kind e ∨ e' = execute createUuid hp (popExit kind e) x.toCloseInstruction

theorem passStep (h : processExitHeap createUuid hp kind (l, e) = some (l', e')) :
    ∃ x, PassStep createUuid hp kind l e x l' e' := by
  obtain ⟨x, htop, ⟨hx, hl, he⟩ | ⟨hx, he, hl⟩⟩ := processExitHeap_cases h
  · refine ⟨x, htop, Or.inl ⟨by rw [firedBy, hx]; rfl, hl⟩, fun kind' => ?_, Or.inr he⟩
    rw [he]
    exact toList_heap_close createUuid hp (popExit kind e) x kind'
  · refine ⟨x, htop, Or.inr ⟨by rw [firedBy, hx]; rfl, ?_⟩, fun kind' => ?_, Or.inl he⟩
    · rcases hl with ⟨hl, -⟩ | hl
      · exact Or.inl hl
      · exact Or.inr hl
    · rw [he]
      exact ⟨[], List.Perm.refl _, fun c hc => by cases hc⟩

namespace PassStep

variable {x : ExitOrder} (h : PassStep createUuid hp kind l e x l' e')

include h

theorem pop_perm : (e.exitOrderBook.heap kind).toList.Perm
    (x :: ((popExit kind e).exitOrderBook.heap kind).toList) := by
  rw [heap_popExit, if_pos rfl]
  exact BinaryHeap.toList_pop h.top

/-- The heap of the pass gets shorter. -/
theorem length_lt : (e'.exitOrderBook.heap kind).toList.length < (e.exitOrderBook.heap kind).toList.length := by
  obtain ⟨closed, hperm, -⟩ := h.heaps kind
  have hle := (ExitOrderBook.reduceOrders_uuids closed ((popExit kind e).exitOrderBook.heap kind).toList).length_le
  rw [List.length_map, List.length_map] at hle
  rw [hperm.length_eq, h.pop_perm.length_eq, List.length_cons]
  omega

theorem currentBarPrices : e'.state.currentBarPrices = e.state.currentBarPrices := by
  rcases h.engine with he | he
  · rw [he]
    rfl
  · rw [he]
    exact (execute_marketData createUuid hp (popExit kind e) x.toCloseInstruction).2.1

end PassStep

/-- Whatever the exit books and the account are, a pass ends. -/
theorem halts_pass (createUuid : ℕ → Uuid) (hp : HostParams) (kind : ExitKind)
    (p : List ExitOrder × BackTestEngine) : Loop.Halts (processExitHeap createUuid hp kind) p := by
  refine Loop.halts_of_measure (M := ℕ) (r := (· < ·)) (P := fun _ => True) wellFounded_lt
    (fun p => (p.2.exitOrderBook.heap kind).toList.length) ?_ trivial
  rintro ⟨l, e⟩ ⟨l', e'⟩ - h
  obtain ⟨x, hstep⟩ := passStep h
  exact ⟨trivial, hstep.length_lt⟩

/-! ### Rejected close orders -/

/-- In a pass the prices stay, and the orders set aside are those that do not trigger. -/
theorem pass_setAside (h : Reaches (processExitHeap createUuid hp kind) (l, e) (l', e'))
    (hl : ∀ y ∈ l, shouldTrigger e.state y = false) :
    e'.state.currentBarPrices = e.state.currentBarPrices ∧ ∀ y ∈ l', shouldTrigger e'.state y = false := by
  refine Loop.reaches_invariant (P := fun p => p.2.state.currentBarPrices = e.state.currentBarPrices ∧
    ∀ y ∈ p.1, shouldTrigger p.2.state y = false) ?_ ⟨rfl, hl⟩ h
  rintro ⟨l, e₁⟩ ⟨l', e₂⟩ ⟨hprices, haside⟩ hs
  obtain ⟨x, hstep⟩ := passStep hs
  have hsame : ∀ y, shouldTrigger e₂.state y = shouldTrigger e₁.state y := by
    intro y
    simp only [shouldTrigger_eq, State.symbolPrices, hstep.currentBarPrices]
  refine ⟨hstep.currentBarPrices.trans hprices, fun y hy => ?_⟩
  rw [hsame]
  rcases hstep.moved with ⟨-, hl'⟩ | ⟨-, hl' | ⟨hl', hx⟩⟩
  · exact haside y (hl' ▸ hy)
  · exact haside y (hl' ▸ hy)
  · rw [show l' = l ++ [x] from hl'] at hy
    rcases List.mem_append.1 hy with hy | hy
    · exact haside y hy
    · rw [List.mem_singleton.1 hy]
      exact hx

/-- The orders in the heap when a pass is over are those that were set aside. -/
theorem mem_heap_restore {y : ExitOrder} (hend : processExitHeap createUuid hp kind (l, e) = none) :
    y ∈ ((restoreExitOrders kind l e).exitOrderBook.heap kind).toList ↔ y ∈ l := by
  have hnil := BinaryHeap.top_eq_none.1 (processExitHeap_none hend)
  show y ∈ ((e.exitOrderBook.setHeap kind _).heap kind).toList ↔ _
  rw [ExitOrderBook.heap_setHeap, if_pos rfl, (BinaryHeap.toList_pushAll _ l).mem_iff, hnil, List.append_nil]

/-- In the pass that starts in `e`, the exit order `x` triggers while its lot is active, and its close order is
rejected. -/
structure RejectedExit (createUuid : ℕ → Uuid) (hp : HostParams) (kind : ExitKind) (e : BackTestEngine)
    (x : ExitOrder) (l : List ExitOrder) (e' : BackTestEngine) : Prop where
  reached : Reaches (processExitHeap createUuid hp kind) ([], e) (l, e')
  fired : nextExit kind e' = some x
  active : sourceInactive x.toCloseInstruction e'.state = false
  rejected : ¬ Accepted x.toCloseInstruction hp e'.state (createUuid e'.uuidCount)

/-- Whatever the account and the books are: an exit order whose close order is rejected is not in its heap after the
pass, with its own or any other quantity. -/
theorem rejected_exit_lost {x : ExitOrder} {l₁ : List ExitOrder} {e₁ : BackTestEngine}
    (h : RejectedExit createUuid hp kind e x l₁ e₁) :
    Loop.Halts (processExitHeap createUuid hp kind) ([], e) ∧
      ∀ l e', (l, e') ∈ eval (processExitHeap createUuid hp kind) ([], e) →
        ∀ q, { x with triggerQuantity := q } ∉ ((restoreExitOrders kind l e').exitOrderBook.heap kind).toList := by
  refine ⟨halts_pass createUuid hp kind _, fun l e' hend q hmem => ?_⟩
  obtain ⟨hreach, hnone⟩ := mem_eval.1 hend
  obtain ⟨hprices, haside⟩ := pass_setAside hreach (fun y hy => by cases hy)
  obtain ⟨hprices', -⟩ := pass_setAside h.reached (fun y hy => by cases hy)
  have htrig := (nextExit_eq_some h.fired).2.2.2
  have hnot := haside _ ((mem_heap_restore hnone).1 hmem)
  rw [shouldTrigger_eq, State.symbolPrices, hprices, ← hprices'] at hnot
  exact absurd (htrig.symm.trans hnot) (by decide)

/-- A buy with a stop loss at 95; two bars later the price goes down to 90 on a volume of five. -/
def thinVolumeFeed : List FeedItem :=
  [⟨sampleBar "A" 100 1000 1,
    { instructions := [.order { sampleOrder "A" "buy" 10 with stopLossPrice := 95000000 }] }⟩,
    ⟨sampleBar "A" 100 1000 2, {}⟩, ⟨{ sampleBar "A" 100 5 3 with low := 90 }, {}⟩]

/-- The engine at the start of the pass that triggers the stop loss. -/
def thinVolumeEngine : BackTestEngine := (sampleRun cappedParams thinVolumeFeed 20).engine

/-- The cap leaves half a share, which is rounded down to nothing, and the close order is rejected. -/
theorem rejected_exit_thin_volume :
    ∃ x, RejectedExit sampleUuid cappedParams .stopLoss thinVolumeEngine x [] thinVolumeEngine := by
  have hsome : (nextExit .stopLoss thinVolumeEngine).isSome = true := by decide +kernel
  obtain ⟨x, hx⟩ := Option.isSome_iff_exists.1 hsome
  have hall : ∀ x ∈ nextExit .stopLoss thinVolumeEngine,
      sourceInactive x.toCloseInstruction thinVolumeEngine.state = false ∧
        ¬ Accepted x.toCloseInstruction cappedParams thinVolumeEngine.state
          (sampleUuid thinVolumeEngine.uuidCount) := by
    decide +kernel
  exact ⟨x, Relation.ReflTransGen.refl, hx, (hall x hx).1, (hall x hx).2⟩

/-- The lot of ten shares is still there, and its stop loss is gone. -/
theorem rejected_exit_not_kept :
    ¬ ∀ (createUuid : ℕ → Uuid) (hp : HostParams) (kind : ExitKind) (e : BackTestEngine) (x : ExitOrder)
      (l₁ : List ExitOrder) (e₁ : BackTestEngine) (l : List ExitOrder) (e' : BackTestEngine),
      RejectedExit createUuid hp kind e x l₁ e₁ → (l, e') ∈ eval (processExitHeap createUuid hp kind) ([], e) →
      x ∈ ((restoreExitOrders kind l e').exitOrderBook.heap kind).toList := by
  intro h
  obtain ⟨x, hx⟩ := rejected_exit_thin_volume
  set p := Loop.iter (processExitHeap sampleUuid cappedParams .stopLoss) 1 ([], thinVolumeEngine) with hp
  have hend : p ∈ eval (processExitHeap sampleUuid cappedParams .stopLoss) ([], thinVolumeEngine) :=
    mem_eval.2 ⟨Loop.reaches_iter _ _ _, Option.isNone_iff_eq_none.1 (by rw [hp]; decide +kernel)⟩
  have hgone : ((restoreExitOrders .stopLoss p.1 p.2).exitOrderBook.heap .stopLoss).toList = [] := by
    rw [hp]
    decide +kernel
  have hmem := h _ _ _ _ _ _ _ p.1 p.2 hx hend
  rw [hgone] at hmem
  cases hmem

/-- The same pass. -/
theorem rejected_exit_lost_thin_volume :
    ∃ x l e', (l, e') ∈ eval (processExitHeap sampleUuid cappedParams .stopLoss) ([], thinVolumeEngine) ∧
      nextExit .stopLoss thinVolumeEngine = some x ∧
      x ∉ ((restoreExitOrders .stopLoss l e').exitOrderBook.heap .stopLoss).toList := by
  obtain ⟨x, hx⟩ := rejected_exit_thin_volume
  obtain ⟨hhalts, hlost⟩ := rejected_exit_lost hx
  obtain ⟨⟨l, e'⟩, hend⟩ := Part.dom_iff_mem.1 hhalts
  exact ⟨x, l, e', hend, hx.fired, hlost l e' hend x.triggerQuantity⟩

/-! ### The exit orders of a reachable engine -/

/-- The uuid of an exit order has been drawn, and what is left of the lot it names is positive. -/
structure Backed (createUuid : ℕ → Uuid) (e : BackTestEngine) (x : ExitOrder) : Prop where
  drawn : ∃ n < e.uuidCount, x.fillUuid = createUuid n
  pos : ∀ d a, (e.state.active d).lookup x.fillUuid = some a → 0 < a

theorem Backed.sameLedger {x : ExitOrder} (hs : SameLedger e e') (h : Backed createUuid e x) :
    Backed createUuid e' x := by
  refine ⟨?_, fun d a ha => h.pos d a ?_⟩
  · rw [hs.uuidCount]
    exact h.drawn
  · rw [← hs.active d]
    exact ha

/-- A walk leaves no lot of zero or fewer shares where there was none. -/
theorem closeLots_pos {s : State} {r : ExecutionResultSuccess} {d : Side} {u : Uuid}
    (h : ∀ d a, (s.active d).lookup u = some a → 0 < a) :
    ∀ d' a, ((s.closeLots r d).active d').lookup u = some a → 0 < a := by
  refine State.reduceFifo_induction (P := fun s => ∀ d a, (s.active d).lookup u = some a → 0 < a) ?_ ?_
  · intro d' a ha
    rw [State.active_recordFill] at ha
    exact h d' a ha
  · intro s v b q hs _ d' a ha
    rcases Side.eq_or_eq_opposite d.opposite d' with rfl | rfl
    · rw [State.closeLot_active] at ha
      split at ha
      -- what is kept of a lot is more than `EPSILON`
      · unfold State.lotAfter at ha
        split at ha
        · cases ha
        · rename_i hgt
          cases ha
          exact Constants.epsilon_pos.trans (not_le.1 hgt)
      · exact hs _ a ha
    · rw [(State.closeLot_frame s d.opposite v b q).opposite] at ha
      exact hs _ a ha

theorem Backed.execute {x : ExitOrder} (hinj : Function.Injective createUuid) (hp : HostParams) (o : Order)
    (h : Backed createUuid e x) : Backed createUuid (execute createUuid hp e o) x := by
  obtain ⟨n, hn, hx⟩ := h.drawn
  rcases execute_cases createUuid hp e o with he | ha
  · rw [he]
    exact ⟨⟨n, Nat.lt_succ_of_lt hn, hx⟩, h.pos⟩
  · rw [execute_accepted ha]
    refine ⟨⟨n, Nat.lt_succ_of_lt hn, hx⟩, fun d a hlot => ?_⟩
    rcases State.updateState_active_cases hlot with hold | ⟨-, hu, -⟩ | ⟨-, hclosed⟩
    · exact h.pos d a hold
    · -- the lot of the fill is under a new uuid
      have : createUuid n = createUuid e.uuidCount := hx.symm.trans hu
      exact absurd (hinj this) hn.ne
    · exact closeLots_pos h.pos d a hclosed

/-- The exit orders of an execution are good for the lot it opens. -/
theorem backed_new {x : ExitOrder} {o : Order} (hinj : Function.Injective createUuid) (hreg : Registered createUuid e)
    (ha : Accepted o hp e.state (createUuid e.uuidCount))
    (hx : x ∈ (success o hp e.state (createUuid e.uuidCount)).exitOrders) :
    Backed createUuid (execute createUuid hp e o) x := by
  obtain ⟨hopen, -, -, -, hu⟩ := mem_createExitOrders hx
  have hnone : ∀ d a, (e.state.active d).lookup (createUuid e.uuidCount) = some a → 0 < a := by
    intro d a h
    rw [hreg.active_fresh hinj d] at h
    cases h
  rw [execute_accepted ha]
  refine ⟨⟨e.uuidCount, Nat.lt_succ_self _, hu⟩, fun d a hlot => ?_⟩
  rw [hu] at hlot
  rcases State.updateState_active_cases hlot with hold | ⟨hon, -, hopened⟩ | ⟨-, hclosed⟩
  · exact hnone d a hold
  · have hd : o.isOn d = true := by
      cases d <;> exact hon
    rw [positionOpeningQuantity_eq hd] at hopen
    unfold State.opened at hopened
    split at hopened
    · cases hopened
    · cases hopened
      exact Constants.epsilon_pos.trans hopen
  · exact closeLots_pos hnone d a hclosed

theorem backed (hinj : Function.Injective createUuid) (hr : Reachable createUuid hp feed c) :
    ∀ kind, ∀ x ∈ exitOrders c kind, Backed createUuid c.engine x := by
  refine reachable_exitOrders (P := Backed createUuid) (G := fun e _ => Registered createUuid e)
    (fun e e' x hs h => h.sameLedger hs) ?_ ?_ ?_ hr
  · intro e o x q h
    exact ⟨(h.execute hinj hp o).drawn, (h.execute hinj hp o).pos⟩
  · intro e o hreg ha x hx
    exact backed_new hinj hreg ha hx
  · intro c' hr' _ o e hn
    exact (registered hinj hr').sameLedger (nextExecution_sameAccount hn).sameLedger

/-- An execution creates at most one exit order of a kind. -/
theorem length_exitOrders_le (o : Order) (hp : HostParams) (s : State) (uuid : Uuid) (kind : ExitKind) :
    ((success o hp s uuid).exitOrders.filter fun x => x.kind = kind).length ≤ 1 := by
  show ((createExitOrders o _ s _ _).filter _).length ≤ 1
  unfold createExitOrders
  split
  · exact Nat.zero_le 1
  · rcases o.stopLossPrice with _ | sl <;> rcases o.takeProfitPrice with _ | tp <;> cases kind <;> simp

private theorem nodup_of_length_le_one {α : Type} {l : List α} (h : l.length ≤ 1) : l.Nodup := by
  match l, h with
  | [], _ => exact List.nodup_nil
  | [x], _ => exact List.nodup_singleton x

/-- An execution keeps the uuids in an exit heap apart, and from those of the orders set aside. -/
theorem uuids_execute {aside : List ExitOrder} (hinj : Function.Injective createUuid) (hp : HostParams) (o : Order)
    (hnd : (((e.exitOrderBook.heap kind).toList ++ aside).map ExitOrder.fillUuid).Nodup)
    (hb : ∀ x ∈ (e.exitOrderBook.heap kind).toList ++ aside, Backed createUuid e x) :
    ((((execute createUuid hp e o).exitOrderBook.heap kind).toList ++ aside).map ExitOrder.fillUuid).Nodup := by
  obtain ⟨closed, new, hperm, -, hnew⟩ := toList_heap_execute createUuid hp e o kind
  generalize hkept : ExitOrderBook.reduceOrders closed (e.exitOrderBook.heap kind).toList = kept at hperm
  have hsub : ((kept ++ aside).map ExitOrder.fillUuid).Sublist
      (((e.exitOrderBook.heap kind).toList ++ aside).map ExitOrder.fillUuid) := by
    rw [List.map_append, List.map_append, ← hkept]
    exact (ExitOrderBook.reduceOrders_uuids closed _).append (List.Sublist.refl _)
  have hfresh : ∀ x ∈ new, x.fillUuid = createUuid e.uuidCount := by
    rcases hnew with rfl | ⟨-, rfl⟩
    · intro x hx
      cases hx
    · intro x hx
      exact (mem_createExitOrders (List.mem_filter.1 hx).1).2.2.2.2
  have hone : new.length ≤ 1 := by
    rcases hnew with rfl | ⟨-, rfl⟩
    · exact Nat.zero_le 1
    · exact length_exitOrders_le o hp e.state _ kind
  have hsplit : (((execute createUuid hp e o).exitOrderBook.heap kind).toList ++ aside).Perm
      (new ++ (kept ++ aside)) := by
    rw [← List.append_assoc]
    exact (hperm.trans List.perm_append_comm).append_right aside
  have hnew_nodup : (new.map ExitOrder.fillUuid).Nodup := nodup_of_length_le_one (by rwa [List.length_map])
  have hdisjoint : List.Disjoint (new.map ExitOrder.fillUuid) ((kept ++ aside).map ExitOrder.fillUuid) := by
    intro u hu hu'
    obtain ⟨x, hx, rfl⟩ := List.mem_map.1 hu
    obtain ⟨y, hy, hxy⟩ := List.mem_map.1 (hsub.subset hu')
    obtain ⟨n, hn, hyn⟩ := (hb y hy).drawn
    rw [hfresh x hx, hyn] at hxy
    exact hn.ne (hinj hxy)
  have hkept_nodup := hsub.nodup hnd
  rw [(hsplit.map ExitOrder.fillUuid).nodup_iff, List.map_append]
  exact hnew_nodup.append hkept_nodup hdisjoint

/-- The exit orders of a kind are for different fills. -/
theorem exitUuids_nodup (hinj : Function.Injective createUuid) (hr : Reachable createUuid hp feed c) :
    ∀ kind, ((exitOrders c kind).map ExitOrder.fillUuid).Nodup := by
  refine reachable_induction (J := fun c => ∀ kind, ((exitOrders c kind).map ExitOrder.fillUuid).Nodup) ?_ ?_
    executionsMeet_true hr
  · intro kind
    cases kind <;> exact List.nodup_nil
  · intro c c' hr h hs _ kind
    cases step_exitOrders hs with
    | execute o e hn hphase he =>
      rw [exitOrders, he, hphase]
      obtain ⟨dropped, hperm⟩ := exitOrders_of_nextExecution hn kind
      have hnd := (hperm.map ExitOrder.fillUuid).nodup_iff.1 (h kind)
      rw [List.map_append] at hnd
      refine uuids_execute hinj hp o hnd.of_append_right fun x hx => ?_
      have hx' := hperm.mem_iff.2 (List.mem_append_right dropped hx)
      exact (backed hinj hr kind x hx').sameLedger (nextExecution_sameAccount hn).sameLedger
    | drop kind' l x hpass htop _ hc =>
      have hperm := (exitOrders_pass hpass htop kind).map ExitOrder.fillUuid
      rw [List.map_append] at hperm
      rw [hc]
      exact (hperm.nodup_iff.1 (h kind)).of_append_right
    | keep _ hperm => exact ((hperm kind).map ExitOrder.fillUuid).nodup_iff.2 (h kind)

/-! ### Each order at most once -/

private theorem nodup_of_subperm {α : Type} {l₁ l₂ : List α} (h : l₁.Subperm l₂) (hnd : l₂.Nodup) : l₁.Nodup := by
  obtain ⟨l, hperm, hsub⟩ := h
  exact hperm.nodup_iff.1 (hsub.nodup hnd)

/-- An order of the list, possibly with a smaller quantity. -/
def ShrunkFrom (xs : List ExitOrder) (y : ExitOrder) : Prop :=
  ∃ x ∈ xs, ∃ q ≤ x.triggerQuantity, y = { x with triggerQuantity := q }

theorem ShrunkFrom.of_mem {xs : List ExitOrder} {x : ExitOrder} (h : x ∈ xs) : ShrunkFrom xs x :=
  ⟨x, h, x.triggerQuantity, le_refl _, rfl⟩

/-- A pass over the heap of `kind` from `e₀` has fired the orders `evs` and set `l` aside, and has come to `e`. -/
structure PassState (createUuid : ℕ → Uuid) (kind : ExitKind) (e₀ : BackTestEngine) (evs l : List ExitOrder)
    (e : BackTestEngine) : Prop where
  prices : e.state.currentBarPrices = e₀.state.currentBarPrices
  fired : ∀ x ∈ evs, e₀.state.hasSymbolPrices x.symbol = true ∧
    x.reachedBy (e₀.state.symbolPrices x.symbol) = true
  once : ∀ kind', (((if kind' = kind then evs ++ l else []) ++
    (e.exitOrderBook.heap kind').toList).map ExitOrder.fillUuid).Nodup
  orders : ∀ kind', ∀ y ∈ (if kind' = kind then l else []) ++ (e.exitOrderBook.heap kind').toList,
    Backed createUuid e y ∧ ShrunkFrom (e₀.exitOrderBook.heap kind').toList y

namespace PassState

variable {e₀ : BackTestEngine} {evs : List ExitOrder} {x : ExitOrder}

theorem start (hnd : ∀ kind', ((e₀.exitOrderBook.heap kind').toList.map ExitOrder.fillUuid).Nodup)
    (hb : ∀ kind', ∀ y ∈ (e₀.exitOrderBook.heap kind').toList, Backed createUuid e₀ y) :
    PassState createUuid kind e₀ [] [] e₀ := by
  refine ⟨rfl, fun x hx => (by cases hx), fun kind' => ?_, fun kind' y hy => ?_⟩
  · simpa using hnd kind'
  · have hy' : y ∈ (e₀.exitOrderBook.heap kind').toList := by simpa using hy
    exact ⟨hb kind' y hy', .of_mem hy'⟩

variable (h : PassState createUuid kind e₀ evs l e) (hstep : PassStep createUuid hp kind l e x l' e')

include hstep

/-- The top order goes to at most one place. -/
private theorem moved_subperm (evs : List ExitOrder) :
    ((evs ++ firedBy kind (l, e) ++ l').map ExitOrder.fillUuid).Subperm
      ((evs ++ l ++ [x]).map ExitOrder.fillUuid) := by
  rcases hstep.moved with ⟨hf, rfl⟩ | ⟨hf, rfl | ⟨rfl, -⟩⟩
  · rw [hf, List.append_assoc, List.append_assoc]
    exact ((List.perm_append_comm.append_left evs).map _).subperm
  · rw [hf, List.append_nil]
    exact ((List.sublist_append_left _ _).map _).subperm
  · rw [hf, List.append_nil, ← List.append_assoc]

private theorem heap_uuids_subperm (kind' : ExitKind) :
    ((e'.exitOrderBook.heap kind').toList.map ExitOrder.fillUuid).Subperm
      (((popExit kind e).exitOrderBook.heap kind').toList.map ExitOrder.fillUuid) := by
  obtain ⟨closed, hperm, -⟩ := hstep.heaps kind'
  exact (hperm.map _).subperm.trans (ExitOrderBook.reduceOrders_uuids closed _).subperm

include h

private theorem step_once (kind' : ExitKind) :
    (((if kind' = kind then evs ++ firedBy kind (l, e) ++ l' else []) ++
      (e'.exitOrderBook.heap kind').toList).map ExitOrder.fillUuid).Nodup := by
  have hnd := h.once kind'
  have hheap := heap_uuids_subperm hstep kind'
  rw [List.map_append] at hnd ⊢
  by_cases hk : kind' = kind
  · subst hk
    rw [if_pos rfl] at hnd ⊢
    have hbefore : ((evs ++ l).map ExitOrder.fillUuid ++
        (e.exitOrderBook.heap kind').toList.map ExitOrder.fillUuid).Perm
        ((evs ++ l ++ [x]).map ExitOrder.fillUuid ++
          ((popExit kind' e).exitOrderBook.heap kind').toList.map ExitOrder.fillUuid) := by
      simp only [List.map_append, List.append_assoc]
      exact ((hstep.pop_perm.map ExitOrder.fillUuid).append_left _).append_left _
    exact nodup_of_subperm ((moved_subperm hstep evs).append hheap) (hbefore.nodup_iff.1 hnd)
  · rw [if_neg hk, List.map_nil, List.nil_append] at hnd ⊢
    rw [heap_popExit, if_neg hk] at hheap
    exact nodup_of_subperm hheap hnd

private theorem step_orders (hinj : Function.Injective createUuid) (kind' : ExitKind) :
    ∀ y ∈ (if kind' = kind then l' else []) ++ (e'.exitOrderBook.heap kind').toList,
      Backed createUuid e' y ∧ ShrunkFrom (e₀.exitOrderBook.heap kind').toList y := by
  have hback : ∀ y, Backed createUuid e y → Backed createUuid e' y := by
    intro y hy
    have hy' : Backed createUuid (popExit kind e) y := ⟨hy.drawn, hy.pos⟩
    rcases hstep.engine with he | he
    · rw [he]
      exact hy'
    · rw [he]
      exact hy'.execute hinj hp _
  -- the top order and the orders below it
  have hmem : ∀ y, (kind' = kind ∧ y = x) ∨ y ∈ ((popExit kind e).exitOrderBook.heap kind').toList →
      y ∈ (e.exitOrderBook.heap kind').toList := by
    rintro y (⟨rfl, rfl⟩ | hy)
    · exact BinaryHeap.top_mem hstep.top
    · rw [heap_popExit] at hy
      split at hy
      · rename_i hk
        rw [hk]
        exact BinaryHeap.mem_of_mem_pop hy
      · exact hy
  intro y hy
  rcases List.mem_append.1 hy with hy | hy
  · split at hy
    · rename_i hk
      have hy' : y ∈ l ∨ y = x := by
        rcases hstep.moved with ⟨-, rfl⟩ | ⟨-, rfl | ⟨rfl, -⟩⟩
        · exact Or.inl hy
        · exact Or.inl hy
        · exact (List.mem_append.1 hy).imp_right List.mem_singleton.1
      have hold := h.orders kind' y (by
        rw [if_pos hk]
        exact List.mem_append.2 (hy'.imp_right fun hx => hmem y (Or.inl ⟨hk, hx⟩)))
      exact ⟨hback y hold.1, hold.2⟩
    · cases hy
  · obtain ⟨closed, hperm, hpos⟩ := hstep.heaps kind'
    obtain ⟨z, hz, q, rfl, hq⟩ := ExitOrderBook.mem_reduceOrders (hperm.mem_iff.1 hy)
    obtain ⟨hz1, w, hw, q', hq', rfl⟩ := h.orders kind' z (List.mem_append_right _ (hmem z (Or.inr hz)))
    have hle : q ≤ q' := (hq fun c hc hu => by
      obtain ⟨d, a, ha, hca⟩ := hpos c hc
      rw [hu] at ha
      exact (hca (hz1.pos d a ha)).le).1
    have hb := hback _ hz1
    exact ⟨⟨hb.drawn, hb.pos⟩, w, hw, q, hle.trans hq', rfl⟩

theorem step (hinj : Function.Injective createUuid) :
    PassState createUuid kind e₀ (evs ++ firedBy kind (l, e)) l' e' := by
  refine ⟨hstep.currentBarPrices.trans h.prices, fun y hy => ?_, step_once h hstep, step_orders h hstep hinj⟩
  rcases List.mem_append.1 hy with hy | hy
  · exact h.fired y hy
  · obtain ⟨-, -, hprices, htrig⟩ := nextExit_eq_some (Option.mem_toList.1 hy)
    rw [shouldTrigger_eq, State.symbolPrices, h.prices] at htrig
    rw [State.hasSymbolPrices, h.prices] at hprices
    exact ⟨hprices, htrig⟩

end PassState

/-- In every reachable engine a pass over an exit heap ends.  The orders it hands to the callback are for different
fills, and the prices have reached each of them.  When it is over, the orders in both heaps are for different fills,
and they are orders from before the pass, possibly with smaller quantities. -/
theorem exit_pass_ends (hinj : Function.Injective createUuid) (hr : Reachable createUuid hp feed c)
    (kind : ExitKind) :
    Loop.Halts (processExitHeap createUuid hp kind) ([], c.engine) ∧
      ∀ evs l e, Loop.Trace (processExitHeap createUuid hp kind) (firedBy kind) ([], c.engine) evs (l, e) →
        (evs.map ExitOrder.fillUuid).Nodup ∧
        (∀ x ∈ evs, c.engine.state.hasSymbolPrices x.symbol = true ∧
          x.reachedBy (c.engine.state.symbolPrices x.symbol) = true) ∧
        (processExitHeap createUuid hp kind (l, e) = none → ∀ kind',
          (((restoreExitOrders kind l e).exitOrderBook.heap kind').toList.map ExitOrder.fillUuid).Nodup ∧
          ∀ y ∈ ((restoreExitOrders kind l e).exitOrderBook.heap kind').toList,
            ShrunkFrom (c.engine.exitOrderBook.heap kind').toList y) := by
  refine ⟨halts_pass createUuid hp kind _, fun evs l e htrace => ?_⟩
  have hstart : PassState createUuid kind c.engine [] [] c.engine := by
    refine .start (fun kind' => ?_) fun kind' y hy => backed hinj hr kind' y (List.mem_append_left _ hy)
    have hnd := exitUuids_nodup hinj hr kind'
    rw [exitOrders, List.map_append] at hnd
    exact hnd.of_append_left
  have hinv : PassState createUuid kind c.engine evs l e := by
    refine Loop.trace_invariant (P := fun evs p => PassState createUuid kind c.engine evs p.1 p.2) hstart ?_ htrace
    rintro evs ⟨l, e⟩ ⟨l', e'⟩ - h hs
    obtain ⟨x, hstep⟩ := passStep hs
    exact h.step hstep hinj
  have hkind := hinv.once kind
  rw [if_pos rfl, List.map_append, List.map_append] at hkind
  refine ⟨hkind.of_append_left.of_append_left, hinv.fired, fun hend kind' => ?_⟩
  have hnil := BinaryHeap.top_eq_none.1 (processExitHeap_none hend)
  have hheap : ((restoreExitOrders kind l e).exitOrderBook.heap kind').toList.Perm
      ((if kind' = kind then l else []) ++ (e.exitOrderBook.heap kind').toList) := by
    show ((e.exitOrderBook.setHeap kind _).heap kind').toList.Perm _
    rw [ExitOrderBook.heap_setHeap]
    by_cases hk : kind' = kind
    · rw [if_pos hk, if_pos hk, hk]
      exact BinaryHeap.toList_pushAll _ l
    · rw [if_neg hk, if_neg hk]
      exact List.Perm.refl _
  refine ⟨?_, fun y hy => (hinv.orders kind' y (hheap.mem_iff.1 hy)).2⟩
  rw [(hheap.map ExitOrder.fillUuid).nodup_iff]
  have hnd := hinv.once kind'
  by_cases hk : kind' = kind
  · rw [if_pos hk, List.append_assoc, List.map_append] at hnd
    rw [if_pos hk]
    exact hnd.of_append_right
  · rw [if_neg hk] at hnd ⊢
    exact hnd

/-- Two buys with stop losses at 95 and 94, and a bar that goes down to 90. -/
def stopPairFeed : List FeedItem :=
  [⟨sampleBar "A" 100 1000 1, { instructions :=
      [.order { sampleOrder "A" "buy" 10 with stopLossPrice := 95000000 },
        .order { sampleOrder "A" "buy" 5 with stopLossPrice := 94000000 }] }⟩,
    ⟨sampleBar "A" 100 1000 2, {}⟩, ⟨{ sampleBar "A" 100 1000 3 with low := 90 }, {}⟩]

/-- Both are fired in one pass, each of them once; the first one closes five shares of the older lot, and its stop
loss is reduced while it waits in the heap. -/
theorem exit_pass_ends_two_stops :
    let c := sampleRun sampleParams stopPairFeed 22
    let evs := Loop.events (processExitHeap sampleUuid sampleParams .stopLoss) (firedBy .stopLoss) 3 ([], c.engine)
    evs.map ExitOrder.key = [("1", 5), ("", 5)] ∧ (evs.map ExitOrder.fillUuid).Nodup := by
  intro c evs
  obtain ⟨-, hpass⟩ := exit_pass_ends sampleUuid_injective
    (reachable_sampleRun sampleParams stopPairFeed 22) .stopLoss
  exact ⟨by decide +kernel, (hpass evs _ _ (Loop.trace_iter _ _ 3 _)).1⟩

end BackTestEngine

end QuantForge
