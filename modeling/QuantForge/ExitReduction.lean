import QuantForge.LotStore
import QuantForge.WalksAgree

/-!
# Exit orders and the lots they protect

An exit order is good for a lot and a quantity, its key.  An accepted execution changes the keys in the exit heaps
(`keys_execute`) and the lots that were opened with an exit price (`protectedLots_execute`) in the same way: what the
FIFO walk closes is taken off, and what the execution opens is added.
-/

namespace QuantForge

/-- The stop-loss or take-profit price of an order. -/
def Order.exitPrice (o : Order) : ExitKind → Option Money
  | .stopLoss => o.stopLossPrice
  | .takeProfit => o.takeProfitPrice

namespace ExitOrder

/-- The lot an exit order closes, and how much of it. -/
def key (x : ExitOrder) : Uuid × ℚ := (x.fillUuid, x.triggerQuantity)

/-- The side of that lot. -/
def lotSide (x : ExitOrder) : Side := if x.isShortPosition then .sell else .buy

theorem toCloseInstruction_isOn (x : ExitOrder) : x.toCloseInstruction.isOn x.lotSide.opposite = true := by
  cases h : x.isShortPosition <;>
    simp [toCloseInstruction, lotSide, h, Side.opposite, Order.isOn, Order.isBuy, Order.isSell]

end ExitOrder

/-! ### Keys -/

/-- What remains of a key when `q` shares of the lot `u` are closed. -/
def reduceKey (u : Uuid) (q : ℚ) (k : Uuid × ℚ) : Option (Uuid × ℚ) :=
  if k.1 = u then if k.2 > q then some (k.1, k.2 - q) else none else some k

/-- What remains of a list of keys when several lots are closed. -/
def reduceKeys (closed : List (Uuid × ℚ)) (keys : List (Uuid × ℚ)) : List (Uuid × ℚ) :=
  closed.foldl (fun keys c => keys.filterMap (reduceKey c.1 c.2)) keys

/-- Reducing a list step by step keeps permutations. -/
private theorem foldl_filterMap_perm {α κ : Type} (f : κ → α → Option α) (cs : List κ) {xs ys : List α}
    (h : xs.Perm ys) :
    (cs.foldl (fun xs c => xs.filterMap (f c)) xs).Perm (cs.foldl (fun xs c => xs.filterMap (f c)) ys) := by
  induction cs generalizing xs ys with
  | nil => exact h
  | cons c cs ih => exact ih (h.filterMap _)

theorem reduceKeys_perm (closed : List (Uuid × ℚ)) {keys keys' : List (Uuid × ℚ)} (h : keys.Perm keys') :
    (reduceKeys closed keys).Perm (reduceKeys closed keys') :=
  foldl_filterMap_perm (fun c : Uuid × ℚ => reduceKey c.1 c.2) closed h

theorem reduceKeys_append (closed keys keys' : List (Uuid × ℚ)) :
    reduceKeys closed (keys ++ keys') = reduceKeys closed keys ++ reduceKeys closed keys' := by
  induction closed generalizing keys keys' with
  | nil => rfl
  | cons c closed ih =>
    show reduceKeys closed ((keys ++ keys').filterMap _) = _
    rw [List.filterMap_append]
    exact ih _ _

/-- Closing a lot does not concern the keys of other lots. -/
theorem reduceKeys_of_ne {u : Uuid} {q : ℚ} {keys : List (Uuid × ℚ)} (h : ∀ k ∈ keys, k.1 ≠ u) :
    reduceKeys [(u, q)] keys = keys := by
  show keys.filterMap (reduceKey u q) = keys
  rw [List.filterMap_congr (g := some) fun k hk => by rw [reduceKey, if_neg (h k hk)], List.filterMap_some]

namespace ExitOrderBook

@[simp] theorem heap_setHeap (b : ExitOrderBook) (kind kind' : ExitKind) (h : BinaryHeap ExitOrder.before) :
    (b.setHeap kind h).heap kind' = if kind' = kind then h else b.heap kind' := by
  cases kind <;> cases kind' <;> rfl

private theorem map_reduceOrder (u : Uuid) (q : ℚ) (x : ExitOrder) :
    (reduceOrder u q x).map ExitOrder.key = reduceKey u q x.key := by
  unfold reduceOrder reduceKey ExitOrder.key
  split
  · split <;> rfl
  · rfl

theorem mem_reduceHeap {h : BinaryHeap ExitOrder.before} {u : Uuid} {q : ℚ} :
    (reduceHeap h u q).toList.Perm (h.toList.filterMap (reduceOrder u q)) := by
  have hpush := BinaryHeap.toList_pushAll (BinaryHeap.empty : BinaryHeap ExitOrder.before)
    (h.drain.filterMap (reduceOrder u q))
  rw [BinaryHeap.toList_empty, List.append_nil] at hpush
  exact hpush.trans ((BinaryHeap.drain_perm h).filterMap _)

theorem toList_addExitOrders (b : ExitOrderBook) (xs : List ExitOrder) (kind : ExitKind) :
    ((xs.foldl addExitOrder b).heap kind).toList.Perm
      ((b.heap kind).toList ++ xs.filter fun x => x.kind = kind) := by
  induction xs generalizing b with
  | nil => rw [List.filter_nil, List.append_nil]; exact List.Perm.refl _
  | cons x xs ih =>
    refine (ih (b.addExitOrder x)).trans ?_
    unfold addExitOrder
    by_cases hx : x.kind = kind
    · subst hx
      rw [heap_setHeap, if_pos rfl, List.filter_cons_of_pos (by simp)]
      exact ((BinaryHeap.toList_push _ x).append_right _).trans List.perm_middle.symm
    · rw [heap_setHeap, if_neg (Ne.symm hx), List.filter_cons_of_neg (by simpa using hx)]

/-- What a reduction by several lots keeps of a list of exit orders. -/
def reduceOrders (closed : List (Uuid × ℚ)) (xs : List ExitOrder) : List ExitOrder :=
  closed.foldl (fun xs c => xs.filterMap (reduceOrder c.1 c.2)) xs

theorem reduceOrders_perm (closed : List (Uuid × ℚ)) {xs ys : List ExitOrder} (h : xs.Perm ys) :
    (reduceOrders closed xs).Perm (reduceOrders closed ys) :=
  foldl_filterMap_perm (fun c : Uuid × ℚ => reduceOrder c.1 c.2) closed h

/-- The keys of what is kept are what is kept of the keys. -/
private theorem map_reduceOrders (closed : List (Uuid × ℚ)) (xs : List ExitOrder) :
    (reduceOrders closed xs).map ExitOrder.key = reduceKeys closed (xs.map ExitOrder.key) := by
  induction closed generalizing xs with
  | nil => rfl
  | cons c closed ih =>
    have hkeys : (xs.filterMap (reduceOrder c.1 c.2)).map ExitOrder.key =
        (xs.map ExitOrder.key).filterMap (reduceKey c.1 c.2) := by
      rw [List.map_filterMap, List.filterMap_map]
      exact List.filterMap_congr fun x _ => map_reduceOrder c.1 c.2 x
    show (reduceOrders closed (xs.filterMap _)).map ExitOrder.key = _
    rw [ih, hkeys]
    rfl

theorem toList_reduceExitOrdersByFills (b : ExitOrderBook) (closed : List (Uuid × ℚ)) (kind : ExitKind) :
    ((b.reduceExitOrdersByFills closed).heap kind).toList.Perm (reduceOrders closed (b.heap kind).toList) := by
  induction closed generalizing b with
  | nil => exact List.Perm.refl _
  | cons c closed ih =>
    refine (ih (b.reduceExitOrdersByFillUuid c.1 c.2)).trans (reduceOrders_perm closed ?_)
    cases kind
    · exact mem_reduceHeap
    · exact mem_reduceHeap

theorem keys_reduceExitOrdersByFills (b : ExitOrderBook) (closed : List (Uuid × ℚ)) (kind : ExitKind) :
    (((b.reduceExitOrdersByFills closed).heap kind).toList.map ExitOrder.key).Perm
      (reduceKeys closed ((b.heap kind).toList.map ExitOrder.key)) := by
  rw [← map_reduceOrders]
  exact (toList_reduceExitOrdersByFills b closed kind).map _

theorem reduceOrder_eq_some {u : Uuid} {q : ℚ} {x y : ExitOrder} (h : reduceOrder u q x = some y) :
    (x.fillUuid ≠ u ∧ y = x) ∨ (x.fillUuid = u ∧ y = { x with triggerQuantity := x.triggerQuantity - q }) := by
  unfold reduceOrder at h
  split at h
  · rename_i hu
    split at h
    · exact Or.inr ⟨hu, (Option.some.inj h).symm⟩
    · cases h
  · rename_i hu
    exact Or.inl ⟨hu, (Option.some.inj h).symm⟩

/-- An order that is kept is one of the list with another quantity.  If nothing negative is closed it is a smaller
one, and smaller by what is closed of its lot. -/
theorem mem_reduceOrders {closed : List (Uuid × ℚ)} {xs : List ExitOrder} {y : ExitOrder}
    (hy : y ∈ reduceOrders closed xs) :
    ∃ x ∈ xs, ∃ q, y = { x with triggerQuantity := q } ∧
      ((∀ c ∈ closed, c.1 = x.fillUuid → 0 ≤ c.2) →
        q ≤ x.triggerQuantity ∧ ∀ c ∈ closed, c.1 = x.fillUuid → q ≤ x.triggerQuantity - c.2) := by
  induction closed generalizing xs with
  | nil => exact ⟨y, hy, y.triggerQuantity, rfl, fun _ => ⟨le_refl _, by simp⟩⟩
  | cons c closed ih =>
    obtain ⟨z, hz, q, rfl, hq⟩ := @ih (xs.filterMap (reduceOrder c.1 c.2)) hy
    obtain ⟨x, hx, he⟩ := List.mem_filterMap.1 hz
    rcases reduceOrder_eq_some he with ⟨hu, rfl⟩ | ⟨hu, rfl⟩
    · refine ⟨z, hx, q, rfl, fun h => ?_⟩
      obtain ⟨hle, hrest⟩ := hq fun c' hc' => h c' (List.mem_cons_of_mem _ hc')
      refine ⟨hle, fun c' hc' hu' => ?_⟩
      rcases List.mem_cons.1 hc' with rfl | hc'
      · exact absurd hu'.symm hu
      · exact hrest c' hc' hu'
    · refine ⟨x, hx, q, rfl, fun h => ?_⟩
      have h0 : 0 ≤ c.2 := h c List.mem_cons_self hu.symm
      obtain ⟨hle, hrest⟩ := hq fun c' hc' => h c' (List.mem_cons_of_mem _ hc')
      change q ≤ x.triggerQuantity - c.2 at hle
      change ∀ c' ∈ closed, c'.1 = x.fillUuid → q ≤ x.triggerQuantity - c.2 - c'.2 at hrest
      refine ⟨by linarith, fun c' hc' hu' => ?_⟩
      rcases List.mem_cons.1 hc' with rfl | hc'
      · exact hle
      · linarith [hrest c' hc' hu']

theorem filterMap_reduceOrder_uuids (u : Uuid) (q : ℚ) (xs : List ExitOrder) :
    ((xs.filterMap (reduceOrder u q)).map ExitOrder.fillUuid).Sublist (xs.map ExitOrder.fillUuid) := by
  induction xs with
  | nil => exact List.Sublist.refl _
  | cons x xs ih =>
    rw [List.map_cons]
    rcases h : reduceOrder u q x with _ | y
    · rw [List.filterMap_cons_none h]
      exact ih.cons _
    · rw [List.filterMap_cons_some h, List.map_cons]
      have hxy : y.fillUuid = x.fillUuid := by
        rcases reduceOrder_eq_some h with ⟨-, rfl⟩ | ⟨-, rfl⟩ <;> rfl
      rw [hxy]
      exact ih.cons_cons _

/-- A reduction does not duplicate orders. -/
theorem reduceOrders_uuids (closed : List (Uuid × ℚ)) (xs : List ExitOrder) :
    ((reduceOrders closed xs).map ExitOrder.fillUuid).Sublist (xs.map ExitOrder.fillUuid) := by
  induction closed generalizing xs with
  | nil => exact List.Sublist.refl _
  | cons c closed ih => exact (ih _).trans (filterMap_reduceOrder_uuids c.1 c.2 xs)

end ExitOrderBook

namespace BackTestEngine

open Executor

variable {createUuid : ℕ → Uuid} {hp : HostParams} {feed : List FeedItem} {c : Config}

/-! ### Protected lots -/

/-- What is left of the lots that the executions in a list opened with an exit price. -/
def protectedIn (s : State) (kind : ExitKind) (xs : List Execution) : List (Uuid × ℚ) :=
  xs.filterMap fun x =>
    if (x.order.exitPrice kind).isSome then
      ((s.active x.result.fill.side).lookup x.result.fill.uuid).map (x.result.fill.uuid, ·)
    else none

/-- The active lots that were opened by an order with an exit price, with what is left of them. -/
def protectedLots (e : BackTestEngine) (kind : ExitKind) : List (Uuid × ℚ) := protectedIn e.state kind e.executions

theorem protectedIn_congr {s s' : State} {kind : ExitKind} {xs : List Execution}
    (h : ∀ x ∈ xs, (s'.active x.result.fill.side).lookup x.result.fill.uuid =
      (s.active x.result.fill.side).lookup x.result.fill.uuid) : protectedIn s' kind xs = protectedIn s kind xs := by
  apply List.filterMap_congr
  intro x hx
  rw [h x hx]

/-- The protected lots are named by executions. -/
theorem mem_protectedIn {s : State} {kind : ExitKind} {xs : List Execution} {k : Uuid × ℚ}
    (h : k ∈ protectedIn s kind xs) :
    ∃ x ∈ xs, x.result.fill.uuid = k.1 ∧ (s.active x.result.fill.side).lookup k.1 = some k.2 := by
  obtain ⟨x, hx, he⟩ := List.mem_filterMap.1 h
  split at he
  · obtain ⟨a, ha, rfl⟩ := Option.map_eq_some_iff.1 he
    exact ⟨x, hx, rfl, ha⟩
  · cases he

/-- Closing shares of a lot reduces its key. -/
private theorem protectedIn_closeLot {s : State} {side : Side} {u : Uuid} {a q : ℚ} {kind : ExitKind}
    {xs : List Execution} (ha : (s.active side).lookup u = some a) (hwa : IsWhole a) (hwq : IsWhole q)
    (hside : ∀ x ∈ xs, x.result.fill.uuid = u → x.result.fill.side = side) :
    protectedIn (s.closeLot side u a q) kind xs = (protectedIn s kind xs).filterMap (reduceKey u q) := by
  unfold protectedIn
  rw [List.filterMap_filterMap]
  apply List.filterMap_congr
  intro x hx
  by_cases hprice : (x.order.exitPrice kind).isSome = true
  · rw [if_pos hprice, if_pos hprice]
    by_cases hu : x.result.fill.uuid = u
    · rw [hside x hx hu, hu, State.closeLot_active, if_pos rfl, ha]
      simp only [Option.map_some, Option.bind_some, reduceKey, if_true, State.lotAfter]
      by_cases hle : a ≤ q
      · rw [if_pos (by linarith [Constants.epsilon_pos]), if_neg (not_lt.2 hle)]
        rfl
      · have hgt : ¬ a - q ≤ Constants.epsilon :=
          fun h => hle (by linarith [(hwa.sub hwq).nonpos_of_le_epsilon h])
        rw [if_neg hgt, if_pos (not_le.1 hle)]
        rfl
    · have hsame : ((s.closeLot side u a q).active x.result.fill.side).lookup x.result.fill.uuid =
          (s.active x.result.fill.side).lookup x.result.fill.uuid := by
        rcases side.eq_or_eq_opposite x.result.fill.side with hs | hs
        · rw [hs, State.closeLot_active, if_neg hu]
        · rw [hs, (State.closeLot_frame s side u a q).opposite]
      rw [hsame]
      rcases (s.active x.result.fill.side).lookup x.result.fill.uuid with _ | b
      · rfl
      · simp [reduceKey, hu]
  · rw [if_neg hprice, if_neg hprice]
    rfl

/-- Closing a list of lots reduces their keys one after the other. -/
private theorem protectedIn_foldl (side : Side) (kind : ExitKind) (xs : List Execution) {t : List (Fill × ℚ × ℚ)}
    {s : State} (hnd : (t.map fun t => t.1.uuid).Nodup)
    (hmem : ∀ p ∈ t, (s.active side).lookup p.1.uuid = some p.2.1)
    (hw : ∀ p ∈ t, IsWhole p.2.1 ∧ IsWhole p.2.2)
    (hside : ∀ p ∈ t, ∀ x ∈ xs, x.result.fill.uuid = p.1.uuid → x.result.fill.side = side) :
    protectedIn (t.foldl (fun s t => s.closeLot side t.1.uuid t.2.1 t.2.2) s) kind xs =
      reduceKeys (t.map fun t => (t.1.uuid, t.2.2)) (protectedIn s kind xs) := by
  induction t generalizing s with
  | nil => rfl
  | cons p t ih =>
    rw [List.map_cons, List.nodup_cons] at hnd
    have hp : p ∈ p :: t := List.mem_cons_self
    have ht : ∀ q ∈ t, q ∈ p :: t := fun q => List.mem_cons_of_mem p
    rw [List.foldl_cons, ih hnd.2 _ (fun q hq => hw q (ht q hq)) (fun q hq => hside q (ht q hq)),
      protectedIn_closeLot (hmem p hp) (hw p hp).1 (hw p hp).2 (hside p hp)]
    · rfl
    · intro q hq
      rw [State.closeLot_active, if_neg, hmem q (ht q hq)]
      exact fun he => hnd.1 (he ▸ List.mem_map_of_mem (f := fun t : Fill × ℚ × ℚ => t.1.uuid) hq)

/-! ### An accepted execution -/

/-- The key of the lot an execution opens, if its order has an exit price. -/
def openedKeys (o : Order) (hp : HostParams) (s : State) (uuid : Uuid) (kind : ExitKind) : List (Uuid × ℚ) :=
  if (o.exitPrice kind).isSome then
    ((s.opened o.side o.symbol (fillableQuantity o hp s)).map (uuid, ·)).toList
  else []

/-- For whole shares the lot opened is what the position opening quantity says. -/
private theorem opened_eq {o : Order} {d : Side} (hd : o.isOn d = true) {s : State}
    (hq : 1 ≤ fillableQuantity o hp s) :
    s.opened d o.symbol (fillableQuantity o hp s) =
      if positionOpeningQuantity o hp s ≤ Constants.epsilon then none else some (positionOpeningQuantity o hp s) := by
  rw [positionOpeningQuantity_eq hd, State.opened]
  by_cases hneg : d.sign * s.positionQuantity o.symbol < 0
  · simp [hneg]
  -- a fill that closes nothing opens a lot whatever its size
  · have hbig : ¬ fillableQuantity o hp s ≤ Constants.epsilon := by linarith [Constants.epsilon_lt_one]
    simp [hneg, State.closing, hbig]

private theorem keys_createExitOrders {o : Order} {d : Side} (hd : o.isOn d = true) {s : State} {uuid : Uuid}
    (hq : 1 ≤ fillableQuantity o hp s) (kind : ExitKind) :
    ((success o hp s uuid).exitOrders.filter fun x => x.kind = kind).map ExitOrder.key =
      openedKeys o hp s uuid kind := by
  show ((createExitOrders o _ s _ _).filter _).map _ = _
  unfold openedKeys createExitOrders
  rw [Order.side_of_isOn hd, opened_eq hd hq]
  by_cases hle : positionOpeningQuantity o hp s ≤ Constants.epsilon
  · simp [hle]
  · rcases hs : o.stopLossPrice with _ | sl <;> rcases ht : o.takeProfitPrice with _ | tp <;> cases kind <;>
      simp [hle, hs, ht, Order.exitPrice, ExitOrder.key, makeFill]

/-- An exit order that an execution creates: shares are opened, its order has the exit price, and what it is for. -/
theorem mem_createExitOrders {o : Order} {s : State} {uuid : Uuid} {x : ExitOrder}
    (hx : x ∈ (success o hp s uuid).exitOrders) :
    Constants.epsilon < positionOpeningQuantity o hp s ∧ o.exitPrice x.kind = some x.triggerPrice ∧
      x.isShortPosition = (o.isSell && decide (newPositionQuantity o hp s ≤ 0)) ∧ x.symbol = o.symbol ∧
      x.fillUuid = uuid := by
  change x ∈ createExitOrders o _ s _ _ at hx
  unfold createExitOrders at hx
  split at hx
  · cases hx
  · rename_i hopen
    refine ⟨not_le.1 hopen, ?_⟩
    rcases List.mem_append.1 hx with hx | hx
    · rw [Option.mem_toList] at hx
      obtain ⟨p, hp', rfl⟩ := Option.map_eq_some_iff.1 hx
      exact ⟨hp', rfl, rfl, rfl⟩
    · rw [Option.mem_toList] at hx
      obtain ⟨p, hp', rfl⟩ := Option.map_eq_some_iff.1 hx
      exact ⟨hp', rfl, rfl, rfl⟩

/-- They are for the shares opened. -/
theorem triggerQuantity_createExitOrders {o : Order} {s : State} {uuid : Uuid} {x : ExitOrder}
    (hx : x ∈ (success o hp s uuid).exitOrders) : x.triggerQuantity = positionOpeningQuantity o hp s := by
  change x ∈ createExitOrders o _ s _ _ at hx
  unfold createExitOrders at hx
  split at hx
  · cases hx
  · rcases List.mem_append.1 hx with hx | hx <;> rw [Option.mem_toList] at hx <;>
      obtain ⟨p, -, rfl⟩ := Option.map_eq_some_iff.1 hx <;> rfl

/-- The exit orders of a buy are for a buy lot, those of a sell for a sell lot. -/
theorem lotSide_createExitOrders {o : Order} {d : Side} (hd : o.isOn d = true) {s : State} {uuid : Uuid}
    {x : ExitOrder} (hx : x ∈ (success o hp s uuid).exitOrders) : x.lotSide = d := by
  obtain ⟨hb, hs⟩ := isBuy_isSell_of_isOn hd
  obtain ⟨hopen, -, hshort, -, -⟩ := mem_createExitOrders hx
  unfold ExitOrder.lotSide
  rw [hshort]
  cases d with
  | buy => simp [hs]
  | sell =>
    have hneg : newPositionQuantity o hp s ≤ 0 := by
      by_contra hpos
      simp only [positionOpeningQuantity, calculatePositionOpeningQuantity, hb] at hopen
      simp only [newPositionQuantity, hb] at hopen hpos
      simp only [reduceCtorEq, decide_false, Bool.false_eq_true, if_false] at hopen hpos
      have hε := Constants.epsilon_pos
      split at hopen
      · linarith
      · exact (lt_irrefl _) (hopen.trans_le (max_le hε.le (by linarith)))
    simp [hs, hneg]

section Accepted

variable {e : BackTestEngine} {o : Order} {d : Side} (hw : hp.fractional = false)
  (hd : o.isOn d = true) (ha : Accepted o hp e.state (createUuid e.uuidCount))

include hw hd ha in
/-- The keys of an exit heap after an execution. -/
theorem keys_execute (kind : ExitKind) :
    (((execute createUuid hp e o).exitOrderBook.heap kind).toList.map ExitOrder.key).Perm
      (reduceKeys (fillsClosedBy (success o hp e.state (createUuid e.uuidCount)).fill e.state)
          ((e.exitOrderBook.heap kind).toList.map ExitOrder.key) ++
        openedKeys o hp e.state (createUuid e.uuidCount) kind) := by
  rw [execute_accepted ha, ← keys_createExitOrders hd (one_le_fillableQuantity hw ha) kind]
  have hadd := (ExitOrderBook.toList_addExitOrders (e.exitOrderBook.reduceExitOrdersByFills
    (fillsClosedBy (success o hp e.state (createUuid e.uuidCount)).fill e.state))
    (success o hp e.state (createUuid e.uuidCount)).exitOrders kind).map ExitOrder.key
  rw [List.map_append] at hadd
  exact hadd.trans ((ExitOrderBook.keys_reduceExitOrdersByFills _ _ kind).append_right _)

variable (hinj : Function.Injective createUuid) (hreg : Registered createUuid e) (hstore : e.state.LotStore)
  (hfills : e.state.fills = e.executions.map fun x => x.result.fill)

include hd hinj hreg in
/-- The lot under the uuid of the execution is the one it opens. -/
private theorem lookup_opened :
    ((e.state.updateState (success o hp e.state (createUuid e.uuidCount))).active d).lookup (createUuid e.uuidCount) =
      e.state.opened d o.symbol (fillableQuantity o hp e.state) := by
  rw [State.updateState_active_same (fill_isOn hp e.state (createUuid e.uuidCount) hd)]
  rw [show e.state.opened d (success o hp e.state (createUuid e.uuidCount)).fill.symbol
    (success o hp e.state (createUuid e.uuidCount)).fill.quantity =
      e.state.opened d o.symbol (fillableQuantity o hp e.state) from rfl]
  rcases e.state.opened d o.symbol (fillableQuantity o hp e.state) with _ | q
  · exact hreg.active_fresh hinj d
  · exact AList.lookup_insert _

include hd hinj hreg in
/-- An earlier lot is what the FIFO walk leaves of it. -/
private theorem lookup_earlier {f : Fill} (hf : f ∈ e.state.fills) :
    ((e.state.updateState (success o hp e.state (createUuid e.uuidCount))).active f.side).lookup f.uuid =
      ((e.state.closeLots (success o hp e.state (createUuid e.uuidCount)) d).active f.side).lookup f.uuid := by
  have hne : f.uuid ≠ createUuid e.uuidCount := fun he => hreg.fresh hinj (he ▸ List.mem_map_of_mem hf)
  rcases d.eq_or_eq_opposite f.side with hs | hs
  · have hsame := (State.closeLots_frame e.state (success o hp e.state (createUuid e.uuidCount)) d).opposite
    rw [Side.opposite_opposite, State.active_recordFill] at hsame
    rw [hs, State.updateState_active_same (fill_isOn hp e.state (createUuid e.uuidCount) hd), hsame]
    split
    · rw [Map.lookup_insert_eq]
      exact if_neg hne
    · rfl
  · rw [hs, State.updateState_active_opposite (Fill.side_of_isOn (fill_isOn hp e.state (createUuid e.uuidCount) hd))]

include hfills in
private theorem mem_fills {x : Execution} (hx : x ∈ e.executions) : x.result.fill ∈ e.state.fills := by
  rw [hfills]
  exact List.mem_map_of_mem (f := fun x : Execution => x.result.fill) hx

include hw hd hreg hstore hfills in
/-- The FIFO walk reduces the keys of the lots it touches. -/
private theorem protectedIn_closeLots (kind : ExitKind) :
    protectedIn (e.state.closeLots (success o hp e.state (createUuid e.uuidCount)) d) kind e.executions =
      reduceKeys (fillsClosedBy (success o hp e.state (createUuid e.uuidCount)).fill e.state)
        (protectedLots e kind) := by
  have hfill : (success o hp e.state (createUuid e.uuidCount)).fill.isOn d = true := fill_isOn _ _ _ hd
  have hwalk := protectedIn_foldl d.opposite kind e.executions
    (s := e.state.recordFill (success o hp e.state (createUuid e.uuidCount)))
    (State.taken_uuids_nodup e.state d.opposite o.symbol
      (e.state.closing d o.symbol (fillableQuantity o hp e.state)) hreg.nodup) ?_ ?_ ?_
  · rw [State.closeLots_eq_foldl (Fill.side_of_isOn hfill) hreg.nodup, fillsClosedBy_eq hfill]
    refine hwalk.trans ?_
    rw [protectedIn_congr (s := e.state) fun x _ => by rw [State.active_recordFill]]
    rfl
  · intro p hp'
    rw [State.active_recordFill]
    exact (State.mem_lotsIn.1 (State.mem_lots_of_mem_taken hp')).2.2.2
  · intro p hp'
    have hspec := hstore.taken_spec d.opposite o.symbol
      (hstore.isWhole_closing d o.symbol (fillableQuantity_whole hw)) p hp'
    exact ⟨hspec.1, hspec.2.1⟩
  · intro p hp' x hx he
    obtain ⟨hf, -, hon, -⟩ := State.mem_lotsIn.1 (State.mem_lots_of_mem_taken hp')
    -- a uuid names one fill
    have hxf : x.result.fill = p.1 := List.inj_on_of_nodup_map hreg.nodup (mem_fills hfills hx) hf he
    rw [hxf]
    exact Fill.side_of_isOn hon

private theorem filterMap_singleton {α β : Type} (f : α → Option β) (a : α) : [a].filterMap f = (f a).toList := by
  rw [List.filterMap_cons, List.filterMap_nil]
  cases f a <;> rfl

include hw hd ha hinj hreg hstore hfills in
/-- The protected lots after an execution. -/
theorem protectedLots_execute (kind : ExitKind) :
    protectedLots (execute createUuid hp e o) kind =
      reduceKeys (fillsClosedBy (success o hp e.state (createUuid e.uuidCount)).fill e.state)
        (protectedLots e kind) ++
        openedKeys o hp e.state (createUuid e.uuidCount) kind := by
  rw [execute_accepted ha, ← protectedIn_closeLots hw hd hreg hstore hfills kind]
  show List.filterMap _ (e.executions ++ [_]) = _
  rw [List.filterMap_append]
  congr 1
  · exact protectedIn_congr fun x hx => lookup_earlier hd hinj hreg (mem_fills hfills hx)
  · rw [filterMap_singleton]
    unfold openedKeys
    dsimp only
    rw [Order.side_of_isOn hd, ← lookup_opened hd hinj hreg,
      Fill.side_of_isOn (fill_isOn hp e.state (createUuid e.uuidCount) hd)]
    split <;> rfl

end Accepted

end BackTestEngine

end QuantForge
