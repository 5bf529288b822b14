import QuantForge.Fifo
import QuantForge.Lots

/-!
# The walks over the active lots

The active lots of a symbol on a side, in the order of `fills_`, form a FIFO queue.  The list of lots an execution
closes (`closedFills`), the margin and profit it realizes (`closingMarginLoop`) and the update of the lots
(`reduceFifo`) all walk that queue, and take from it what `Fifo.takes` says.
-/

namespace QuantForge

namespace State

/-! ### The lots an execution closes -/

/-- The lots touched when `x` shares of a symbol are closed: fill, active quantity, amount closed. -/
def taken (s : State) (side : Side) (symbol : Symbol) (x : ℚ) : List (Fill × ℚ × ℚ) :=
  Fifo.takes Constants.epsilon (s.lots side symbol) x

theorem closedFills_eq (s : State) (side : Side) (symbol : Symbol) (fills : List Fill) (x : ℚ) :
    PositionCalc.closedFills s side symbol fills x =
      (Fifo.takes Constants.epsilon (lotsIn (s.active side) side symbol fills) x).map fun t => (t.1.uuid, t.2.2) := by
  induction fills generalizing x with
  | nil => rfl
  | cons f fills ih =>
    by_cases hx : x ≤ Constants.epsilon
    · simp [PositionCalc.closedFills, hx, Fifo.takes_of_le hx]
    · simp only [PositionCalc.closedFills, hx, if_false]
      by_cases hm : f.symbol = symbol ∧ f.isOn side = true
      · simp only [hm, and_self, if_true]
        rcases ha : (s.active side).lookup f.uuid with _ | a
        · rw [lotsIn_cons_skip fun _ _ => ha]
          exact ih x
        · rw [lotsIn_cons_take hm.1 hm.2 ha]
          simp only [Fifo.takes, hx, if_false, List.map_cons, ih]
      · simp only [hm, if_false]
        rw [lotsIn_cons_skip fun h1 h2 => absurd ⟨h1, h2⟩ hm]
        exact ih x

/-- A lot listed for closing is an active lot of a fill of the symbol, and what is closed of it is positive if it
is. -/
theorem mem_closedFills {s : State} {side : Side} {symbol : Symbol} {fills : List Fill} {x : ℚ} {c : Uuid × ℚ}
    (hc : c ∈ PositionCalc.closedFills s side symbol fills x) :
    (∃ f ∈ fills, f.uuid = c.1 ∧ f.symbol = symbol) ∧
      ∃ a, (s.active side).lookup c.1 = some a ∧ (0 < a → 0 < c.2) := by
  induction fills generalizing x with
  | nil => cases hc
  | cons f fills ih =>
    have rest : ∀ x, c ∈ PositionCalc.closedFills s side symbol fills x →
        (∃ g ∈ f :: fills, g.uuid = c.1 ∧ g.symbol = symbol) ∧
          ∃ a, (s.active side).lookup c.1 = some a ∧ (0 < a → 0 < c.2) := by
      intro x hx
      obtain ⟨⟨g, hg, h⟩, ha⟩ := ih hx
      exact ⟨⟨g, List.mem_cons_of_mem _ hg, h⟩, ha⟩
    unfold PositionCalc.closedFills at hc
    split at hc
    · cases hc
    · rename_i hx
      split at hc
      · rename_i hf
        split at hc
        · exact rest _ hc
        · rename_i a ha
          rcases List.mem_cons.1 hc with rfl | hc
          · refine ⟨⟨f, List.mem_cons_self, rfl, hf.1⟩, a, ha, fun ha0 => lt_min ha0 ?_⟩
            exact Constants.epsilon_pos.trans (not_le.1 hx)
          · exact rest _ hc
      · exact rest _ hc

/-- The margin the lots touched give back. -/
def releasedMargin (s : State) (t : List (Fill × ℚ × ℚ)) : Money :=
  (t.map fun t => match s.activeMarginForFills.lookup t.1.uuid with
    | some m => Money.mul m (t.2.2 / t.2.1)
    | none => 0).sum

/-- The profit on the lots touched, closed at `price`; `side` is the side of the lots. -/
def realizedPnl (side : Side) (price : Money) (t : List (Fill × ℚ × ℚ)) : Money :=
  (t.map fun t => match side with
    | .buy => Money.mul (price - t.1.price) t.2.2
    | .sell => Money.mul (t.1.price - price) t.2.2).sum

/-- `calculate_closing_margin_info` sums over the lots touched. -/
theorem closingMarginLoop_eq {o : Order} {d : Side} (hd : o.isOn d.opposite = true) (price : Money) (s : State)
    (fills : List Fill) (x : ℚ) (info : Executor.ClosingMarginInfo) :
    Executor.closingMarginLoop o price s fills x info =
      ⟨info.marginToRelease +
          s.releasedMargin (Fifo.takes Constants.epsilon (lotsIn (s.active d) d o.symbol fills) x),
        info.realizedPnl + realizedPnl d price
          (Fifo.takes Constants.epsilon (lotsIn (s.active d) d o.symbol fills) x)⟩ := by
  have hopp : o.isOn d = false := by simpa using Order.isOn_opposite hd
  have hact : (if o.isSell = true then s.activeBuyFills else s.activeSellFills) = s.active d := by
    cases d <;> simp_all [Order.isOn, Side.opposite, active]
  have hmatch : ∀ f : Fill, ((o.isSell && f.isBuy) || (o.isBuy && f.isSell)) = f.isOn d := by
    intro f
    cases d <;> simp_all [Order.isOn, Side.opposite, Fill.isOn]
  induction fills generalizing x info with
  | nil => simp [Executor.closingMarginLoop, lotsIn, Fifo.takes, releasedMargin, realizedPnl]
  | cons f fills ih =>
    by_cases hx : x ≤ Constants.epsilon
    · simp [Executor.closingMarginLoop, hx, Fifo.takes_of_le hx, releasedMargin, realizedPnl]
    · simp only [Executor.closingMarginLoop, hx, if_false, hact, hmatch]
      by_cases hm : f.symbol = o.symbol ∧ f.isOn d = true
      · simp only [hm, and_self, if_true]
        rcases ha : (s.active d).lookup f.uuid with _ | a
        · rw [lotsIn_cons_skip fun _ _ => ha]
          exact ih x info
        · rw [lotsIn_cons_take hm.1 hm.2 ha]
          dsimp only
          rw [ih]
          simp only [Fifo.takes, hx, if_false, releasedMargin, realizedPnl, List.map_cons, List.sum_cons]
          congr 1
          · exact Int.add_assoc _ _ _
          · rw [← add_assoc]
            cases d <;> simp_all [Order.isOn, Side.opposite]
      · simp only [hm, if_false]
        rw [lotsIn_cons_skip fun h1 h2 => absurd ⟨h1, h2⟩ hm]
        exact ih x info

/-! ### Closing one lot -/

/-- What is left of a lot: nothing when at most `EPSILON` shares remain. -/
def lotAfter (available toClose : ℚ) : Option ℚ :=
  if available - toClose ≤ Constants.epsilon then none else some (available - toClose)

/-- What is left of the margin of a lot: nothing when at most `EPSILON` dollars remain. -/
def marginAfter (available toClose : ℚ) (m : Money) : Option Money :=
  if Money.toDollars (m - Money.mul m (toClose / available)) ≤ Constants.epsilon then none
  else some (m - Money.mul m (toClose / available))

/-- The state fields a reduction of lots on a side leaves alone. -/
structure LotFrame (side : Side) (s s' : State) : Prop where
  cash : s'.cash = s.cash
  currentTimestampNs : s'.currentTimestampNs = s.currentTimestampNs
  positions : s'.positions = s.positions
  currentBarPrices : s'.currentBarPrices = s.currentBarPrices
  currentBarVolumes : s'.currentBarVolumes = s.currentBarVolumes
  fills : s'.fills = s.fills
  exitOrders : s'.exitOrders = s.exitOrders
  newFills : s'.newFills = s.newFills
  newExitOrders : s'.newExitOrders = s.newExitOrders
  opposite : s'.active side.opposite = s.active side.opposite

theorem LotFrame.refl (side : Side) (s : State) : LotFrame side s s :=
  ⟨rfl, rfl, rfl, rfl, rfl, rfl, rfl, rfl, rfl, rfl⟩

theorem LotFrame.trans {side : Side} {s s' s'' : State} (h : LotFrame side s s') (h' : LotFrame side s' s'') :
    LotFrame side s s'' :=
  ⟨h'.cash.trans h.cash, h'.currentTimestampNs.trans h.currentTimestampNs, h'.positions.trans h.positions,
    h'.currentBarPrices.trans h.currentBarPrices, h'.currentBarVolumes.trans h.currentBarVolumes,
    h'.fills.trans h.fills, h'.exitOrders.trans h.exitOrders, h'.newFills.trans h.newFills,
    h'.newExitOrders.trans h.newExitOrders, h'.opposite.trans h.opposite⟩

theorem closeLot_frame (s : State) (side : Side) (u : Uuid) (a c : ℚ) : LotFrame side s (s.closeLot side u a c) := by
  unfold closeLot
  cases side <;> dsimp only [setActive] <;> split <;> try split
  all_goals exact ⟨rfl, rfl, rfl, rfl, rfl, rfl, rfl, rfl, rfl, rfl⟩

theorem closeLot_active_eq (s : State) (side : Side) (u : Uuid) (a c : ℚ) :
    (s.closeLot side u a c).active side =
      if a - c ≤ Constants.epsilon then (s.active side).erase u else (s.active side).insert u (a - c) := by
  unfold closeLot
  cases side <;> dsimp only [setActive] <;> split <;> try split
  all_goals rfl

theorem closeLot_active (s : State) (side : Side) (u v : Uuid) (a c : ℚ) :
    ((s.closeLot side u a c).active side).lookup v =
      if v = u then lotAfter a c else (s.active side).lookup v := by
  rw [closeLot_active_eq, lotAfter]
  split
  · rw [Map.lookup_erase_eq]
  · rw [Map.lookup_insert_eq]

section CloseLotMargin

variable (s : State) (side : Side) (u : Uuid) (a c : ℚ)

private theorem margin_setActive (m : Map Uuid ℚ) :
    (s.setActive side m).activeMarginForFills = s.activeMarginForFills ∧
    (s.setActive side m).activeLeverageForFills = s.activeLeverageForFills ∧
    (s.setActive side m).marginInUse = s.marginInUse := by
  cases side <;> exact ⟨rfl, rfl, rfl⟩

theorem closeLot_margin :
    (s.closeLot side u a c).activeMarginForFills =
      match s.activeMarginForFills.lookup u with
      | none => s.activeMarginForFills
      | some m => match marginAfter a c m with
        | none => s.activeMarginForFills.erase u
        | some m' => s.activeMarginForFills.insert u m' := by
  unfold closeLot marginAfter
  simp only [margin_setActive]
  rcases h : s.activeMarginForFills.lookup u with _ | m
  · simp only [margin_setActive]
  · dsimp only
    split <;> simp

theorem closeLot_leverage :
    (s.closeLot side u a c).activeLeverageForFills =
      match s.activeMarginForFills.lookup u with
      | none => s.activeLeverageForFills
      | some m => match marginAfter a c m with
        | none => s.activeLeverageForFills.erase u
        | some _ => s.activeLeverageForFills := by
  unfold closeLot marginAfter
  simp only [margin_setActive]
  rcases h : s.activeMarginForFills.lookup u with _ | m
  · simp only [margin_setActive]
  · dsimp only
    split <;> simp

theorem closeLot_marginInUse :
    (s.closeLot side u a c).marginInUse = s.marginInUse -
      match s.activeMarginForFills.lookup u with
      | some m => Money.mul m (c / a)
      | none => 0 := by
  unfold closeLot
  simp only [margin_setActive]
  rcases h : s.activeMarginForFills.lookup u with _ | m
  · simp only [margin_setActive, sub_zero]
  · dsimp only
    split <;> simp

theorem closeLot_leverage_lookup (v : Uuid) :
    (s.closeLot side u a c).activeLeverageForFills.lookup v =
      if v = u ∧ ∃ m, s.activeMarginForFills.lookup u = some m ∧ marginAfter a c m = none then none
      else s.activeLeverageForFills.lookup v := by
  rw [closeLot_leverage]
  rcases h : s.activeMarginForFills.lookup u with _ | m
  · simp
  · rcases h' : marginAfter a c m with _ | m'
    · simp [h', Map.lookup_erase_eq]
    · simp [h']

theorem closeLot_margin_lookup (v : Uuid) :
    (s.closeLot side u a c).activeMarginForFills.lookup v =
      if v = u then (s.activeMarginForFills.lookup u).bind (marginAfter a c)
      else s.activeMarginForFills.lookup v := by
  rw [closeLot_margin]
  rcases h : s.activeMarginForFills.lookup u with _ | m
  · by_cases hv : v = u
    · subst hv; simp [h]
    · simp [hv]
  · rcases h' : marginAfter a c m with _ | m'
    · simp only [h', Map.lookup_erase_eq, Option.bind_some]
    · simp only [h', Map.lookup_insert_eq, Option.bind_some]

end CloseLotMargin

/-! ### Closing lots first in, first out -/

/-- Closing at most `EPSILON` does nothing. -/
theorem reduceFifo_of_le {x : ℚ} (hx : x ≤ Constants.epsilon) (side : Side) (symbol : Symbol) (fills : List Fill)
    (s : State) : reduceFifo side symbol fills x s = s := by
  cases fills with
  | nil => rfl
  | cons f fills => rw [reduceFifo, if_pos hx]

/-- A property of states that closing an active lot keeps is kept by a reduction. -/
theorem reduceFifo_induction {P : State → Prop} {side : Side} {symbol : Symbol} {fills : List Fill}
    {x : ℚ} {s : State} (h0 : P s)
    (hclose : ∀ s u a c, P s → (s.active side).lookup u = some a → P (s.closeLot side u a c)) :
    P (reduceFifo side symbol fills x s) := by
  induction fills generalizing x s with
  | nil => exact h0
  | cons f fills ih =>
    unfold reduceFifo
    split
    · exact h0
    · split
      · split
        · exact ih h0
        · rename_i a ha
          exact ih (hclose s f.uuid a _ h0 ha)
      · exact ih h0

theorem reduceFifo_frame (side : Side) (symbol : Symbol) (fills : List Fill) (x : ℚ) (s : State) :
    LotFrame side s (reduceFifo side symbol fills x s) :=
  reduceFifo_induction (LotFrame.refl side s) fun s' u a c h _ => h.trans (closeLot_frame s' side u a c)

/-- What is recorded under a uuid is the same in two accounts: the lots, the margin and the leverage. -/
structure SameLot (u : Uuid) (s s' : State) : Prop where
  active : ∀ d, (s'.active d).lookup u = (s.active d).lookup u
  margin : s'.activeMarginForFills.lookup u = s.activeMarginForFills.lookup u
  leverage : s'.activeLeverageForFills.lookup u = s.activeLeverageForFills.lookup u

theorem SameLot.refl (u : Uuid) (s : State) : SameLot u s s := ⟨fun _ => rfl, rfl, rfl⟩

theorem SameLot.trans {u : Uuid} {s s' s'' : State} (h : SameLot u s s') (h' : SameLot u s' s'') : SameLot u s s'' :=
  ⟨fun d => (h'.active d).trans (h.active d), h'.margin.trans h.margin, h'.leverage.trans h.leverage⟩

theorem closeLot_sameLot (s : State) (side : Side) {u v : Uuid} (hu : u ≠ v) (a c : ℚ) :
    SameLot u s (s.closeLot side v a c) := by
  refine ⟨fun d => ?_, ?_, ?_⟩
  · rcases Side.eq_or_eq_opposite side d with rfl | rfl
    · rw [closeLot_active, if_neg hu]
    · rw [(closeLot_frame s side v a c).opposite]
  · rw [closeLot_margin_lookup, if_neg hu]
  · rw [closeLot_leverage_lookup, if_neg fun h => hu h.1]

/-- A reduction looks at the fills of its symbol only. -/
theorem reduceFifo_sameLot {side : Side} {symbol : Symbol} {fills : List Fill} {u : Uuid}
    (hu : ∀ f ∈ fills, f.symbol = symbol → f.uuid ≠ u) (x : ℚ) (s : State) :
    SameLot u s (reduceFifo side symbol fills x s) := by
  induction fills generalizing x s with
  | nil => exact .refl u s
  | cons f fills ih =>
    have hrest : ∀ f ∈ fills, f.symbol = symbol → f.uuid ≠ u := fun g hg => hu g (by simp [hg])
    unfold reduceFifo
    split
    · exact .refl u s
    · split
      · rename_i hm
        split
        · exact ih hrest x s
        · exact (closeLot_sameLot s side (hu f (by simp) hm.1).symm _ _).trans (ih hrest _ _)
      · exact ih hrest x s

theorem reduceFifo_active_of_notMem {side : Side} {symbol : Symbol} {fills : List Fill} {u : Uuid}
    (hu : u ∉ fills.map Fill.uuid) (x : ℚ) (s : State) :
    ((reduceFifo side symbol fills x s).active side).lookup u = (s.active side).lookup u :=
  (reduceFifo_sameLot (fun f hf _ (he : f.uuid = u) => hu (he ▸ List.mem_map_of_mem hf)) x s).active side

/-- A fill on the other side at the end is not looked at. -/
theorem reduceFifo_append_skip {side : Side} {f : Fill} (hf : f.isOn side = false) (symbol : Symbol)
    (fills : List Fill) (x : ℚ) (s : State) :
    reduceFifo side symbol (fills ++ [f]) x s = reduceFifo side symbol fills x s := by
  induction fills generalizing x s with
  | nil =>
    simp only [List.nil_append, reduceFifo, hf, Bool.false_eq_true, and_false, if_false, ite_self]
  | cons g fills ih =>
    rw [List.cons_append, reduceFifo, reduceFifo]
    split
    · rfl
    · split
      · split
        · exact ih x s
        · exact ih _ _
      · exact ih x s

/-- Closing shares of a lot leaves the lots of other fills. -/
theorem lotsIn_closeLot (side : Side) (symbol : Symbol) {fills : List Fill} {u : Uuid} (hu : u ∉ fills.map Fill.uuid)
    (a q : ℚ) (s : State) :
    lotsIn ((s.closeLot side u a q).active side) side symbol fills = lotsIn (s.active side) side symbol fills := by
  apply lotsIn_congr
  intro g hg _ _
  rw [closeLot_active, if_neg]
  exact fun he => hu (he ▸ List.mem_map_of_mem hg)

/-- The lots after a reduction. -/
theorem lotsIn_reduceFifo (side : Side) (symbol : Symbol) {fills : List Fill} (hnd : (fills.map Fill.uuid).Nodup)
    (x : ℚ) (s : State) :
    lotsIn ((reduceFifo side symbol fills x s).active side) side symbol fills =
      Fifo.drop Constants.epsilon (lotsIn (s.active side) side symbol fills) x := by
  induction fills generalizing x s with
  | nil => rfl
  | cons f fills ih =>
    rw [List.map_cons, List.nodup_cons] at hnd
    by_cases hx : x ≤ Constants.epsilon
    · simp [reduceFifo, hx, Fifo.drop_of_le hx]
    · simp only [reduceFifo, hx, if_false]
      by_cases hm : f.symbol = symbol ∧ f.isOn side = true
      · simp only [hm, and_self, if_true]
        rcases ha : (s.active side).lookup f.uuid with _ | a
        · dsimp only
          rw [lotsIn_cons_skip fun _ _ => ha, lotsIn_cons_skip, ih hnd.2]
          intro _ _
          rw [reduceFifo_active_of_notMem hnd.1, ha]
        · dsimp only
          -- the rest of the walk leaves this lot alone, and closing this lot leaves the others
          have hhead : ((reduceFifo side symbol fills (x - min a x)
              (s.closeLot side f.uuid a (min a x))).active side).lookup f.uuid = lotAfter a (min a x) := by
            rw [reduceFifo_active_of_notMem hnd.1, closeLot_active, if_pos rfl]
          have hrest := lotsIn_closeLot side symbol hnd.1 a (min a x) s
          rw [lotsIn_cons_take hm.1 hm.2 ha]
          simp only [Fifo.drop, hx, if_false]
          by_cases hl : a - min a x ≤ Constants.epsilon
          · rw [lotsIn_cons_skip fun _ _ => by rw [hhead, lotAfter, if_pos hl], ih hnd.2, hrest]
            simp [hl]
          · rw [lotsIn_cons_take hm.1 hm.2 (by rw [hhead, lotAfter, if_neg hl]), ih hnd.2, hrest]
            simp [hl]
      · simp only [hm, if_false]
        have hskip : ∀ m : Map Uuid ℚ, lotsIn m side symbol (f :: fills) = lotsIn m side symbol fills :=
          fun m => lotsIn_cons_skip fun h1 h2 => absurd ⟨h1, h2⟩ hm
        rw [hskip, hskip]
        exact ih hnd.2 x s

/-- A reduction closes the lots touched one after the other. -/
theorem reduceFifo_eq_foldl (side : Side) (symbol : Symbol) {fills : List Fill} (hnd : (fills.map Fill.uuid).Nodup)
    (x : ℚ) (s : State) :
    reduceFifo side symbol fills x s =
      (Fifo.takes Constants.epsilon (lotsIn (s.active side) side symbol fills) x).foldl
        (fun s t => s.closeLot side t.1.uuid t.2.1 t.2.2) s := by
  induction fills generalizing x s with
  | nil => rfl
  | cons f fills ih =>
    rw [List.map_cons, List.nodup_cons] at hnd
    by_cases hx : x ≤ Constants.epsilon
    · simp [reduceFifo, hx, Fifo.takes_of_le hx]
    · simp only [reduceFifo, hx, if_false]
      by_cases hm : f.symbol = symbol ∧ f.isOn side = true
      · simp only [hm, and_self, if_true]
        rcases ha : (s.active side).lookup f.uuid with _ | a
        · rw [lotsIn_cons_skip fun _ _ => ha]
          exact ih hnd.2 x s
        · rw [lotsIn_cons_take hm.1 hm.2 ha]
          simp only [Fifo.takes, hx, if_false, List.foldl_cons]
          rw [ih hnd.2, lotsIn_closeLot side symbol hnd.1]
      · simp only [hm, if_false]
        rw [lotsIn_cons_skip fun h1 h2 => absurd ⟨h1, h2⟩ hm]
        exact ih hnd.2 x s

theorem lotsIn_uuids_nodup (active : Map Uuid ℚ) (side : Side) (symbol : Symbol) {fills : List Fill}
    (hnd : (fills.map Fill.uuid).Nodup) : ((lotsIn active side symbol fills).map fun l => l.1.uuid).Nodup := by
  have h := (lotsIn_names_sublist active side symbol fills).map Fill.uuid
  rw [List.map_map] at h
  exact h.nodup hnd

theorem taken_uuids_nodup (s : State) (side : Side) (symbol : Symbol) (x : ℚ) (hnd : (s.fills.map Fill.uuid).Nodup) :
    ((s.taken side symbol x).map fun t => t.1.uuid).Nodup := by
  have h := (Fifo.takes_sublist Constants.epsilon (s.lots side symbol) x).map fun l => l.1.uuid
  rw [List.map_map] at h
  exact h.nodup (lotsIn_uuids_nodup _ side symbol hnd)

theorem mem_lots_of_mem_taken {s : State} {side : Side} {symbol : Symbol} {x : ℚ} {t : Fill × ℚ × ℚ}
    (h : t ∈ s.taken side symbol x) : (t.1, t.2.1) ∈ s.lots side symbol :=
  (Fifo.takes_sublist _ _ x).subset (List.mem_map_of_mem (f := fun t : Fill × ℚ × ℚ => (t.1, t.2.1)) h)

/-- A property of states that closing a lot keeps, where the lot and its margin are still those of the first state. -/
theorem foldl_closeLot_induction {P : State → Prop} {side : Side} {t : List (Fill × ℚ × ℚ)} {s : State}
    (hnd : (t.map fun t => t.1.uuid).Nodup) (hmem : ∀ p ∈ t, (s.active side).lookup p.1.uuid = some p.2.1) (h0 : P s)
    (hstep : ∀ s' p, p ∈ t → (s'.active side).lookup p.1.uuid = some p.2.1 →
      s'.activeMarginForFills.lookup p.1.uuid = s.activeMarginForFills.lookup p.1.uuid →
      P s' → P (s'.closeLot side p.1.uuid p.2.1 p.2.2)) :
    P (t.foldl (fun s t => s.closeLot side t.1.uuid t.2.1 t.2.2) s) := by
  induction t generalizing s with
  | nil => exact h0
  | cons p t ih =>
    rw [List.map_cons, List.nodup_cons] at hnd
    have hne : ∀ q ∈ t, q.1.uuid ≠ p.1.uuid :=
      fun q hq he => hnd.1 (he ▸ List.mem_map_of_mem (f := fun t : Fill × ℚ × ℚ => t.1.uuid) hq)
    rw [List.foldl_cons]
    refine ih hnd.2 ?_ (hstep s p (by simp) (hmem p (by simp)) rfl h0) ?_
    · intro q hq
      rw [closeLot_active, if_neg (hne q hq)]
      exact hmem q (by simp [hq])
    · intro s' q hq ha hm hP
      rw [closeLot_margin_lookup, if_neg (hne q hq)] at hm
      exact hstep s' q (by simp [hq]) ha hm hP

theorem foldl_closeLot_active_of_ne {side : Side} {t : List (Fill × ℚ × ℚ)} {u : Uuid} (hu : ∀ p ∈ t, p.1.uuid ≠ u)
    (s : State) :
    ((t.foldl (fun s t => s.closeLot side t.1.uuid t.2.1 t.2.2) s).active side).lookup u =
      (s.active side).lookup u := by
  induction t generalizing s with
  | nil => rfl
  | cons p t ih =>
    rw [List.foldl_cons, ih (fun q hq => hu q (by simp [hq])), closeLot_active, if_neg (hu p (by simp)).symm]

/-- Of each of a list of lots with distinct uuids its amount is closed. -/
theorem foldl_closeLot_active_of_mem {side : Side} {t : List (Fill × ℚ × ℚ)} (hnd : (t.map fun t => t.1.uuid).Nodup)
    {p : Fill × ℚ × ℚ} (hp : p ∈ t) (s : State) :
    ((t.foldl (fun s t => s.closeLot side t.1.uuid t.2.1 t.2.2) s).active side).lookup p.1.uuid =
      lotAfter p.2.1 p.2.2 := by
  induction t generalizing s with
  | nil => cases hp
  | cons q t ih =>
    rw [List.map_cons, List.nodup_cons] at hnd
    rw [List.foldl_cons]
    rcases List.mem_cons.1 hp with rfl | hp
    · rw [foldl_closeLot_active_of_ne, closeLot_active, if_pos rfl]
      exact fun q hq he => hnd.1 (he ▸ List.mem_map_of_mem (f := fun t : Fill × ℚ × ℚ => t.1.uuid) hq)
    · exact ih hnd.2 hp _

/-- Closing lots with distinct uuids takes their shares of the margin out of use. -/
theorem foldl_closeLot_marginInUse (side : Side) {t : List (Fill × ℚ × ℚ)} (hnd : (t.map fun t => t.1.uuid).Nodup)
    (s : State) :
    (t.foldl (fun s t => s.closeLot side t.1.uuid t.2.1 t.2.2) s).marginInUse =
      s.marginInUse - s.releasedMargin t := by
  induction t generalizing s with
  | nil => simp [releasedMargin]
  | cons p t ih =>
    rw [List.map_cons, List.nodup_cons] at hnd
    have hrest : (s.closeLot side p.1.uuid p.2.1 p.2.2).releasedMargin t = s.releasedMargin t := by
      unfold releasedMargin
      congr 1
      apply List.map_congr_left
      intro q hq
      rw [closeLot_margin_lookup, if_neg]
      exact fun he => hnd.1 (he ▸ List.mem_map_of_mem (f := fun t => t.1.uuid) hq)
    rw [List.foldl_cons, ih hnd.2, hrest, closeLot_marginInUse]
    simp only [releasedMargin, List.map_cons, List.sum_cons]
    rw [sub_sub]

end State

end QuantForge
