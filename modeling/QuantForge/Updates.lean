import QuantForge.Trades

/-!
# The account after an execution

`update_state` field by field: cash, fills and positions (`updateState_booking`), the active lots of the two sides,
the margins, and the lots of a symbol as a queue (`updateState_lots_opposite`, `updateState_lots_same`).
-/

namespace QuantForge

namespace State

variable {s : State} {r : ExecutionResultSuccess} {d : Side}

/-- The account with the cash and the fill of an execution booked. -/
def recordFill (s : State) (r : ExecutionResultSuccess) : State :=
  { s with cash := s.cash + r.cashDelta, fills := s.fills ++ [r.fill], newFills := s.newFills ++ [r.fill] }

@[simp] theorem active_recordFill (s : State) (r : ExecutionResultSuccess) (d : Side) :
    (s.recordFill r).active d = s.active d := by cases d <;> rfl

/-- The account with the lots closed too. -/
def closeLots (s : State) (r : ExecutionResultSuccess) (d : Side) : State :=
  reduceFifo d.opposite r.fill.symbol (s.fills ++ [r.fill]) (s.closing d r.fill.symbol r.fill.quantity)
    (s.recordFill r)

/-- The account with the new lot, before the exit orders and the position are recorded. -/
def openLots (s : State) (r : ExecutionResultSuccess) (d : Side) : State :=
  match s.opened d r.fill.symbol r.fill.quantity with
  | some q => (s.closeLots r d).openLot r r.fill.uuid q
  | none => s.closeLots r d

/-- The comparison of `update_state` asks whether the fill goes against the position. -/
theorem comparison_eq (f : Fill) (Q : ℚ) :
    (if f.isBuy then decide (Q < 0) else decide (Q > 0)) = decide (f.side.sign * Q < 0) := by
  rw [Fill.isBuy_eq]
  cases f.side <;> simp [Side.sign]

private theorem populateActiveFills_eq (hd : r.fill.side = d) (s' : State) :
    s'.populateActiveFills r.fill (s.positionQuantity r.fill.symbol)
        (if r.fill.isBuy then s.positionQuantity r.fill.symbol < 0 else s.positionQuantity r.fill.symbol > 0) =
      (reduceFifo d.opposite r.fill.symbol s'.fills (s.closing d r.fill.symbol r.fill.quantity) s',
        (s.opened d r.fill.symbol r.fill.quantity).map (r.fill.uuid, ·)) := by
  have heps : (0 : ℚ) ≤ Constants.epsilon := Constants.epsilon_pos.le
  -- the source does not start the walk with nothing to close, but the walk would do nothing
  have hzero : ∀ (side : Side) (l : List Fill) (x : ℚ), x ≤ 0 → reduceFifo side r.fill.symbol l x s' = s' := by
    intro side l x hx
    exact reduceFifo_of_le (hx.trans heps) side _ l s'
  have hcmp : (if r.fill.isBuy then decide (s.positionQuantity r.fill.symbol < 0)
      else decide (s.positionQuantity r.fill.symbol > 0)) =
      decide (d.sign * s.positionQuantity r.fill.symbol < 0) := by
    rw [comparison_eq, hd]
  have hred : (if r.fill.isBuy = true then s'.reduceActiveSellFillsFifo r.fill.symbol
        (min r.fill.quantity |s.positionQuantity r.fill.symbol|)
      else s'.reduceActiveBuyFillsFifo r.fill.symbol (min r.fill.quantity |s.positionQuantity r.fill.symbol|)) =
      reduceFifo d.opposite r.fill.symbol s'.fills (min r.fill.quantity |s.positionQuantity r.fill.symbol|) s' := by
    rw [Fill.isBuy_eq, hd]
    cases d <;> simp [reduceActiveSellFillsFifo, reduceActiveBuyFillsFifo, Side.opposite]
  simp only [populateActiveFills]
  rw [hcmp, hred]
  unfold opened closing
  by_cases h : d.sign * s.positionQuantity r.fill.symbol < 0
  · simp only [h, decide_true, Bool.not_true, Bool.false_eq_true, if_false, if_true, true_and]
    have hstate : (if min r.fill.quantity |s.positionQuantity r.fill.symbol| > 0 then
        reduceFifo d.opposite r.fill.symbol s'.fills (min r.fill.quantity |s.positionQuantity r.fill.symbol|) s'
        else s') =
        reduceFifo d.opposite r.fill.symbol s'.fills (min r.fill.quantity |s.positionQuantity r.fill.symbol|) s' := by
      split
      · rfl
      · rename_i hle
        rw [hzero _ _ _ (not_lt.1 hle)]
    rw [hstate]
    by_cases hopen : r.fill.quantity - min r.fill.quantity |s.positionQuantity r.fill.symbol| > Constants.epsilon
    · simp [hopen, not_le.2 hopen]
    · simp [hopen, not_lt.1 hopen]
  · simp [h, hzero]

/-- The end of `update_state`, when the lots of the other side are closed. -/
private def finishUpdate (r : ExecutionResultSuccess) (p : State × Option (Uuid × ℚ)) : State :=
  let s := match p.2 with
    | some (uuid, quantity) => p.1.openLot r uuid quantity
    | none => p.1
  ({ s with
    exitOrders := s.exitOrders ++ r.exitOrders
    newExitOrders := s.newExitOrders ++ r.exitOrders } : State).storePosition r.position

/-- What `update_state` does. -/
theorem updateState_eq (hd : r.fill.side = d) :
    s.updateState r =
      ({ s.openLots r d with
        exitOrders := (s.openLots r d).exitOrders ++ r.exitOrders
        newExitOrders := (s.openLots r d).newExitOrders ++ r.exitOrders } : State).storePosition r.position := by
  have h : s.updateState r = finishUpdate r ((s.recordFill r).populateActiveFills r.fill
      (s.positionQuantity r.fill.symbol)
      (if r.fill.isBuy then s.positionQuantity r.fill.symbol < 0 else s.positionQuantity r.fill.symbol > 0)) := rfl
  rw [h, populateActiveFills_eq hd]
  unfold finishUpdate openLots closeLots
  rcases s.opened d r.fill.symbol r.fill.quantity with _ | q <;> rfl

/-! ### The account after an execution, field by field -/

private theorem storePosition_frame (s : State) (p : Position) :
    ∃ m, s.storePosition p = { s with positions := m } := by
  unfold storePosition
  split
  · exact ⟨_, rfl⟩
  · exact ⟨_, rfl⟩

theorem closeLots_frame (s : State) (r : ExecutionResultSuccess) (d : Side) :
    LotFrame d.opposite (s.recordFill r) (s.closeLots r d) :=
  reduceFifo_frame _ _ _ _ _

private theorem openLot_frame (s : State) (r : ExecutionResultSuccess) (u : Uuid) (q : ℚ) :
    ∃ b l m n k, s.openLot r u q =
      { s with activeBuyFills := b, activeSellFills := l, activeMarginForFills := m, activeLeverageForFills := n,
               marginInUse := k } := by
  unfold openLot
  split
  · exact ⟨_, _, _, _, _, rfl⟩
  · split
    · exact ⟨_, _, _, _, _, rfl⟩
    · exact ⟨_, _, _, _, _, rfl⟩

private theorem openLots_frame (s : State) (r : ExecutionResultSuccess) (d : Side) :
    ∃ b l m n k, s.openLots r d =
      { s.closeLots r d with activeBuyFills := b, activeSellFills := l, activeMarginForFills := m,
                             activeLeverageForFills := n, marginInUse := k } := by
  unfold openLots
  split
  · exact openLot_frame _ _ _ _
  · exact ⟨_, _, _, _, _, rfl⟩

/-- The fields of the account that an execution writes in a way that does not depend on its lots. -/
structure Booking (s : State) (r : ExecutionResultSuccess) (s' : State) : Prop where
  cash : s'.cash = s.cash + r.cashDelta
  fills : s'.fills = s.fills ++ [r.fill]
  newFills : s'.newFills = s.newFills ++ [r.fill]
  currentTimestampNs : s'.currentTimestampNs = s.currentTimestampNs
  currentBarPrices : s'.currentBarPrices = s.currentBarPrices
  currentBarVolumes : s'.currentBarVolumes = s.currentBarVolumes
  positions : s'.positions =
    if r.position.quantity = 0 then s.positions.erase r.position.symbol
    else s.positions.insert r.position.symbol r.position

theorem updateState_booking (hd : r.fill.side = d) : Booking s r (s.updateState r) := by
  rw [updateState_eq hd]
  obtain ⟨b, l, m, n, k, ho⟩ := openLots_frame s r d
  have hf := closeLots_frame s r d
  unfold storePosition
  split
  · rename_i h
    simp only [ho]
    exact ⟨hf.cash, hf.fills, hf.newFills, hf.currentTimestampNs, hf.currentBarPrices, hf.currentBarVolumes,
      by simp [h, hf.positions, recordFill]⟩
  · rename_i h
    simp only [ho]
    exact ⟨hf.cash, hf.fills, hf.newFills, hf.currentTimestampNs, hf.currentBarPrices, hf.currentBarVolumes,
      by simp [h, hf.positions, recordFill]⟩

/-- An execution appends its exit orders to those of the run and to those of the bar. -/
theorem updateState_exitOrders (s : State) (r : ExecutionResultSuccess) :
    (s.updateState r).exitOrders = s.exitOrders ++ r.exitOrders ∧
      (s.updateState r).newExitOrders = s.newExitOrders ++ r.exitOrders := by
  rw [updateState_eq rfl]
  obtain ⟨b, l, m, n, k, ho⟩ := openLots_frame s r r.fill.side
  have hf := closeLots_frame s r r.fill.side
  obtain ⟨p, hp⟩ := storePosition_frame
    { s.openLots r r.fill.side with
      exitOrders := (s.openLots r r.fill.side).exitOrders ++ r.exitOrders
      newExitOrders := (s.openLots r r.fill.side).newExitOrders ++ r.exitOrders } r.position
  rw [hp]
  simp only [ho, hf.exitOrders, hf.newExitOrders]
  exact ⟨rfl, rfl⟩

theorem updateState_positionQuantity (hsym : r.position.symbol = r.fill.symbol) (symbol : Symbol) :
    (s.updateState r).positionQuantity symbol =
      if symbol = r.fill.symbol then r.position.quantity else s.positionQuantity symbol := by
  unfold positionQuantity
  rw [(updateState_booking rfl).positions, hsym]
  by_cases hq : r.position.quantity = 0
  · rw [if_pos hq, Map.lookup_erase_eq]
    split
    · rw [hq]; rfl
    · rfl
  · rw [if_neg hq, Map.lookup_insert_eq]
    split <;> rfl

/-- An execution does not look at the equity curve. -/
theorem updateState_curve (s : State) (r : ExecutionResultSuccess) :
    (s.updateState r).equityCurve = s.equityCurve ∧ (s.updateState r).peakEquity = s.peakEquity ∧
      (s.updateState r).maxDrawdown = s.maxDrawdown := by
  have hclose : (s.closeLots r r.fill.side).equityCurve = s.equityCurve ∧
      (s.closeLots r r.fill.side).peakEquity = s.peakEquity ∧
      (s.closeLots r r.fill.side).maxDrawdown = s.maxDrawdown := by
    refine reduceFifo_induction (P := fun s' => s'.equityCurve = s.equityCurve ∧ s'.peakEquity = s.peakEquity ∧
      s'.maxDrawdown = s.maxDrawdown) ⟨rfl, rfl, rfl⟩ fun s' u a c h _ => ?_
    unfold closeLot setActive
    cases r.fill.side.opposite <;> dsimp only <;> split <;> (try split_ifs) <;> exact h
  rw [updateState_eq rfl]
  obtain ⟨b, l, m, n, k, ho⟩ := openLots_frame s r r.fill.side
  obtain ⟨p, hp⟩ := storePosition_frame ({ s.openLots r r.fill.side with
        exitOrders := (s.openLots r r.fill.side).exitOrders ++ r.exitOrders
        newExitOrders := (s.openLots r r.fill.side).newExitOrders ++ r.exitOrders } : State) r.position
  rw [hp, ho]
  exact hclose

/-- The maps of lots and margins are those after the new lot is opened. -/
private theorem updateState_maps (hd : r.fill.side = d) :
    (∀ d', (s.updateState r).active d' = (s.openLots r d).active d') ∧
      (s.updateState r).activeMarginForFills = (s.openLots r d).activeMarginForFills ∧
      (s.updateState r).activeLeverageForFills = (s.openLots r d).activeLeverageForFills ∧
      (s.updateState r).marginInUse = (s.openLots r d).marginInUse := by
  rw [updateState_eq hd]
  obtain ⟨m, hm⟩ := storePosition_frame ({ s.openLots r d with
        exitOrders := (s.openLots r d).exitOrders ++ r.exitOrders
        newExitOrders := (s.openLots r d).newExitOrders ++ r.exitOrders } : State) r.position
  rw [hm]
  exact ⟨fun d' => by cases d' <;> rfl, rfl, rfl, rfl⟩

private theorem openLot_active_opposite (hd : r.fill.side = d) (s : State) (u : Uuid) (q : ℚ) :
    (s.openLot r u q).active d.opposite = s.active d.opposite := by
  unfold openLot
  rw [Fill.isBuy_eq, hd]
  cases d with
  | buy => rfl
  | sell => cases r.fill.isSell <;> rfl

private theorem openLot_active_same (hd : r.fill.isOn d = true) (s : State) (u : Uuid) (q : ℚ) :
    (s.openLot r u q).active d = (s.active d).insert u q := by
  have hopp := Fill.isOn_opposite hd
  cases d with
  | buy =>
    have hb : r.fill.isBuy = true := hd
    simp [openLot, hb, active]
  | sell =>
    have hs : r.fill.isSell = true := hd
    have hb : r.fill.isBuy = false := hopp
    simp [openLot, hb, hs, active]

private theorem closeLots_active_same (s : State) (r : ExecutionResultSuccess) (d : Side) :
    (s.closeLots r d).active d = s.active d := by
  have h := (closeLots_frame s r d).opposite
  rw [Side.opposite_opposite] at h
  rw [h, active_recordFill]

theorem updateState_active_same (hd : r.fill.isOn d = true) :
    (s.updateState r).active d =
      match s.opened d r.fill.symbol r.fill.quantity with
      | some q => (s.active d).insert r.fill.uuid q
      | none => s.active d := by
  rw [(updateState_maps (Fill.side_of_isOn hd)).1 d]
  unfold openLots
  split
  · rw [openLot_active_same hd, closeLots_active_same]
  · exact closeLots_active_same s r d

/-- A fill that is neither a buy nor a sell opens no lot. -/
theorem updateState_active_unknown (hd : r.fill.side = d) (hu : r.fill.isOn d = false) :
    (s.updateState r).active d = s.active d := by
  have hopen : ∀ (s : State) (u : Uuid) (q : ℚ), (s.openLot r u q).active d = s.active d := by
    intro s u q
    unfold openLot
    cases d with
    | buy =>
      have hb : r.fill.isBuy = false := hu
      rw [Fill.isBuy_eq, hd] at hb
      cases hb
    | sell =>
      have hs : r.fill.isSell = false := hu
      rw [Fill.isBuy_eq, hd]
      simp [hs, active]
  rw [(updateState_maps hd).1 d]
  unfold openLots
  split
  · rw [hopen, closeLots_active_same]
  · exact closeLots_active_same s r d

theorem updateState_active_opposite (hd : r.fill.side = d) :
    (s.updateState r).active d.opposite = (s.closeLots r d).active d.opposite := by
  rw [(updateState_maps hd).1]
  unfold openLots
  split
  · exact openLot_active_opposite hd _ _ _
  · rfl

private theorem openLot_margin (s : State) (u : Uuid) (q : ℚ) :
    (s.openLot r u q).activeMarginForFills =
        s.activeMarginForFills.insert u (Money.mul r.marginUsed (q / r.fill.quantity)) ∧
      (s.openLot r u q).activeLeverageForFills = s.activeLeverageForFills.insert u r.leverage ∧
      (s.openLot r u q).marginInUse = s.marginInUse + Money.mul r.marginUsed (q / r.fill.quantity) := by
  unfold openLot
  split
  · exact ⟨rfl, rfl, rfl⟩
  · split
    · exact ⟨rfl, rfl, rfl⟩
    · exact ⟨rfl, rfl, rfl⟩

/-- An execution leaves what is recorded under the uuids of other symbols. -/
theorem updateState_sameLot {u : Uuid} (hu : ∀ f ∈ s.fills, f.symbol = r.fill.symbol → f.uuid ≠ u)
    (hr : r.fill.uuid ≠ u) : SameLot u s (s.updateState r) := by
  have hfills : ∀ f ∈ s.fills ++ [r.fill], f.symbol = r.fill.symbol → f.uuid ≠ u := by
    intro f hf hsym
    rcases List.mem_append.1 hf with hf | hf
    · exact hu f hf hsym
    · rw [List.mem_singleton.1 hf]
      exact hr
  have hclose : SameLot u s (s.closeLots r r.fill.side) := by
    have hrecord : SameLot u s (s.recordFill r) := ⟨fun d => by rw [active_recordFill], rfl, rfl⟩
    exact hrecord.trans (reduceFifo_sameLot hfills _ _)
  have hopen : ∀ (s : State) (q : ℚ), SameLot u s (s.openLot r r.fill.uuid q) := by
    intro s q
    obtain ⟨hm, hl, -⟩ := openLot_margin (r := r) s r.fill.uuid q
    refine ⟨fun d => ?_, ?_, ?_⟩
    · unfold openLot
      split
      · cases d <;> simp [active, AList.lookup_insert_ne hr.symm]
      · split
        · cases d <;> simp [active, AList.lookup_insert_ne hr.symm]
        · cases d <;> rfl
    · rw [hm, AList.lookup_insert_ne hr.symm]
    · rw [hl, AList.lookup_insert_ne hr.symm]
  obtain ⟨h1, h2, h3, -⟩ := updateState_maps (s := s) (r := r) rfl
  have hlots : SameLot u s (s.openLots r r.fill.side) := by
    unfold openLots
    split
    · exact hclose.trans (hopen _ _)
    · exact hclose
  exact ⟨fun d => by rw [h1]; exact hlots.active d, by rw [h2]; exact hlots.margin, by rw [h3]; exact hlots.leverage⟩

/-- Where the lots after an execution come from: an old lot, the lot of the fill, or one of the other side, after lots
were closed. -/
theorem updateState_active_cases {u : Uuid} {a : ℚ} (ha : ((s.updateState r).active d).lookup u = some a) :
    (s.active d).lookup u = some a ∨
      (r.fill.isOn d = true ∧ u = r.fill.uuid ∧ s.opened d r.fill.symbol r.fill.quantity = some a) ∨
      (d = r.fill.side.opposite ∧ ((s.closeLots r r.fill.side).active d).lookup u = some a) := by
  rcases Side.eq_or_eq_opposite r.fill.side d with rfl | rfl
  · by_cases hon : r.fill.isOn r.fill.side = true
    · rw [updateState_active_same hon] at ha
      rcases ho : s.opened r.fill.side r.fill.symbol r.fill.quantity with _ | q <;> rw [ho] at ha
      · exact Or.inl ha
      · dsimp only at ha
        rw [Map.lookup_insert_eq] at ha
        split at ha
        · rename_i hu
          exact Or.inr (Or.inl ⟨hon, hu, ha⟩)
        · exact Or.inl ha
    · rw [updateState_active_unknown rfl (by simpa using hon)] at ha
      exact Or.inl ha
  · rw [updateState_active_opposite rfl] at ha
    exact Or.inr (Or.inr ⟨rfl, ha⟩)

/-- The margin maps and the running total: the closed lots give margin back, the new lot takes its share. -/
theorem updateState_margin (hd : r.fill.side = d) :
    match s.opened d r.fill.symbol r.fill.quantity with
    | some q =>
      (s.updateState r).activeMarginForFills =
          (s.closeLots r d).activeMarginForFills.insert r.fill.uuid (Money.mul r.marginUsed (q / r.fill.quantity)) ∧
        (s.updateState r).activeLeverageForFills =
          (s.closeLots r d).activeLeverageForFills.insert r.fill.uuid r.leverage ∧
        (s.updateState r).marginInUse =
          (s.closeLots r d).marginInUse + Money.mul r.marginUsed (q / r.fill.quantity)
    | none =>
      (s.updateState r).activeMarginForFills = (s.closeLots r d).activeMarginForFills ∧
        (s.updateState r).activeLeverageForFills = (s.closeLots r d).activeLeverageForFills ∧
        (s.updateState r).marginInUse = (s.closeLots r d).marginInUse := by
  obtain ⟨-, h1, h2, h3⟩ := updateState_maps (s := s) hd
  rw [h1, h2, h3]
  unfold openLots
  rcases s.opened d r.fill.symbol r.fill.quantity with _ | q
  · exact ⟨rfl, rfl, rfl⟩
  · exact openLot_margin _ _ q

/-- The maps after a buy or a sell: those after the lots of the other side are closed, and a lot opened in them if
there is one to open. -/
theorem updateState_maps_cases (hd : r.fill.isOn d = true) :
    ((∀ d', (s.updateState r).active d' = (s.closeLots r d).active d') ∧
      (s.updateState r).activeMarginForFills = (s.closeLots r d).activeMarginForFills ∧
      (s.updateState r).activeLeverageForFills = (s.closeLots r d).activeLeverageForFills ∧
      (s.updateState r).marginInUse = (s.closeLots r d).marginInUse) ∨
    ∃ q m, (s.updateState r).active d = ((s.closeLots r d).active d).insert r.fill.uuid q ∧
      (s.updateState r).active d.opposite = (s.closeLots r d).active d.opposite ∧
      (s.updateState r).activeMarginForFills = (s.closeLots r d).activeMarginForFills.insert r.fill.uuid m ∧
      (s.updateState r).activeLeverageForFills =
        (s.closeLots r d).activeLeverageForFills.insert r.fill.uuid r.leverage ∧
      (s.updateState r).marginInUse = (s.closeLots r d).marginInUse + m := by
  have hside := Fill.side_of_isOn hd
  have hact := updateState_active_same (s := s) hd
  have hopp := updateState_active_opposite (s := s) hside
  have hm := updateState_margin (s := s) hside
  rw [← closeLots_active_same s r d] at hact
  rcases ho : s.opened d r.fill.symbol r.fill.quantity with _ | q <;> rw [ho] at hact hm
  · refine Or.inl ⟨fun d' => ?_, hm⟩
    rcases Side.eq_or_eq_opposite d d' with rfl | rfl
    · exact hact
    · exact hopp
  · exact Or.inr ⟨q, _, hact, hopp, hm⟩

/-- The margins and leverages after an execution are under the uuid of the fill or under one that had them. -/
theorem updateState_margin_keys (u : Uuid) :
    (((s.updateState r).activeMarginForFills.lookup u).isSome →
        u = r.fill.uuid ∨ ((s.closeLots r r.fill.side).activeMarginForFills.lookup u).isSome) ∧
      (((s.updateState r).activeLeverageForFills.lookup u).isSome →
        u = r.fill.uuid ∨ ((s.closeLots r r.fill.side).activeLeverageForFills.lookup u).isSome) := by
  have hm := updateState_margin (s := s) (r := r) rfl
  rcases hop : s.opened r.fill.side r.fill.symbol r.fill.quantity with _ | q <;> rw [hop] at hm
  · rw [hm.1, hm.2.1]
    exact ⟨Or.inr, Or.inr⟩
  · rw [hm.1, hm.2.1, Map.lookup_insert_eq, Map.lookup_insert_eq]
    by_cases hu : u = r.fill.uuid
    · exact ⟨fun _ => Or.inl hu, fun _ => Or.inl hu⟩
    · rw [if_neg hu, if_neg hu]
      exact ⟨Or.inr, Or.inr⟩

private theorem recorded_nodup (hnd : (s.fills.map Fill.uuid).Nodup) (hfresh : r.fill.uuid ∉ s.fills.map Fill.uuid) :
    ((s.fills ++ [r.fill]).map Fill.uuid).Nodup := by
  rw [List.map_append, List.map_singleton]
  exact hnd.append (List.nodup_singleton _) (by simpa using hfresh)

/-- The lots an execution closes are those its walk touches before the execution. -/
theorem closeLots_eq_foldl (hd : r.fill.side = d) (hnd : (s.fills.map Fill.uuid).Nodup) :
    s.closeLots r d =
      (s.taken d.opposite r.fill.symbol (s.closing d r.fill.symbol r.fill.quantity)).foldl
        (fun s t => s.closeLot d.opposite t.1.uuid t.2.1 t.2.2) (s.recordFill r) := by
  have hoff : r.fill.isOn d.opposite = false := hd ▸ r.fill.isOn_opposite_side
  unfold closeLots taken lots
  rw [reduceFifo_append_skip hoff, reduceFifo_eq_foldl _ _ hnd, active_recordFill]

/-! ### The lots after an execution -/

/-- The lots of the other side: the symbol's queue loses what the fill closes. -/
theorem updateState_lots_opposite (hd : r.fill.side = d) (hnd : (s.fills.map Fill.uuid).Nodup)
    (hfresh : r.fill.uuid ∉ s.fills.map Fill.uuid) (symbol : Symbol) :
    (s.updateState r).lots d.opposite symbol =
      if symbol = r.fill.symbol then
        Fifo.drop Constants.epsilon (s.lots d.opposite symbol) (s.closing d symbol r.fill.quantity)
      else s.lots d.opposite symbol := by
  have hskip : ∀ m, lotsIn m d.opposite symbol (s.fills ++ [r.fill]) = lotsIn m d.opposite symbol s.fills := by
    intro m
    rw [lotsIn_append, lotsIn_cons_skip]
    · exact List.append_nil _
    · intro _ h
      rw [← hd, Fill.isOn_opposite_side] at h
      cases h
  have hnd' := recorded_nodup hnd hfresh
  unfold lots
  rw [(updateState_booking hd).fills, updateState_active_opposite hd]
  by_cases hs : symbol = r.fill.symbol
  · subst hs
    rw [if_pos rfl, ← hskip (s.active d.opposite), ← active_recordFill s r]
    exact lotsIn_reduceFifo _ _ hnd' _ _
  · rw [if_neg hs, hskip]
    apply lotsIn_congr
    intro f hf hfs _
    have hother : ∀ g ∈ s.fills ++ [r.fill], g.symbol = r.fill.symbol → g.uuid ≠ f.uuid := by
      intro g hg hgs he
      have : g = f := List.inj_on_of_nodup_map hnd' hg (by simp [hf]) he
      exact hs (by rw [← hfs, ← this, hgs])
    rw [closeLots, (reduceFifo_sameLot hother _ _).active, active_recordFill]

/-- The lots of the fill's own side: the new lot comes last. -/
theorem updateState_lots_same (hd : r.fill.isOn d = true) (hfresh : r.fill.uuid ∉ s.fills.map Fill.uuid)
    (hkeys : (s.active d).lookup r.fill.uuid = none) (symbol : Symbol) :
    (s.updateState r).lots d symbol =
      s.lots d symbol ++
        if symbol = r.fill.symbol then ((s.opened d symbol r.fill.quantity).map (r.fill, ·)).toList else [] := by
  unfold lots
  rw [(updateState_booking rfl).fills, updateState_active_same hd, lotsIn_append]
  congr 1
  · apply lotsIn_congr
    intro f hf _ _
    split
    · rw [Map.lookup_insert_eq, if_neg]
      exact fun he => hfresh (he ▸ List.mem_map_of_mem hf)
    · rfl
  · by_cases hs : symbol = r.fill.symbol
    · subst hs
      rw [if_pos rfl]
      rcases s.opened d r.fill.symbol r.fill.quantity with _ | q
      · rw [lotsIn_cons_skip fun _ _ => hkeys]
        rfl
      · rw [lotsIn_cons_take rfl hd (by rw [Map.lookup_insert_eq, if_pos rfl])]
        rfl
    · rw [if_neg hs, lotsIn_cons_skip fun h _ => absurd h.symm hs]
      rfl

end State

namespace BackTestEngine

open Executor

/-- An execution looks at the market data and leaves them. -/
theorem execute_marketData (createUuid : ℕ → Uuid) (hp : HostParams) (e : BackTestEngine) (o : Order) :
    (execute createUuid hp e o).processed = e.processed ∧
      (execute createUuid hp e o).state.currentBarPrices = e.state.currentBarPrices ∧
      (execute createUuid hp e o).state.currentBarVolumes = e.state.currentBarVolumes := by
  rcases execute_cases createUuid hp e o with he | ha
  · rw [he]; exact ⟨rfl, rfl, rfl⟩
  · rw [execute_accepted ha]
    have hb := State.updateState_booking (s := e.state) (r := success o hp e.state (createUuid e.uuidCount)) rfl
    exact ⟨rfl, hb.currentBarPrices, hb.currentBarVolumes⟩

end BackTestEngine

end QuantForge
