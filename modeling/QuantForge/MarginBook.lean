import QuantForge.LotStore

/-!
# The margin book

`margin_in_use_` should be the sum of the margins of the lots, and a lot should have a margin and a leverage entry as
long as it is active (`State.MarginBook`).  A partial close erases the lot when at most `EPSILON` shares are left and
its margin entry when at most `EPSILON` dollars are left; the running total is not told.  So the book balances as long
as every lot touched loses both at once, with nothing left of its margin, or keeps both
(`marginBook_of_leavesCleanly`).
-/

namespace QuantForge

namespace State

/-- Margins, leverages and the running total agree with the active lots. -/
structure MarginBook (s : State) : Prop where
  total : s.marginInUse = s.recalculateMarginInUse
  margins : ∀ u, (s.activeMarginForFills.lookup u).isSome ↔ ∃ d, ((s.active d).lookup u).isSome
  leverages : ∀ u, (s.activeLeverageForFills.lookup u).isSome ↔ ∃ d, ((s.active d).lookup u).isSome

/-- Closing `toClose` of a lot of `available` shares with margin `m`: either at most `EPSILON` shares and no margin
are left, or more than `EPSILON` shares and more than `EPSILON` dollars of margin. -/
def LeavesCleanly (available toClose : ℚ) (m : Money) : Prop :=
  (available - toClose ≤ Constants.epsilon ∧ Money.mul m (toClose / available) = m) ∨
    (Constants.epsilon < available - toClose ∧
      Constants.epsilon < Money.toDollars (m - Money.mul m (toClose / available)))

instance (available toClose : ℚ) (m : Money) : Decidable (LeavesCleanly available toClose m) :=
  inferInstanceAs (Decidable (_ ∨ _))

variable {s : State} {side : Side} {u : Uuid} {a c : ℚ} {m : Money}

private theorem exists_active_closeLot (hdis : (s.active side.opposite).lookup u = none) (v : Uuid) :
    (∃ d, (((s.closeLot side u a c).active d).lookup v).isSome) ↔
      if v = u then (lotAfter a c).isSome = true else ∃ d, ((s.active d).lookup v).isSome := by
  have hopp : (s.closeLot side u a c).active side.opposite = s.active side.opposite := (closeLot_frame ..).opposite
  constructor
  · rintro ⟨d, hd⟩
    rcases Side.eq_or_eq_opposite side d with rfl | rfl
    · rw [closeLot_active] at hd
      split at hd
      · rename_i h; rw [if_pos h]; exact hd
      · rename_i h; rw [if_neg h]; exact ⟨_, hd⟩
    · rw [hopp] at hd
      split
      · rename_i h; rw [h, hdis] at hd; cases hd
      · exact ⟨_, hd⟩
  · intro h
    split at h
    · rename_i hv
      exact ⟨side, by rw [closeLot_active, if_pos hv]; exact h⟩
    · rename_i hv
      obtain ⟨d, hd⟩ := h
      refine ⟨d, ?_⟩
      rcases Side.eq_or_eq_opposite side d with rfl | rfl
      · rw [closeLot_active, if_neg hv]; exact hd
      · rw [hopp]; exact hd

private theorem marginAfter_eq (h : LeavesCleanly a c m) :
    (lotAfter a c = none ∧ marginAfter a c m = none ∧ Money.mul m (c / a) = m) ∨
      (∃ q, lotAfter a c = some q) ∧ marginAfter a c m = some (m - Money.mul m (c / a)) := by
  unfold lotAfter marginAfter
  rcases h with ⟨h1, h2⟩ | ⟨h1, h2⟩
  · left
    rw [if_pos h1, h2, if_pos]
    · exact ⟨rfl, rfl, rfl⟩
    · rw [sub_self, Money.toDollars_le_epsilon]; norm_num
  · right
    rw [if_neg (not_le.2 h1), if_neg (not_le.2 h2)]
    exact ⟨⟨_, rfl⟩, rfl⟩

/-- Closing a lot cleanly keeps the margin book. -/
theorem MarginBook.closeLot (h : s.MarginBook) (hdis : (s.active side.opposite).lookup u = none)
    (hm : s.activeMarginForFills.lookup u = some m) (hc : LeavesCleanly a c m) :
    (s.closeLot side u a c).MarginBook := by
  have hsum := Map.sumBy_of_lookup (fun _ m => m) hm
  have htotal := h.total
  unfold recalculateMarginInUse at htotal
  refine ⟨?_, fun v => ?_, fun v => ?_⟩
  · rw [closeLot_marginInUse, recalculateMarginInUse, closeLot_margin, hm]
    rcases marginAfter_eq hc with ⟨-, h2, h3⟩ | ⟨-, h2⟩
    · simp only [h2, h3]
      rw [htotal, hsum]
      ring
    · simp only [h2, Map.sumBy_insert]
      rw [htotal, hsum]
      ring
  · rw [exists_active_closeLot hdis, closeLot_margin_lookup]
    by_cases hv : v = u
    · rw [if_pos hv, if_pos hv, hm, Option.bind_some]
      rcases marginAfter_eq hc with ⟨h1, h2, -⟩ | ⟨⟨q, h1⟩, h2⟩ <;> rw [h1, h2] <;> simp
    · rw [if_neg hv, if_neg hv]
      exact h.margins v
  · rw [exists_active_closeLot hdis, closeLot_leverage_lookup, hm]
    by_cases hv : v = u
    · rw [if_pos hv, hv]
      rcases marginAfter_eq hc with ⟨h1, h2, -⟩ | ⟨⟨q, h1⟩, h2⟩
      · rw [h1, if_pos ⟨rfl, m, rfl, h2⟩]
      · rw [h1, if_neg]
        · have hl := (h.leverages u).2 ((h.margins u).1 (by rw [hm]; rfl))
          simp [hl]
        · rintro ⟨-, m', hm', h2'⟩
          cases hm'
          rw [h2] at h2'
          cases h2'
    · rw [if_neg hv, if_neg fun hh => hv hh.1]
      exact h.leverages v

/-- Opening a lot under a new uuid keeps the margin book. -/
theorem MarginBook.openLot {s s' : State} {d : Side} {q k : ℚ} {m : Money} (h : s.MarginBook)
    (hu : s.activeMarginForFills.lookup u = none) (hactive : s'.active d = (s.active d).insert u q)
    (hopp : s'.active d.opposite = s.active d.opposite)
    (hmargin : s'.activeMarginForFills = s.activeMarginForFills.insert u m)
    (hlev : s'.activeLeverageForFills = s.activeLeverageForFills.insert u k)
    (htot : s'.marginInUse = s.marginInUse + m) : s'.MarginBook := by
  have hex : ∀ v, (∃ d', ((s'.active d').lookup v).isSome) ↔ v = u ∨ ∃ d', ((s.active d').lookup v).isSome := by
    intro v
    constructor
    · rintro ⟨d', hd'⟩
      rcases Side.eq_or_eq_opposite d d' with rfl | rfl
      · rw [hactive, Map.lookup_insert_eq] at hd'
        split at hd'
        · exact Or.inl ‹_›
        · exact Or.inr ⟨_, hd'⟩
      · rw [hopp] at hd'
        exact Or.inr ⟨_, hd'⟩
    · rintro (rfl | ⟨d', hd'⟩)
      · exact ⟨d, by rw [hactive, Map.lookup_insert_eq, if_pos rfl]; rfl⟩
      · rcases Side.eq_or_eq_opposite d d' with rfl | rfl
        · refine ⟨d', ?_⟩
          rw [hactive, Map.lookup_insert_eq]
          split
          · rfl
          · exact hd'
        · exact ⟨d.opposite, by rw [hopp]; exact hd'⟩
  refine ⟨?_, fun v => ?_, fun v => ?_⟩
  · rw [htot, recalculateMarginInUse, hmargin, Map.sumBy_insert_of_notMem _ hu, h.total]
    exact add_comm _ _
  · rw [hmargin, Map.lookup_insert_eq, hex]
    by_cases hv : v = u
    · simp [hv]
    · simp [hv, h.margins v]
  · rw [hlev, Map.lookup_insert_eq, hex]
    by_cases hv : v = u
    · simp [hv]
    · simp [hv, h.leverages v]

end State

namespace BackTestEngine

open Executor

variable {createUuid : ℕ → Uuid} {hp : HostParams} {feed : List FeedItem} {c : Config}

/-- The order, executed now, fills some shares (a fill of none would divide its margin by zero), and every lot of the
other side that it touches is left cleanly. -/
def ClosesCleanly (hp : HostParams) (e : BackTestEngine) (o : Order) : Prop :=
  0 < fillableQuantity o hp e.state ∧
    ∀ t ∈ e.state.taken o.side.opposite o.symbol (e.state.closing o.side o.symbol (fillableQuantity o hp e.state)),
      ∀ m ∈ e.state.activeMarginForFills.lookup t.1.uuid, State.LeavesCleanly t.2.1 t.2.2 m

instance (hp : HostParams) (e : BackTestEngine) (o : Order) : Decidable (ClosesCleanly hp e o) :=
  inferInstanceAs (Decidable (_ ∧ _))

theorem Registered.disjoint {e : BackTestEngine} (h : Registered createUuid e) {d : Side} {u : Uuid}
    (hu : ((e.state.active d).lookup u).isSome) : (e.state.active d.opposite).lookup u = none := by
  rcases ho : (e.state.active d.opposite).lookup u with _ | a
  · rfl
  · obtain ⟨f, hf, hfu, hfd⟩ := h.keys d u hu
    obtain ⟨g, hg, hgu, hgd⟩ := h.keys d.opposite u (Option.isSome_of_eq_some ho)
    have : f = g := List.inj_on_of_nodup_map h.nodup hf hg (hfu.trans hgu.symm)
    rw [← this, Fill.isOn_opposite hfd] at hgd
    cases hgd

/-- An accepted execution that closes cleanly keeps the margin book. -/
private theorem marginBook_update {e : BackTestEngine} {o : Order} {d : Side} (hinj : Function.Injective createUuid)
    (hreg : Registered createUuid e) (h : e.state.MarginBook) (hd : o.isOn d = true) (hG : ClosesCleanly hp e o) :
    (e.state.updateState (success o hp e.state (createUuid e.uuidCount))).MarginBook := by
  obtain ⟨-, hG⟩ := hG
  rw [Order.side_of_isOn hd] at hG
  set r := success o hp e.state (createUuid e.uuidCount) with hr
  have hfd : r.fill.isOn d = true := by cases d <;> exact hd
  have hmem : ∀ p ∈ e.state.taken d.opposite r.fill.symbol (e.state.closing d r.fill.symbol r.fill.quantity),
      (e.state.active d.opposite).lookup p.1.uuid = some p.2.1 :=
    fun p hp' => (State.mem_lotsIn.1 (State.mem_lots_of_mem_taken hp')).2.2.2
  obtain ⟨hbook, -, hnew⟩ := hreg.closeLots_induction hp hinj (Order.side_of_isOn hd) (P := State.MarginBook)
    ⟨h.total, fun u => by simp only [State.active_recordFill]; exact h.margins u,
      fun u => by simp only [State.active_recordFill]; exact h.leverages u⟩
    (by
      intro s' p hp' ha hm hd' hbook
      -- a uuid is active on one side only
      have hdis : (s'.active d.opposite.opposite).lookup p.1.uuid = none := by
        rw [Side.opposite_opposite, hd']
        have := hreg.disjoint (d := d.opposite) (u := p.1.uuid) (by rw [hmem p hp']; rfl)
        rwa [Side.opposite_opposite] at this
      obtain ⟨m, hm'⟩ : ∃ m, s'.activeMarginForFills.lookup p.1.uuid = some m :=
        Option.isSome_iff_exists.1 ((hbook.margins _).2 ⟨d.opposite, by rw [ha]; rfl⟩)
      exact hbook.closeLot hdis hm' (hG p hp' m (hm ▸ hm')))
  rcases State.updateState_maps_cases (s := e.state) hfd with ⟨hall, hm, hl, hu⟩ | ⟨q, m, hact, hopp, hm, hl, hu⟩
  · refine ⟨?_, fun u => ?_, fun u => ?_⟩
    · rw [hu, State.recalculateMarginInUse, hm]
      exact hbook.total
    · simp only [hall, hm]
      exact hbook.margins u
    · simp only [hall, hl]
      exact hbook.leverages u
  · exact hbook.openLot hnew hact hopp hm hl hu

/-- In every run whose executions all close cleanly, margins and lots agree in every state. -/
theorem marginBook_of_closesCleanly (hinj : Function.Injective createUuid) (hfeed : OnlyBuySell feed)
    (hG : ExecutionsMeet createUuid hp feed c fun e o =>
      Accepted o hp e.state (createUuid e.uuidCount) → ClosesCleanly hp e o)
    (hr : Reachable createUuid hp feed c) : c.engine.state.MarginBook := by
  have hG' := hG.and (executionsMeet_registered hinj hfeed c)
  refine reachable_ledger (J := fun e => e.state.MarginBook) ?_ ?_ ?_ hG' hr
  · refine ⟨rfl, fun u => ?_, fun u => ?_⟩
    all_goals
      constructor
      · intro h; cases h
      · rintro ⟨d, hd⟩; cases d <;> cases hd
  · intro e e' hs h
    refine ⟨?_, fun u => ?_, fun u => ?_⟩
    · rw [hs.marginInUse, State.recalculateMarginInUse, hs.activeMarginForFills]
      exact h.total
    · simp only [hs.activeMarginForFills, hs.active]
      exact h.margins u
    · simp only [hs.activeLeverageForFills, hs.active]
      exact h.leverages u
  · rintro e o h ⟨hclean, hreg, d, hd⟩
    rcases execute_cases createUuid hp e o with he | ha
    · rw [he]; exact h
    · rw [execute_accepted ha]
      exact marginBook_update hinj hreg h hd (hclean ha)

/-- A lot of ten shares closed in two halves. -/
theorem marginBook_of_closesCleanly_halves :
    let c := sampleRun sampleParams (sampleFeed "A" 1000 [(100, "buy", 10), (110, "sell", 5), (110, "sell", 0)]) 40
    c.engine.state.marginInUse = 550000000 ∧ c.engine.state.MarginBook := by
  refine ⟨by decide +kernel, ?_⟩
  refine marginBook_of_closesCleanly sampleUuid_injective (by decide +kernel) ?_
    (reachable_sampleRun _ _ _)
  refine (executionsMeet_sampleRun (G := fun e o => 0 < o.quantity → ClosesCleanly sampleParams e o)
    (le_refl 40) (Option.isNone_iff_eq_none.1 (by decide +kernel)) (by decide +kernel)).mono ?_
  exact fun _ _ _ _ _ h ha => h ha.quantity_pos

/-- A share at 100 dollars of which 0.99995 are sold: the lot is gone, 5000 microdollars of margin are not. -/
theorem not_marginBook_of_residue :
    ¬ ∀ (createUuid : ℕ → Uuid) (hp : HostParams) (feed : List FeedItem) (c : Config),
      Function.Injective createUuid → OnlyBuySell feed → Reachable createUuid hp feed c →
      c.engine.state.MarginBook := by
  intro h
  have hbook := h sampleUuid { sampleParams with allowFractionalShares := some true }
    (sampleFeed "A" 1000 [(100, "buy", 1), (100, "sell", 99995 / 100000), (100, "sell", 0)]) (sampleRun _ _ 40)
    sampleUuid_injective (by decide +kernel) (reachable_sampleRun _ _ _)
  obtain ⟨d, hd⟩ := (hbook.margins (sampleUuid 0)).1 (by decide +kernel)
  cases d <;> revert hd <;> decide +kernel

end BackTestEngine

end QuantForge
