import QuantForge.Updates
import QuantForge.OrderFlow

/-!
# Fills and their uuids

Every key of the account's maps is the uuid of a fill, and every fill has a uuid of its own (`registered`).  So what
an execution writes under its uuid is new, and the lots it touches are those of earlier fills.
-/

namespace QuantForge

namespace BackTestEngine

open Executor

variable {createUuid : ℕ → Uuid} {hp : HostParams} {feed : List FeedItem} {c : Config}

/-- The fills are those of the executions. -/
theorem fills_eq_executions (hr : Reachable createUuid hp feed c) :
    c.engine.state.fills = c.engine.executions.map fun x => x.result.fill := by
  refine reachable_ledger (J := fun e => e.state.fills = e.executions.map fun x => x.result.fill) rfl ?_ ?_
    executionsMeet_true hr
  · intro e e' hs h
    rw [hs.fills, hs.executions, h]
  · intro e o h _
    rcases execute_cases createUuid hp e o with he | ha
    · rw [he]; exact h
    · rw [execute_accepted ha]
      show (e.state.updateState _).fills = List.map _ (e.executions ++ [_])
      rw [(State.updateState_booking rfl).fills, List.map_append, h]
      rfl

/-! ### Uuids -/

/-- Every key of the account names a fill, and every fill has a uuid of its own. -/
structure Registered (createUuid : ℕ → Uuid) (e : BackTestEngine) : Prop where
  nodup : (e.state.fills.map Fill.uuid).Nodup
  drawn : ∀ f ∈ e.state.fills, ∃ k < e.uuidCount, f.uuid = createUuid k
  keys : ∀ d u, ((e.state.active d).lookup u).isSome → ∃ f ∈ e.state.fills, f.uuid = u ∧ f.isOn d = true
  margins : ∀ u, (e.state.activeMarginForFills.lookup u).isSome → u ∈ e.state.fills.map Fill.uuid
  leverages : ∀ u, (e.state.activeLeverageForFills.lookup u).isSome → u ∈ e.state.fills.map Fill.uuid
  positions : ∀ symbol p, e.state.positions.lookup symbol = some p → p.symbol = symbol ∧ p.quantity ≠ 0

namespace Registered

variable {e : BackTestEngine}

theorem fresh (hinj : Function.Injective createUuid) (h : Registered createUuid e) :
    createUuid e.uuidCount ∉ e.state.fills.map Fill.uuid := by
  intro hmem
  obtain ⟨f, hf, he⟩ := List.mem_map.1 hmem
  obtain ⟨k, hk, hfk⟩ := h.drawn f hf
  have : k = e.uuidCount := hinj (hfk.symm.trans he)
  omega

theorem active_fresh (hinj : Function.Injective createUuid) (h : Registered createUuid e) (d : Side) :
    (e.state.active d).lookup (createUuid e.uuidCount) = none := by
  rcases ha : (e.state.active d).lookup (createUuid e.uuidCount) with _ | a
  · rfl
  · obtain ⟨f, hf, hu, -⟩ := h.keys d _ (Option.isSome_of_eq_some ha)
    exact absurd (hu ▸ List.mem_map_of_mem hf) (h.fresh hinj)

theorem margin_fresh (hinj : Function.Injective createUuid) (h : Registered createUuid e) :
    e.state.activeMarginForFills.lookup (createUuid e.uuidCount) = none := by
  rcases hm : e.state.activeMarginForFills.lookup (createUuid e.uuidCount) with _ | m
  · rfl
  · exact absurd (h.margins _ (Option.isSome_of_eq_some hm)) (h.fresh hinj)

theorem sameLedger {e' : BackTestEngine} (hs : SameLedger e e') (h : Registered createUuid e) :
    Registered createUuid e' := by
  refine ⟨?_, ?_, fun d => ?_, ?_, ?_, ?_⟩
  · rw [hs.fills]; exact h.nodup
  · rw [hs.fills, hs.uuidCount]; exact h.drawn
  · rw [hs.active, hs.fills]; exact h.keys d
  · rw [hs.activeMarginForFills, hs.fills]; exact h.margins
  · rw [hs.activeLeverageForFills, hs.fills]; exact h.leverages
  · rw [hs.positions]; exact h.positions

end Registered

variable (createUuid hp) in
/-- Every position is filed under its own symbol, and none is flat. -/
private theorem positions_execute {e : BackTestEngine} (o : Order)
    (h : ∀ symbol p, e.state.positions.lookup symbol = some p → p.symbol = symbol ∧ p.quantity ≠ 0) :
    ∀ symbol p, (execute createUuid hp e o).state.positions.lookup symbol = some p →
      p.symbol = symbol ∧ p.quantity ≠ 0 := by
  rcases execute_cases createUuid hp e o with he | ha
  · rw [he]; exact h
  · rw [execute_accepted ha]
    intro symbol p hlook
    change (e.state.updateState (success o hp e.state (createUuid e.uuidCount))).positions.lookup
      symbol = some p at hlook
    rw [(State.updateState_booking rfl).positions] at hlook
    split at hlook
    · rw [Map.lookup_erase_eq] at hlook
      split at hlook
      · cases hlook
      · exact h symbol p hlook
    · rename_i hq
      rw [Map.lookup_insert_eq] at hlook
      split at hlook
      · rename_i hs
        cases hlook
        exact ⟨hs.symm, hq⟩
      · exact h symbol p hlook

theorem positions_named (hr : Reachable createUuid hp feed c) :
    ∀ symbol p, c.engine.state.positions.lookup symbol = some p → p.symbol = symbol := by
  have key := reachable_ledger (J := fun e => ∀ symbol p, e.state.positions.lookup symbol = some p →
    p.symbol = symbol ∧ p.quantity ≠ 0) (fun symbol p h => by cases h)
    (fun e e' hs h => by rw [hs.positions]; exact h) (fun e o h _ => positions_execute createUuid hp o h)
    executionsMeet_true hr
  exact fun symbol p h => (key symbol p h).1

/-- A reduction only removes keys. -/
private theorem reduceFifo_keys (side : Side) (symbol : Symbol) (fills : List Fill) (x : ℚ) (s : State) :
    (∀ u, (((State.reduceFifo side symbol fills x s).active side).lookup u).isSome →
        ((s.active side).lookup u).isSome) ∧
      (∀ u, ((State.reduceFifo side symbol fills x s).activeMarginForFills.lookup u).isSome →
        (s.activeMarginForFills.lookup u).isSome) ∧
      (∀ u, ((State.reduceFifo side symbol fills x s).activeLeverageForFills.lookup u).isSome →
        (s.activeLeverageForFills.lookup u).isSome) := by
  refine State.reduceFifo_induction (P := fun s' =>
    (∀ u, ((s'.active side).lookup u).isSome → ((s.active side).lookup u).isSome) ∧
      (∀ u, (s'.activeMarginForFills.lookup u).isSome → (s.activeMarginForFills.lookup u).isSome) ∧
      (∀ u, (s'.activeLeverageForFills.lookup u).isSome → (s.activeLeverageForFills.lookup u).isSome))
    ⟨fun _ h => h, fun _ h => h, fun _ h => h⟩ ?_
  rintro s' v a c ⟨h1, h2, h3⟩ ha
  refine ⟨fun u hu => ?_, fun u hu => ?_, fun u hu => ?_⟩
  · rw [State.closeLot_active] at hu
    split at hu
    · rename_i huv
      exact h1 u (by rw [huv, ha]; rfl)
    · exact h1 u hu
  · rw [State.closeLot_margin_lookup] at hu
    split at hu
    · rename_i huv
      rw [huv]
      refine h2 v ?_
      rcases hm : s'.activeMarginForFills.lookup v with _ | m
      · rw [hm] at hu; cases hu
      · rfl
    · exact h2 u hu
  · rw [State.closeLot_leverage_lookup] at hu
    split at hu
    · cases hu
    · exact h3 u hu

private theorem registered_update {e : BackTestEngine} {o : Order} (hinj : Function.Injective createUuid)
    (h : Registered createUuid e) : Registered createUuid (execute createUuid hp e o) := by
  have hpos := positions_execute createUuid hp o h.positions
  have hdrawn : ∀ f ∈ e.state.fills, ∃ k < e.uuidCount + 1, f.uuid = createUuid k := by
    intro f hf
    obtain ⟨k, hk, hfk⟩ := h.drawn f hf
    exact ⟨k, Nat.lt_succ_of_lt hk, hfk⟩
  rcases execute_cases createUuid hp e o with he | ha
  · rw [he]
    exact ⟨h.nodup, hdrawn, h.keys, h.margins, h.leverages, h.positions⟩
  rw [execute_accepted ha] at hpos ⊢
  set r := success o hp e.state (createUuid e.uuidCount)
  have hfresh : r.fill.uuid ∉ e.state.fills.map Fill.uuid := h.fresh hinj
  have hfills : (e.state.updateState r).fills = e.state.fills ++ [r.fill] := (State.updateState_booking rfl).fills
  have hmem : ∀ f ∈ e.state.fills, f ∈ (e.state.updateState r).fills := fun f hf => by rw [hfills]; simp [hf]
  have hnew : r.fill ∈ (e.state.updateState r).fills := by rw [hfills]; simp
  obtain ⟨hk1, hk2, hk3⟩ := reduceFifo_keys r.fill.side.opposite r.fill.symbol (e.state.fills ++ [r.fill])
    (e.state.closing r.fill.side r.fill.symbol r.fill.quantity) (e.state.recordFill r)
  -- a key is the uuid of the new fill or one that was registered
  have hkey : ∀ u, u = r.fill.uuid ∨ u ∈ e.state.fills.map Fill.uuid →
      u ∈ (e.state.updateState r).fills.map Fill.uuid := by
    rintro u (rfl | hu)
    · exact List.mem_map_of_mem hnew
    · obtain ⟨f, hf, rfl⟩ := List.mem_map.1 hu
      exact List.mem_map_of_mem (hmem f hf)
  refine ⟨?_, ?_, fun d u hu => ?_, fun u hu => ?_, fun u hu => ?_, hpos⟩
  · show ((e.state.updateState r).fills.map Fill.uuid).Nodup
    rw [hfills, List.map_append]
    exact h.nodup.append (List.nodup_singleton _) (by simpa using hfresh)
  · show ∀ f ∈ (e.state.updateState r).fills, _
    rw [hfills]
    intro f hf
    rcases List.mem_append.1 hf with hf | hf
    · exact hdrawn f hf
    · rw [List.mem_singleton.1 hf]
      exact ⟨e.uuidCount, Nat.lt_succ_self _, rfl⟩
  · obtain ⟨a, ha'⟩ := Option.isSome_iff_exists.1 hu
    have hold : ((e.state.active d).lookup u).isSome →
        ∃ f ∈ (e.state.updateState r).fills, f.uuid = u ∧ f.isOn d = true := by
      intro hu
      obtain ⟨f, hf, hfu⟩ := h.keys d u hu
      exact ⟨f, hmem f hf, hfu⟩
    rcases State.updateState_active_cases ha' with hl | ⟨hon, rfl, -⟩ | ⟨rfl, hl⟩
    · exact hold (Option.isSome_of_eq_some hl)
    · exact ⟨r.fill, hnew, rfl, hon⟩
    · have := hk1 u (Option.isSome_of_eq_some hl)
      rw [State.active_recordFill] at this
      exact hold this
  · exact hkey u (((State.updateState_margin_keys u).1 hu).imp_right fun hl => h.margins u (hk2 u hl))
  · exact hkey u (((State.updateState_margin_keys u).2 hu).imp_right fun hl => h.leverages u (hk3 u hl))

theorem registered (hinj : Function.Injective createUuid) (hr : Reachable createUuid hp feed c) :
    Registered createUuid c.engine := by
  refine reachable_ledger (J := Registered createUuid) ?_ (fun _ _ hs h => h.sameLedger hs)
    (fun e o h _ => registered_update hinj h) executionsMeet_true hr
  refine ⟨List.nodup_nil, fun f hf => ?_, fun d u hu => ?_, fun u hu => ?_, fun u hu => ?_, fun s p hp => ?_⟩
  · cases hf
  · cases d <;> cases hu
  · cases hu
  · cases hu
  · cases hp

/-- The order is on a side, and the account it is executed in has its fills registered. -/
theorem executionsMeet_registered (hinj : Function.Injective createUuid) (hfeed : OnlyBuySell feed) (c : Config) :
    ExecutionsMeet createUuid hp feed c fun e o => Registered createUuid e ∧ ∃ d, o.isOn d = true := by
  intro c' hr _ o e hn
  refine ⟨?_, Order.exists_isOn (reachable_buySell hfeed hr hn)⟩
  exact (registered hinj hr).sameLedger (nextExecution_sameAccount hn).sameLedger

/-- The fill of an accepted whole-share order, and the position after it. -/
theorem success_whole {e : BackTestEngine} {o : Order} {d : Side} (hw : hp.fractional = false)
    (hreg : Registered createUuid e) (hd : o.isOn d = true) (hQ : IsWhole (e.state.positionQuantity o.symbol)) :
    (success o hp e.state (createUuid e.uuidCount)).position.symbol = o.symbol ∧
      (success o hp e.state (createUuid e.uuidCount)).position.quantity =
        e.state.positionQuantity o.symbol + d.sign * fillableQuantity o hp e.state := by
  refine ⟨PositionCalc.calculatePosition_symbol (fun p hp => (hreg.positions _ p hp).1) _ _, ?_⟩
  have hfw := (fillableQuantity_whole (o := o) (s := e.state) hw).sign_mul d
  show (PositionCalc.calculatePosition o _ _ e.state).quantity = _
  rw [PositionCalc.calculatePosition_quantity hd]
  split
  · rename_i hlt
    exact ((hQ.add hfw).eq_zero_of_abs_lt hlt).symm
  · rfl

variable (hp) in
/-- A property of accounts that holds when the fill is recorded and that closing a lot touched keeps holds when all of
them are closed; the lots of the fill's own side and the margin under its uuid do not get in the way. -/
theorem Registered.closeLots_induction {e : BackTestEngine} {o : Order} {d : Side} (hreg : Registered createUuid e)
    (hinj : Function.Injective createUuid) (hd : o.side = d) {P : State → Prop}
    (h0 : P (e.state.recordFill (success o hp e.state (createUuid e.uuidCount))))
    (hstep : ∀ s' : State, ∀ p ∈
        e.state.taken d.opposite o.symbol (e.state.closing d o.symbol (fillableQuantity o hp e.state)),
      (s'.active d.opposite).lookup p.1.uuid = some p.2.1 →
      s'.activeMarginForFills.lookup p.1.uuid = e.state.activeMarginForFills.lookup p.1.uuid →
      s'.active d = e.state.active d → P s' → P (s'.closeLot d.opposite p.1.uuid p.2.1 p.2.2)) :
    P (e.state.closeLots (success o hp e.state (createUuid e.uuidCount)) d) ∧
      (e.state.closeLots (success o hp e.state (createUuid e.uuidCount)) d).active d = e.state.active d ∧
      (e.state.closeLots (success o hp e.state (createUuid e.uuidCount)) d).activeMarginForFills.lookup
        (createUuid e.uuidCount) = none := by
  rw [State.closeLots_eq_foldl (r := success o hp e.state (createUuid e.uuidCount)) hd hreg.nodup]
  refine State.foldl_closeLot_induction (P := fun s' => P s' ∧ s'.active d = e.state.active d ∧
    s'.activeMarginForFills.lookup (createUuid e.uuidCount) = none)
    (State.taken_uuids_nodup _ _ _ _ hreg.nodup) ?_ ⟨h0, State.active_recordFill _ _ d, hreg.margin_fresh hinj⟩ ?_
  · intro p hp'
    rw [State.active_recordFill]
    exact (State.mem_lotsIn.1 (State.mem_lots_of_mem_taken hp')).2.2.2
  · rintro s' p hp' ha hm ⟨hP, hact, hnew⟩
    refine ⟨hstep s' p hp' ha hm hact hP, ?_, ?_⟩
    · have := (State.closeLot_frame s' d.opposite p.1.uuid p.2.1 p.2.2).opposite
      rw [Side.opposite_opposite] at this
      rw [this, hact]
    · rw [State.closeLot_margin_lookup, if_neg]
      · exact hnew
      · intro he
        have hf := (State.mem_lotsIn.1 (State.mem_lots_of_mem_taken hp')).1
        exact hreg.fresh hinj (he ▸ List.mem_map_of_mem hf)

end BackTestEngine

end QuantForge
