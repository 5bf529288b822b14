import QuantForge.Runs
import QuantForge.Updates

/-!
# The walks of an execution agree

Three walks over `fills_` are made for one fill that closes lots: the list of the lots whose exit orders are reduced,
the margin and profit that go into the cash, and the reduction of the lots and of the margin in use.  They start from
quantities computed in three different ways, two of them before the fill is booked and one after it, and they touch
the same lots with the same amounts (`walks_agree`).
-/

namespace QuantForge

namespace Executor

variable {o : Order} {hp : HostParams} {s : State} {uuid : Uuid} {d : Side}

theorem fill_isOn (hp : HostParams) (s : State) (uuid : Uuid) (hd : o.isOn d = true) :
    (success o hp s uuid).fill.isOn d = true := by
  cases d <;> exact hd

/-- The margin recorded for the lot an execution opens. -/
def openedMargin (o : Order) (hp : HostParams) (s : State) (d : Side) : Money :=
  match s.opened d o.symbol (fillableQuantity o hp s) with
  | some q => Money.mul (marginRequired o hp s) (q / fillableQuantity o hp s)
  | none => 0

/-- The FIFO reduction takes the margin of the lots touched out of use. -/
theorem marginInUse_closeLots (hd : o.isOn d = true) (hnd : (s.fills.map Fill.uuid).Nodup) (uuid : Uuid) :
    (s.closeLots (success o hp s uuid) d).marginInUse =
      s.marginInUse - s.releasedMargin
        (s.taken d.opposite o.symbol (s.closing d o.symbol (fillableQuantity o hp s))) := by
  rw [State.closeLots_eq_foldl (Fill.side_of_isOn (fill_isOn hp s uuid hd)) hnd,
    State.foldl_closeLot_marginInUse _ (State.taken_uuids_nodup _ _ _ _ hnd)]
  rfl

theorem marginInUse_updateState (hd : o.isOn d = true) (hnd : (s.fills.map Fill.uuid).Nodup) (uuid : Uuid) :
    (s.updateState (success o hp s uuid)).marginInUse =
      s.marginInUse - s.releasedMargin
        (s.taken d.opposite o.symbol (s.closing d o.symbol (fillableQuantity o hp s))) + openedMargin o hp s d := by
  have hm := State.updateState_margin (s := s) (Fill.side_of_isOn (fill_isOn hp s uuid hd))
  rw [← marginInUse_closeLots hd hnd uuid, openedMargin]
  change match s.opened d o.symbol (fillableQuantity o hp s) with | some q => _ | none => _ at hm
  rcases ho : s.opened d o.symbol (fillableQuantity o hp s) with _ | q <;> rw [ho] at hm
  · rw [hm.2.2]
    exact (add_zero _).symm
  · exact hm.2.2

/-- Cash and margin in use together change by the profit less the commission, and by what the margin recorded for the
new lot differs from the margin charged for it. -/
theorem cash_add_marginInUse (hd : o.isOn d = true) (hnd : (s.fills.map Fill.uuid).Nodup) (uuid : Uuid) :
    (s.updateState (success o hp s uuid)).cash + (s.updateState (success o hp s uuid)).marginInUse =
      s.cash + s.marginInUse + State.realizedPnl d.opposite (calculateFillPrice o s)
          (s.taken d.opposite o.symbol (s.closing d o.symbol (fillableQuantity o hp s))) -
        commission o hp s uuid + (openedMargin o hp s d - marginRequired o hp s) := by
  rw [marginInUse_updateState hd hnd, (State.updateState_booking rfl).cash, cashDelta_eq hd]
  ring

/-- An order that does not carry the position across zero has its margin recorded as it was charged. -/
theorem openedMargin_eq (hd : o.isOn d = true)
    (hcross : 0 ≤ d.sign * s.positionQuantity o.symbol ∨ fillableQuantity o hp s ≤ |s.positionQuantity o.symbol|) :
    openedMargin o hp s d = marginRequired o hp s := by
  have heps := Constants.epsilon_pos
  have hopen : positionOpeningQuantity o hp s = _ := positionOpeningQuantity_eq hd
  unfold openedMargin State.opened
  by_cases hneg : d.sign * s.positionQuantity o.symbol < 0
  -- a reduction opens nothing and is charged no margin
  · have hle := hcross.resolve_left (not_le.2 hneg)
    have hc : s.closing d o.symbol (fillableQuantity o hp s) = fillableQuantity o hp s := by
      rw [State.closing, if_pos hneg, min_eq_left hle]
    rw [hc, sub_self] at hopen ⊢
    rw [if_pos ⟨hneg, heps.le⟩, marginRequired, hopen, if_neg (not_lt.2 heps.le)]
  · have hc : s.closing d o.symbol (fillableQuantity o hp s) = 0 := if_neg hneg
    rw [hc, sub_zero] at hopen ⊢
    rw [if_neg fun h => hneg h.1]
    dsimp only
    by_cases hq : fillableQuantity o hp s = 0
    · rw [marginRequired, hopen, hq, if_neg (not_lt.2 heps.le), Money.zero_mul]
    · rw [div_self hq, Money.mul_one]

/-- The walks of an execution touch the lots `t`: fill, active quantity, amount closed.  `r` is the result of the
execution and `info` what `calculate_cash_delta` computes for it. -/
structure WalksAgree (s : State) (r : ExecutionResultSuccess) (info : ClosingMarginInfo) (d : Side)
    (t : List (Fill × ℚ × ℚ)) : Prop where
  listed : BackTestEngine.fillsClosedBy r.fill s = t.map fun t => (t.1.uuid, t.2.2)
  distinct : (t.map fun t => t.1.uuid).Nodup
  reduced : ∀ p ∈ t, p.1 ∈ s.fills ∧ (s.active d.opposite).lookup p.1.uuid = some p.2.1 ∧
    ((s.updateState r).active d.opposite).lookup p.1.uuid =
      if p.2.1 - p.2.2 ≤ Constants.epsilon then none else some (p.2.1 - p.2.2)
  untouched : ∀ u, (∀ p ∈ t, p.1.uuid ≠ u) →
    ((s.updateState r).active d.opposite).lookup u = (s.active d.opposite).lookup u
  released : info.marginToRelease = s.releasedMargin t ∧
    (s.closeLots r d).marginInUse = s.marginInUse - info.marginToRelease
  realized : info.realizedPnl = State.realizedPnl d.opposite r.fill.price t

/-- For every account whose fills have distinct uuids and every accepted buy or sell, the walks agree, and an order
that does not cross zero changes cash and margin in use together by the profit realized less the commission. -/
theorem walks_agree {r : ExecutionResultSuccess} (hnd : (s.fills.map Fill.uuid).Nodup) (hd : o.isOn d = true)
    (h : executeOrder o hp s uuid = .ok r) :
    let info := calculateClosingMarginInfo o (calculateFillPrice o s)
      (fillableQuantity o hp s - positionOpeningQuantity o hp s) s
    (∃ t, WalksAgree s r info d t) ∧
      (0 ≤ d.sign * s.positionQuantity o.symbol ∨ r.fill.quantity ≤ |s.positionQuantity o.symbol| →
        (s.updateState r).cash + (s.updateState r).marginInUse =
          s.cash + s.marginInUse + info.realizedPnl - commission o hp s uuid) := by
  intro info
  obtain ⟨-, rfl⟩ := executeOrder_ok_iff.1 h
  have hside := Fill.side_of_isOn (fill_isOn hp s uuid hd)
  set t := s.taken d.opposite o.symbol (s.closing d o.symbol (fillableQuantity o hp s)) with ht
  have hinfo : info = ⟨s.releasedMargin t, State.realizedPnl d.opposite (calculateFillPrice o s) t⟩ := by
    have hclosing : fillableQuantity o hp s - positionOpeningQuantity o hp s =
        s.closing d o.symbol (fillableQuantity o hp s) := by
      rw [positionOpeningQuantity_eq hd]
      ring
    show calculateClosingMarginInfo o _ _ s = _
    rw [calculateClosingMarginInfo_eq hd, hclosing]
  have hdistinct := State.taken_uuids_nodup s d.opposite o.symbol
    (s.closing d o.symbol (fillableQuantity o hp s)) hnd
  have hlots : (s.updateState (success o hp s uuid)).active d.opposite =
      (t.foldl (fun s t => s.closeLot d.opposite t.1.uuid t.2.1 t.2.2)
        (s.recordFill (success o hp s uuid))).active d.opposite := by
    rw [State.updateState_active_opposite hside, State.closeLots_eq_foldl hside hnd]
    rfl
  refine ⟨⟨t, ?_, hdistinct, fun p hp' => ?_, fun u hu => ?_, ?_, ?_⟩, fun hcross => ?_⟩
  · exact BackTestEngine.fillsClosedBy_eq (fill_isOn hp s uuid hd) s
  · obtain ⟨hf, -, -, ha⟩ := State.mem_lotsIn.1 (State.mem_lots_of_mem_taken hp')
    refine ⟨hf, ha, ?_⟩
    rw [hlots]
    exact State.foldl_closeLot_active_of_mem hdistinct hp' _
  · rw [hlots, State.foldl_closeLot_active_of_ne hu, State.active_recordFill]
  · rw [hinfo]
    exact ⟨rfl, marginInUse_closeLots hd hnd uuid⟩
  · rw [hinfo]
    rfl
  · rw [cash_add_marginInUse hd hnd, openedMargin_eq hd hcross, hinfo]
    ring

open BackTestEngine in
/-- Ten shares bought at 110 and ten at 120, of which 15 are sold at 120. -/
theorem walks_agree_two_lots :
    let s := (sampleRun sampleParams
      (sampleFeed "A" 1000 [(100, "buy", 10), (110, "buy", 10), (120, "buy", 0)]) 20).engine.state
    let o : Order := ⟨false, 15, "A", "sell", "market", none, none, none, none, none, none⟩
    let r := success o sampleParams s "111"
    let info := calculateClosingMarginInfo o (calculateFillPrice o s)
      (fillableQuantity o sampleParams s - positionOpeningQuantity o sampleParams s) s
    fillsClosedBy r.fill s = [("", 10), ("1", 5)] ∧ (∃ t, WalksAgree s r info .sell t) ∧
      (s.updateState r).cash + (s.updateState r).marginInUse = s.cash + s.marginInUse + 100000000 := by
  intro s o r info
  obtain ⟨hagree, hcash⟩ := walks_agree (s := s) (o := o) (r := r) (d := .sell) (by decide +kernel)
    (by decide +kernel) (executeOrder_ok_iff.2 ⟨by decide +kernel, rfl⟩)
  refine ⟨by decide +kernel, hagree, (hcash (by decide +kernel)).trans (by decide +kernel)⟩

end Executor

end QuantForge
