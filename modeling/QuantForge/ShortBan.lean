import QuantForge.ExitPasses
import QuantForge.Lookahead

/-!
# The ban on short selling

With `allow_short_selling_` false, `validate_margin` refuses a sell that would leave a negative position.  The
position is computed again when the fill is booked and split once more into lots, but the one check covers all of it:
no position is negative, no sell lot holds shares, and no exit order is for a short position (`shortBan`).  The check
looks at sells only, and with fractional shares nothing keeps a negative cap from making a buy a sale
(`negative_cap_sells_short`).
-/

namespace QuantForge

namespace Executor

variable {o : Order} {hp : HostParams} {s : State}

/-- An accepted sell does not go below zero. -/
theorem Accepted.newPositionQuantity_nonneg {uuid : Uuid} (ha : Accepted o hp s uuid)
    (hban : hp.allowShortSelling = some false) (hs : o.isSell = true) : 0 ≤ newPositionQuantity o hp s := by
  by_contra hneg
  have hmargin := ha.margin
  unfold validateMargin at hmargin
  simp [hs, hban, not_le.1 hneg] at hmargin

end Executor

namespace BackTestEngine

open Executor

variable {createUuid : ℕ → Uuid} {hp : HostParams} {feed : List FeedItem} {c : Config}

/-- What the ban keeps of the account. -/
structure NoShort (s : State) : Prop where
  positions : ∀ symbol p, s.positions.lookup symbol = some p → p.symbol = symbol ∧ 0 ≤ p.quantity
  sells : ∀ u a, s.activeSellFills.lookup u = some a → a ≤ 0

theorem NoShort.quantity {s : State} (h : NoShort s) (symbol : Symbol) : 0 ≤ s.positionQuantity symbol := by
  unfold State.positionQuantity
  rcases hp : s.positions.lookup symbol with _ | p
  · exact le_refl _
  · exact (h.positions symbol p hp).2

variable {s : State} {o : Order} {uuid : Uuid}

/-- The position after an accepted order is not negative. -/
private theorem NoShort.position (h : NoShort s) (hban : hp.allowShortSelling = some false)
    (ha : Accepted o hp s uuid) (hq : 0 ≤ fillableQuantity o hp s) :
    0 ≤ (success o hp s uuid).position.quantity := by
  have hQ := h.quantity o.symbol
  show 0 ≤ (PositionCalc.calculatePosition o (fillableQuantity o hp s) _ s).quantity
  by_cases hon : o.isBuy = true ∨ o.isSell = true
  · obtain ⟨d, hd⟩ := Order.exists_isOn hon
    rw [PositionCalc.calculatePosition_quantity hd]
    split
    · exact le_refl _
    · cases d with
      | buy =>
        simp only [Side.sign, one_mul]
        exact add_nonneg hQ hq
      | sell =>
        rw [← newPositionQuantity_eq hd]
        exact ha.newPositionQuantity_nonneg hban hd
  · rw [not_or, Bool.not_eq_true, Bool.not_eq_true] at hon
    rw [PositionCalc.calculatePosition_quantity_unknown hon.1 hon.2]
    split
    · exact le_refl _
    · exact hQ

/-- An accepted sell opens no shares. -/
private theorem NoShort.sell_le (h : NoShort s) (hban : hp.allowShortSelling = some false)
    (ha : Accepted o hp s uuid) (hs : o.isSell = true) :
    fillableQuantity o hp s - s.closing .sell o.symbol (fillableQuantity o hp s) ≤ 0 := by
  have hnew := ha.newPositionQuantity_nonneg hban hs
  rw [newPositionQuantity_eq (d := .sell) hs] at hnew
  simp only [Side.sign, neg_mul, one_mul] at hnew
  have hle : fillableQuantity o hp s ≤ s.positionQuantity o.symbol := by linarith
  unfold State.closing
  split
  · rw [abs_of_nonneg (h.quantity o.symbol), min_eq_left hle, sub_self]
  · rename_i hpos
    simp only [Side.sign, neg_mul, one_mul] at hpos
    linarith

/-- No exit order of an accepted order is for a short position. -/
private theorem NoShort.exitOrders (h : NoShort s) (hban : hp.allowShortSelling = some false)
    (ha : Accepted o hp s uuid) : ∀ x ∈ (success o hp s uuid).exitOrders, x.isShortPosition = false := by
  intro x hx
  obtain ⟨hopen, -, hshort, -, -⟩ := mem_createExitOrders hx
  -- a sell would have to open shares
  have hs : o.isSell = false := by
    by_contra hs
    have hs' : o.isSell = true := by simpa using hs
    rw [positionOpeningQuantity_eq (d := .sell) hs'] at hopen
    exact absurd hopen (not_lt.2 ((h.sell_le hban ha hs').trans Constants.epsilon_pos.le))
  rw [hshort, hs, Bool.false_and]

/-- Booking an accepted order keeps the ban. -/
private theorem NoShort.updateState (h : NoShort s) (hban : hp.allowShortSelling = some false)
    (ha : Accepted o hp s uuid) (hq : 0 ≤ fillableQuantity o hp s) :
    NoShort (s.updateState (success o hp s uuid)) := by
  refine ⟨fun symbol p hlook => ?_, fun u a hlook => ?_⟩
  · have hsym : (success o hp s uuid).position.symbol = o.symbol :=
      PositionCalc.calculatePosition_symbol (fun p hp => (h.positions _ p hp).1) _ _
    rw [(State.updateState_booking rfl).positions, hsym] at hlook
    split at hlook
    · rw [Map.lookup_erase_eq] at hlook
      split at hlook
      · cases hlook
      · exact h.positions symbol p hlook
    · rw [Map.lookup_insert_eq] at hlook
      split at hlook
      · rename_i he
        cases hlook
        exact ⟨hsym.trans he.symm, h.position hban ha hq⟩
      · exact h.positions symbol p hlook
  · rcases State.updateState_active_cases (d := .sell) hlook with hold | ⟨hon, -, hopened⟩ | ⟨hside, hclosed⟩
    · exact h.sells u a hold
    · unfold State.opened at hopened
      split at hopened
      · cases hopened
      · cases hopened
        exact h.sell_le hban ha hon
    -- a buy closes no sell lots, for the position is not short
    · generalize hd : (success o hp s uuid).fill.side = d at hside hclosed
      cases d with
      | sell => cases hside
      | buy =>
        have hclosing : s.closing .buy o.symbol (fillableQuantity o hp s) = 0 := by
          refine if_neg (not_lt.2 ?_)
          rw [Side.sign, one_mul]
          exact h.quantity o.symbol
        rw [State.closeLots, show s.closing .buy (success o hp s uuid).fill.symbol
          (success o hp s uuid).fill.quantity = 0
          from hclosing, State.reduceFifo_of_le Constants.epsilon_pos.le, State.active_recordFill] at hclosed
        exact h.sells u a hclosed

/-- In every state of every run the account keeps the ban. -/
private theorem noShort (hban : hp.allowShortSelling = some false)
    (hcap : hp.fractional = true → ∀ p ∈ hp.fillMaxPctOfVolume, ∀ item ∈ feed, 0 ≤ item.bar.volume * p)
    (hr : Reachable createUuid hp feed c) : NoShort c.engine.state := by
  refine reachable_ledger (J := fun e => NoShort e.state) ?_ ?_ ?_ (executionsMeet_fillable_nonneg hcap) hr
  · refine ⟨fun symbol p h => ?_, fun u a h => ?_⟩
    · cases h
    · cases h
  · intro e e' hs h
    refine ⟨?_, ?_⟩
    · rw [hs.positions]
      exact h.positions
    · rw [show e'.state.activeSellFills = e.state.activeSellFills from hs.active .sell]
      exact h.sells
  · intro e o h hq
    rcases execute_state createUuid hp e o with he | ⟨ha, he⟩
    · rw [he]
      exact h
    · rw [he]
      exact h.updateState hban ha (hq ha)

/-- Short selling banned: in every state of every run no position is negative, no entry of `active_sell_fills_` is
positive, and no exit order in either heap is for a short position.  Where shares are fractional, the share of a bar's
volume that the cap allows is a quantity, so not negative. -/
theorem shortBan (hban : hp.allowShortSelling = some false)
    (hcap : hp.fractional = true → ∀ p ∈ hp.fillMaxPctOfVolume, ∀ item ∈ feed, 0 ≤ item.bar.volume * p)
    (hr : Reachable createUuid hp feed c) :
    (∀ symbol p, c.engine.state.positions.lookup symbol = some p → 0 ≤ p.quantity) ∧
      (∀ u a, c.engine.state.activeSellFills.lookup u = some a → ¬ 0 < a) ∧
      ∀ kind, ∀ x ∈ (c.engine.exitOrderBook.heap kind).toList, x.isShortPosition = false := by
  have h := noShort hban hcap hr
  refine ⟨fun symbol p hp' => (h.positions symbol p hp').2, fun u a ha => not_lt.2 (h.sells u a ha), ?_⟩
  have hmeet : ExecutionsMeet createUuid hp feed c fun e _ => NoShort e.state := by
    refine executionsMeet_of_account (J := fun e => NoShort e.state) (fun e e' hs h => ?_) ?_
    · rw [hs.state]
      exact h
    · exact fun c' hr' => noShort hban hcap hr'
  intro kind x hx
  refine reachable_exitOrders (P := fun _ x => x.isShortPosition = false) ?_ ?_ ?_ hmeet hr kind x
    (List.mem_append_left _ hx)
  · exact fun _ _ _ _ hx => hx
  · exact fun _ _ _ _ hx => hx
  · exact fun e o hs ha => hs.exitOrders hban ha

/-- The ban with fractional shares and a volume cap. -/
def bannedParams : HostParams :=
  { cappedParams with allowFractionalShares := some true, allowShortSelling := some false }

/-- Ten shares bought with a stop loss, and an attempt to sell fifty. -/
def oversoldFeed : List FeedItem :=
  [⟨sampleBar "A" 100 1000 1,
    { instructions := [.order { sampleOrder "A" "buy" 10 with stopLossPrice := 90000000 }] }⟩,
    ⟨sampleBar "A" 100 1000 2, { instructions := [.order (sampleOrder "A" "sell" 50)] }⟩,
    ⟨sampleBar "A" 100 1000 3, { instructions := [.order (sampleOrder "A" "sell" 4)] }⟩,
    ⟨sampleBar "A" 100 1000 4, {}⟩]

/-- The sale of fifty shares is refused, that of four is filled, and the stop loss is for a long position. -/
theorem shortBan_oversold :
    let c := sampleRun bannedParams oversoldFeed 40
    c.engine.state.positionQuantity "A" = 6 ∧ (c.engine.exitOrderBook.heap .stopLoss).toList.length = 1 ∧
      (∀ u a, c.engine.state.activeSellFills.lookup u = some a → ¬ 0 < a) ∧
      ∀ kind, ∀ x ∈ (c.engine.exitOrderBook.heap kind).toList, x.isShortPosition = false := by
  have hcap : ∀ p ∈ bannedParams.fillMaxPctOfVolume, ∀ item ∈ oversoldFeed, 0 ≤ item.bar.volume * p := by
    decide +kernel
  have h := shortBan rfl (fun _ => hcap) (reachable_sampleRun bannedParams oversoldFeed 40)
  exact ⟨by decide +kernel, by decide +kernel, h.2⟩

/-- The ban with fractional shares and a cap of minus a tenth, which `parse_value` accepts. -/
def negativeCapParams : HostParams := { bannedParams with fillMaxPctOfVolume := some (-1 / 10) }

/-- Of ten shares to buy at a volume of a thousand, minus a hundred are filled. -/
theorem negative_cap_sells_short :
    ¬ ∀ (createUuid : ℕ → Uuid) (hp : HostParams) (feed : List FeedItem) (c : Config),
      Function.Injective createUuid → hp.allowShortSelling = some false → Reachable createUuid hp feed c →
      (∀ symbol p, c.engine.state.positions.lookup symbol = some p → 0 ≤ p.quantity) ∧
        (∀ u a, c.engine.state.activeSellFills.lookup u = some a → ¬ 0 < a) ∧
        ∀ kind, ∀ x ∈ (c.engine.exitOrderBook.heap kind).toList, x.isShortPosition = false := by
  intro h
  have hban := (h sampleUuid negativeCapParams (sampleFeed "A" 1000 [(100, "buy", 10), (100, "buy", 10)])
    (sampleRun _ _ 9) sampleUuid_injective rfl (reachable_sampleRun _ _ _)).1
  have hshort : ((sampleRun negativeCapParams (sampleFeed "A" 1000 [(100, "buy", 10), (100, "buy", 10)])
      9).engine.state.positions.lookup "A").map Position.quantity = some (-100) := by
    decide +kernel
  obtain ⟨p, hp, hq⟩ := Option.map_eq_some_iff.1 hshort
  have hnonneg := hban "A" p hp
  rw [hq] at hnonneg
  exact absurd hnonneg (by norm_num)

end BackTestEngine

end QuantForge
