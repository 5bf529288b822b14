import QuantForge.ExitInvariant
import QuantForge.ExitRoom

/-!
# Exit orders and the position they close

An exit order asks for the quantity its lot had when it was triggered.  Nothing compares that quantity with the
position at the time of the execution: the only check is that the source fill still has active shares.  So a remainder
of an exit order that waits in the order book while its lot is closed by others can turn the position around
(`exit_order_flips_position`).  In a run whose executions leave room for the exit orders that they do not reduce, exit
orders only close (`closesOnly_of_leavesRoom`).
-/

namespace QuantForge

namespace BackTestEngine

open Executor

variable {createUuid : ℕ → Uuid} {hp : HostParams} {feed : List FeedItem} {c : Config}

/-- The position keeps its sign or vanishes, and does not grow. -/
def ClosesOnly (before after : ℚ) : Prop := (after = 0 ∨ 0 < before * after) ∧ |after| ≤ |before|

instance (before after : ℚ) : Decidable (ClosesOnly before after) := inferInstanceAs (Decidable (_ ∧ _))

/-- A fill against the position and no larger than it only closes, also with the clamp of `calculate_position`. -/
theorem closesOnly_of_le {d : Side} {Q x : ℚ} (hx : 0 ≤ x) (hle : x ≤ -(d.sign * Q)) :
    ClosesOnly Q (if |Q + d.sign * x| < Constants.epsilon then 0 else Q + d.sign * x) := by
  by_cases hsmall : |Q + d.sign * x| < Constants.epsilon
  · rw [if_pos hsmall]
    exact ⟨Or.inl rfl, by simp⟩
  · have hne : Q + d.sign * x ≠ 0 := by
      intro h0
      rw [h0, abs_zero] at hsmall
      exact hsmall Constants.epsilon_pos
    rw [if_neg hsmall]
    cases d with
    | buy =>
      simp only [Side.sign, one_mul] at hle hne ⊢
      have hafter : Q + x < 0 := lt_of_le_of_ne (by linarith) hne
      refine ⟨Or.inr (mul_pos_of_neg_of_neg (by linarith) hafter), ?_⟩
      rw [abs_of_neg hafter, abs_of_neg (show Q < 0 by linarith)]
      linarith
    | sell =>
      simp only [Side.sign, neg_mul, one_mul, neg_neg] at hle hne ⊢
      have hafter : 0 < Q + -x := lt_of_le_of_ne (by linarith) hne.symm
      refine ⟨Or.inr (mul_pos (by linarith) hafter), ?_⟩
      rw [abs_of_pos hafter, abs_of_pos (show 0 < Q by linarith)]
      linarith

/-- The position against the side `d` covers each of the lots that orders on that side close. -/
def CoversLots (s : State) (d : Side) (symbol : Symbol) : Prop :=
  ∀ l ∈ s.lots d.opposite symbol, l.2 ≤ -(d.sign * s.positionQuantity symbol)

instance (s : State) (d : Side) (symbol : Symbol) : Decidable (CoversLots s d symbol) :=
  inferInstanceAs (Decidable (∀ l ∈ s.lots d.opposite symbol, l.2 ≤ -(d.sign * s.positionQuantity symbol)))

/-- On whole shares it always does. -/
theorem coversLots {s : State} (hstore : s.LotStore) (d : Side) (symbol : Symbol) : CoversLots s d symbol := by
  rintro ⟨f, a⟩ hf
  obtain ⟨hneg, hclosing⟩ := closing_of_lot hstore hf
  rw [State.closing, if_pos hneg, min_eq_left_iff, ← Side.abs_sign_mul d, abs_of_neg hneg] at hclosing
  exact hclosing

/-- Orders with `is_exit_order_` buy or sell: they all come from the exit book. -/
theorem reachable_exit_isOn (hr : Reachable createUuid hp feed c) {o : Order} {e : BackTestEngine}
    (hn : nextExecution c = some (o, e)) (hexit : o.isExitOrder = true) : ∃ d, o.isOn d = true := by
  have h := (reachable_orders (P := fun o => o.isExitOrder = true → o.isBuy = true ∨ o.isSell = true) ?_ ?_ ?_ hr).2
    o e hn hexit
  · exact Order.exists_isOn h
  · exact fun o q h => h
  · intro x _
    cases h : x.isShortPosition <;> simp [ExitOrder.toCloseInstruction, h, Order.isBuy, Order.isSell]
  · intro item _ i _ hp s n j o hj ho hx
    cases i with
    | signal inst =>
      cases hj
      simp only [instructionToOrder] at ho
      split at ho
      · cases ho; cases hx
      · cases ho
    | order inst => cases hj; cases ho; cases hx
    | invalid => cases hj

/-- An exit order with room that is accepted has a lot of at least its size. -/
theorem Room.lot {e : BackTestEngine} {o : Order} (hreg : Registered createUuid e) (h : Room e.state o)
    (hactive : sourceInactive o e.state = false) :
    ∃ l ∈ e.state.lots o.side.opposite o.symbol, o.quantity ≤ l.2 := by
  obtain ⟨f, hf, hu, hsym, hside⟩ := h.source
  have hsome : ∃ d a, (e.state.active d).lookup f.uuid = some a := by
    simp only [sourceInactive, hu, Bool.not_eq_false', Bool.or_eq_true, Option.isSome_iff_exists] at hactive
    exact hactive.elim (fun ⟨a, ha⟩ => ⟨.buy, a, ha⟩) fun ⟨a, ha⟩ => ⟨.sell, a, ha⟩
  obtain ⟨d, a, ha⟩ := hsome
  obtain ⟨g, hg, hgu, hgd⟩ := hreg.keys d f.uuid (Option.isSome_of_eq_some ha)
  obtain rfl : g = f := List.inj_on_of_nodup_map hreg.nodup hg hf hgu
  refine ⟨(g, a), State.mem_lotsIn.2 ⟨hf, hsym, ?_, ?_⟩, h.within g.uuid hu d a ha⟩
  · rw [hside d hgd, Side.opposite_opposite]
    exact hgd
  · rw [hside d hgd, Side.opposite_opposite]
    exact ha

/-- In a run whose executions leave room for the exit orders that they do not reduce, and whose cap allows no negative
quantity, an exit order only closes.  With whole shares and a plugin that buys and sells the position covers the lots;
elsewhere that is asked of the account in which the exit order is executed. -/
theorem closesOnly_of_leavesRoom (hinj : Function.Injective createUuid)
    (hcap : hp.fractional = true → ∀ p ∈ hp.fillMaxPctOfVolume, ∀ item ∈ feed, 0 ≤ item.bar.volume * p)
    (hroom : ∀ c', Reachable createUuid hp feed c' → StateTransition.Reaches₁ (step createUuid hp) c' c →
      LeavesRoom createUuid hp c')
    (hr : Reachable createUuid hp feed c) {o : Order} {e : BackTestEngine} (hn : nextExecution c = some (o, e))
    (hexit : o.isExitOrder = true)
    (hcovers : hp.fractional = false ∧ OnlyBuySell feed ∨ CoversLots e.state o.side o.symbol) :
    ClosesOnly (e.state.positionQuantity o.symbol)
      ((execute createUuid hp e o).state.positionQuantity o.symbol) := by
  have hsame := nextExecution_sameAccount hn
  have hreg := (registered hinj hr).sameLedger hsame.sameLedger
  obtain ⟨d, hd⟩ := reachable_exit_isOn hr hn hexit
  rcases execute_cases createUuid hp e o with he | ha
  · rw [he]
    unfold ClosesOnly
    rcases eq_or_ne (e.state.positionQuantity o.symbol) 0 with h0 | h0
    · exact ⟨Or.inl h0, le_refl _⟩
    · exact ⟨Or.inr (mul_self_pos.2 h0), le_refl _⟩
  have hlots : CoversLots e.state d o.symbol := by
    rcases hcovers with ⟨hw, hfeed⟩ | hcovers
    · rw [hsame.state]
      exact coversLots (lotStore hinj hw hfeed hr) d o.symbol
    · rwa [Order.side_of_isOn hd] at hcovers
  -- the fill is within the order, the order within its lot, and the lot within the position
  obtain ⟨l, hl, hle⟩ :=
    (((hasRoom hinj hcap hroom hr).served hr hn hexit).sameLedger hsame.sameLedger).lot hreg (ha.source hexit)
  rw [Order.side_of_isOn hd] at hl
  have hfill : fillableQuantity o hp e.state ≤ -(d.sign * e.state.positionQuantity o.symbol) :=
    calc fillableQuantity o hp e.state ≤ orderedQuantity o hp := fillableQuantity_le_ordered
      _ ≤ o.quantity := orderedQuantity_le o hp
      _ ≤ l.2 := hle
      _ ≤ _ := hlots l hl
  have hq0 : 0 ≤ fillableQuantity o hp e.state := by
    refine ha.fillableQuantity_nonneg fun hf p hp' => ?_
    rw [hsame.state]
    exact volume_mul_nonneg (hcap hf p hp') hr o.symbol
  have hafter : (execute createUuid hp e o).state.positionQuantity o.symbol =
      if |e.state.positionQuantity o.symbol + d.sign * fillableQuantity o hp e.state| < Constants.epsilon then 0
      else e.state.positionQuantity o.symbol + d.sign * fillableQuantity o hp e.state := by
    rw [execute_accepted ha]
    show (e.state.updateState (success o hp e.state (createUuid e.uuidCount))).positionQuantity o.symbol = _
    rw [State.updateState_positionQuantity (r := success o hp e.state (createUuid e.uuidCount))
      (PositionCalc.calculatePosition_symbol (fun p hp => (hreg.positions _ p hp).1) _ _),
      ← PositionCalc.calculatePosition_quantity hd _ (calculateFillPrice o e.state)]
    exact if_pos rfl
  rw [hafter]
  exact closesOnly_of_le hq0 hfill

/-- A hundred shares with a stop loss that a bar with little volume triggers, and twenty shares bought behind them. -/
def stopInPartsFeed : List FeedItem :=
  [⟨sampleBar "A" 100 1000 1,
    { instructions := [.order { sampleOrder "A" "buy" 100 with stopLossPrice := 90000000 }] }⟩,
    ⟨sampleBar "A" 100 1000 2, { instructions := [.order (sampleOrder "A" "buy" 20)] }⟩,
    ⟨{ sampleBar "A" 100 100 3 with low := 85 }, {}⟩,
    ⟨sampleBar "A" 100 500 4, {}⟩]

/-- The stop loss is filled in three parts, and the last of them closes forty of sixty shares. -/
theorem closesOnly_of_leavesRoom_stop_in_parts :
    ∃ o e, nextExecution (sampleRun cappedParams stopInPartsFeed 28) = some (o, e) ∧ o.quantity = 40 ∧
      e.state.positionQuantity o.symbol = 60 ∧ ClosesOnly (e.state.positionQuantity o.symbol)
        ((execute sampleUuid cappedParams e o).state.positionQuantity o.symbol) := by
  have hend : step sampleUuid cappedParams (sampleRun cappedParams stopInPartsFeed 40) = none :=
    Option.isNone_iff_eq_none.1 (by decide +kernel)
  have hsome : (nextExecution (sampleRun cappedParams stopInPartsFeed 28)).isSome = true := by decide +kernel
  have hexit : ∀ p ∈ nextExecution (sampleRun cappedParams stopInPartsFeed 28), p.1.isExitOrder = true ∧
      p.1.quantity = 40 ∧ p.2.state.positionQuantity p.1.symbol = 60 := by decide +kernel
  have hroom := forall_before_sampleRun (P := LeavesRoom sampleUuid cappedParams) (m := 28) (by decide) hend
    (by decide +kernel)
  have hr := reachable_sampleRun cappedParams stopInPartsFeed 28
  generalize sampleRun cappedParams stopInPartsFeed 28 = c at hsome hexit hroom hr
  obtain ⟨⟨o, e⟩, hn⟩ := Option.isSome_iff_exists.1 hsome
  obtain ⟨hx, hq, hQ⟩ := hexit (o, e) hn
  exact ⟨o, e, hn, hq, hQ, closesOnly_of_leavesRoom sampleUuid_injective (by decide) hroom hr hn hx
    (Or.inl ⟨rfl, by decide +kernel⟩)⟩

/-- A hundred shares with a stop loss and a take profit that one wide bar with little volume triggers both. -/
def bothExitsFeed : List FeedItem :=
  [⟨sampleBar "A" 100 1000 1, { instructions := [.order { sampleOrder "A" "buy" 100 with
      stopLossPrice := 90000000, takeProfitPrice := 110000000 }] }⟩,
    ⟨sampleBar "A" 100 1000 2, {}⟩,
    ⟨{ sampleBar "A" 100 100 3 with high := 115, low := 85 }, {}⟩,
    ⟨sampleBar "A" 100 1000 4, {}⟩]

/-- Both exits are partly filled on the third bar, and their remainders of 90 and 80 shares meet a position of 80: the
first one turns it into a short position. -/
theorem exit_order_flips_position :
    ¬ ∀ (createUuid : ℕ → Uuid) (hp : HostParams) (feed : List FeedItem) (c : Config) (o : Order)
    (e : BackTestEngine),
      Function.Injective createUuid → Reachable createUuid hp feed c → nextExecution c = some (o, e) →
      o.isExitOrder = true →
      ClosesOnly (e.state.positionQuantity o.symbol)
        ((execute createUuid hp e o).state.positionQuantity o.symbol) := by
  intro h
  have hsome : (nextExecution (sampleRun cappedParams bothExitsFeed 27)).isSome = true := by decide +kernel
  have hflips : ∀ p ∈ nextExecution (sampleRun cappedParams bothExitsFeed 27), p.1.isExitOrder = true ∧
      ¬ ClosesOnly (p.2.state.positionQuantity p.1.symbol)
        ((execute sampleUuid cappedParams p.2 p.1).state.positionQuantity p.1.symbol) := by
    decide +kernel
  have hr := reachable_sampleRun cappedParams bothExitsFeed 27
  generalize sampleRun cappedParams bothExitsFeed 27 = c at hsome hflips hr
  obtain ⟨⟨o, e⟩, hn⟩ := Option.isSome_iff_exists.1 hsome
  obtain ⟨hexit, hflip⟩ := hflips (o, e) hn
  exact hflip (h sampleUuid cappedParams bothExitsFeed c o e sampleUuid_injective hr hn hexit)

end BackTestEngine

end QuantForge
