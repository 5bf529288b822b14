import QuantForge.Lookahead

/-!
# The volume cap

`fill_max_pct_of_volume_` bounds each execution by a share of the bar's volume, but not the executions of a bar
together: the remainder of an order goes back into the loop that is running, and other orders of the symbol have the
cap to themselves.  The cap is kept on every bar as long as each order executed is the first of its symbol on the bar,
or orders no more than earlier ones have left of the cap (`volumeKept_of_fitsVolume`).
-/

namespace QuantForge

/-- The shares of a symbol in a list of fills. -/
def filledOf (symbol : Symbol) (fills : List Fill) : ℚ :=
  ((fills.filter fun f => f.symbol = symbol).map Fill.quantity).sum

theorem filledOf_append (symbol : Symbol) (fills : List Fill) (f : Fill) :
    filledOf symbol (fills ++ [f]) = filledOf symbol fills + if f.symbol = symbol then f.quantity else 0 := by
  unfold filledOf
  rw [List.filter_append, List.map_append, List.sum_append]
  by_cases h : f.symbol = symbol <;> simp [h]

namespace Executor

variable {o : Order} {hp : HostParams} {s : State} {p : ℚ}

/-- One execution is within the cap. -/
theorem fillableQuantity_le_cap (hcap : hp.fillMaxPctOfVolume = some p) :
    fillableQuantity o hp s ≤ s.getSymbolVolume o.symbol * p := by
  have hmax : (getFillableAndRemainingQuantities o hp s).1 ≤ s.getSymbolVolume o.symbol * p := by
    unfold getFillableAndRemainingQuantities
    rw [hcap]
    dsimp only
    split
    · exact le_refl _
    · rename_i h
      exact not_lt.1 h
  unfold fillableQuantity
  split
  · exact hmax
  · exact (Int.floor_le _).trans hmax

end Executor

namespace BackTestEngine

open Executor

variable {createUuid : ℕ → Uuid} {hp : HostParams} {feed : List FeedItem} {c : Config} {p : ℚ}

/-- Of the symbol of the current bar, no more has been filled on this bar than the share `p` of its volume. -/
def VolumeKept (p : ℚ) (e : BackTestEngine) : Prop :=
  ∀ bar ∈ e.processed.getLast?, filledOf bar.symbol e.state.newFills ≤ bar.volume * p

instance (p : ℚ) (e : BackTestEngine) : Decidable (VolumeKept p e) :=
  inferInstanceAs (Decidable (∀ bar ∈ e.processed.getLast?, filledOf bar.symbol e.state.newFills ≤ bar.volume * p))

/-- If the order is for the symbol of the current bar, nothing of it has been filled on this bar, or the order asks
for no more than is left of the cap. -/
def FitsVolume (hp : HostParams) (p : ℚ) (e : BackTestEngine) (o : Order) : Prop :=
  ∀ bar ∈ e.processed.getLast?, bar.symbol = o.symbol →
    filledOf o.symbol e.state.newFills = 0 ∨
      orderedQuantity o hp ≤ bar.volume * p - filledOf o.symbol e.state.newFills

instance (hp : HostParams) (p : ℚ) (e : BackTestEngine) (o : Order) : Decidable (FitsVolume hp p e o) :=
  inferInstanceAs (Decidable (∀ bar ∈ e.processed.getLast?, bar.symbol = o.symbol →
    filledOf o.symbol e.state.newFills = 0 ∨
      orderedQuantity o hp ≤ bar.volume * p - filledOf o.symbol e.state.newFills))

/-- On a bar of the order's symbol, an execution is within the share of the bar's volume. -/
private theorem fillableQuantity_le_bar {e : BackTestEngine} {o : Order} (hm : MarketData e)
    (hcap : hp.fillMaxPctOfVolume = some p) (hp0 : 0 ≤ p) {bar : AggregateBarResult}
    (hbar : e.processed.getLast? = some bar) (hs : bar.symbol = o.symbol) (hv : 0 ≤ bar.volume) :
    fillableQuantity o hp e.state ≤ bar.volume * p := by
  have hlast : lastBarOf o.symbol e.processed = some (bar, e.processed.length - 1) := by
    obtain ⟨l, hl⟩ := List.getLast?_eq_some_iff.1 hbar
    rw [hl, lastBarOf_append, if_pos hs]
    simp
  have hvol : e.state.getSymbolVolume o.symbol = ⌊bar.volume⌋ := by
    rw [State.getSymbolVolume, hm.volumes, hlast]
    simp [Rounding.truncZero, hv]
  refine (fillableQuantity_le_cap hcap).trans ?_
  rw [hvol]
  exact mul_le_mul_of_nonneg_right (Int.floor_le _) hp0

/-- An execution that is the first of its symbol on the bar, or of an order that still fits, keeps the cap. -/
private theorem volumeKept_update {e : BackTestEngine} {o : Order}
    (hcap : hp.fillMaxPctOfVolume = some p) (hp0 : 0 ≤ p)
    (hm : MarketData e) (hnn : ∀ bar ∈ e.processed, 0 ≤ bar.volume) (h : VolumeKept p e)
    (hfits : Accepted o hp e.state (createUuid e.uuidCount) → FitsVolume hp p e o) :
    VolumeKept p (execute createUuid hp e o) ∧ ∀ bar ∈ (execute createUuid hp e o).processed, 0 ≤ bar.volume := by
  rcases execute_cases createUuid hp e o with he | ha
  · rw [he]
    exact ⟨h, hnn⟩
  rw [execute_accepted ha]
  refine ⟨fun bar hbar => ?_, hnn⟩
  show filledOf bar.symbol (e.state.updateState (success o hp e.state (createUuid e.uuidCount))).newFills ≤ _
  rw [(State.updateState_booking rfl).newFills, filledOf_append]
  change _ + (if o.symbol = bar.symbol then fillableQuantity o hp e.state else 0) ≤ _
  by_cases hs : o.symbol = bar.symbol
  · rw [if_pos hs]
    rcases hfits ha bar hbar hs.symm with hzero | hle
    · rw [← hs, hzero, zero_add]
      exact fillableQuantity_le_bar hm hcap hp0 hbar hs.symm (hnn bar (List.mem_of_getLast? hbar))
    · have hordered : fillableQuantity o hp e.state ≤ orderedQuantity o hp := fillableQuantity_le_ordered
      rw [← hs]
      linarith
  · rw [if_neg hs, add_zero]
    exact h bar hbar

/-- In every run with a cap in which each order executed is the first of its symbol on a bar or asks for no more than
is left, the cap is kept on every bar. -/
theorem volumeKept_of_fitsVolume (hcap : hp.fillMaxPctOfVolume = some p) (hp0 : 0 ≤ p)
    (hvol : ∀ item ∈ feed, 0 ≤ item.bar.volume)
    (hG : ExecutionsMeet createUuid hp feed c fun e o =>
      Accepted o hp e.state (createUuid e.uuidCount) → FitsVolume hp p e o)
    (hr : Reachable createUuid hp feed c) : VolumeKept p c.engine := by
  have key : VolumeKept p c.engine ∧ ∀ bar ∈ c.engine.processed, 0 ≤ bar.volume := by
    refine reachable_account (J := fun e => VolumeKept p e ∧ ∀ bar ∈ e.processed, 0 ≤ bar.volume) ?_ ?_ ?_ ?_ ?_
      (hG.and executionsMeet_marketData) hr
    · exact ⟨fun bar hbar => (by cases hbar), fun bar hbar => (by cases hbar)⟩
    · rintro e e' hs ⟨h, hnn⟩
      unfold VolumeKept
      rw [hs.state, hs.processed]
      exact ⟨h, hnn⟩
    · rintro e item hitem hnil ⟨-, hnn⟩
      refine ⟨fun bar hbar => ?_, fun bar hbar => ?_⟩
      · have : bar = item.bar := by simpa [prepareNextBar] using hbar.symm
        rw [this]
        show filledOf item.bar.symbol e.state.newFills ≤ _
        rw [hnil]
        exact mul_nonneg (hvol item hitem) hp0
      · rcases List.mem_append.1 hbar with hbar | hbar
        · exact hnn bar hbar
        · rw [List.mem_singleton.1 hbar]
          exact hvol item hitem
    · rintro e ⟨-, hnn⟩
      obtain ⟨curve, peak, drawdown, hf⟩ := finishBar_frame e hp
      rw [hf]
      refine ⟨fun bar hbar => ?_, hnn⟩
      exact mul_nonneg (hnn bar (List.mem_of_getLast? hbar)) hp0
    · rintro e o ⟨h, hnn⟩ ⟨hfits, hm⟩
      exact volumeKept_update hcap hp0 hm hnn h hfits
  exact key.1

/-- Bars whose volume allows ten shares each: three orders for one of them and a fourth for the next. -/
def threeFillsFeed : List FeedItem :=
  [⟨sampleBar "A" 100 100 1, { instructions :=
      [.order (sampleOrder "A" "buy" 4), .order (sampleOrder "A" "buy" 3), .order (sampleOrder "A" "sell" 3)] }⟩,
    ⟨sampleBar "A" 110 100 2, { instructions := [.order (sampleOrder "A" "sell" 4)] }⟩,
    ⟨sampleBar "A" 120 100 3, {}⟩]

/-- The three orders take up what is allowed of their bar. -/
theorem volumeKept_of_fitsVolume_three_orders :
    let c := sampleRun cappedParams threeFillsFeed 11
    c.engine.state.newFills.map Fill.quantity = [4, 3, 3] ∧ VolumeKept (1 / 10) c.engine := by
  refine ⟨by decide +kernel, ?_⟩
  refine volumeKept_of_fitsVolume rfl (by norm_num) (by decide +kernel) ?_
    (reachable_sampleRun _ _ _)
  refine (executionsMeet_sampleRun (n := 40) (G := FitsVolume cappedParams (1 / 10)) (by norm_num)
    (Option.isNone_iff_eq_none.1 (by decide +kernel)) (by decide +kernel)).mono ?_
  exact fun _ _ _ _ _ h _ => h

/-- Thirty shares ordered at once: they are filled on one bar in three executions of ten. -/
theorem volume_not_kept_by_remainders :
    ¬ ∀ (createUuid : ℕ → Uuid) (hp : HostParams) (feed : List FeedItem) (c : Config) (p : ℚ),
      Function.Injective createUuid → hp.fillMaxPctOfVolume = some p → 0 ≤ p → p ≤ 1 →
      (∀ item ∈ feed, 0 ≤ item.bar.volume) → Reachable createUuid hp feed c → VolumeKept p c.engine := by
  intro h
  have hk := h sampleUuid cappedParams
    (sampleFeed "A" 100 [(100, "buy", 30), (100, "buy", 0)]) (sampleRun _ _ 10) (1 / 10) sampleUuid_injective rfl
    (by norm_num) (by norm_num) (by decide +kernel) (reachable_sampleRun _ _ _)
  revert hk
  decide +kernel

end BackTestEngine

end QuantForge
