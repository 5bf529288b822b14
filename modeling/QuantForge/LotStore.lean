import QuantForge.Registry

/-!
# The lot store

In whole-share runs that only buy and sell, the lots of a symbol are what is left of its fills in a FIFO queue with
one side, and the position is their signed sum (`lotStore`).  In any whole-share run lots and positions are whole
numbers of shares (`wholeShares`).
-/

namespace QuantForge

/-! ### The reference queue -/

/-- The fills of a symbol, replayed in order through a FIFO queue with a side. -/
def replay (symbol : Symbol) (fills : List Fill) : Fifo.Queue Side Fill ℚ :=
  (fills.filter fun f => f.symbol = symbol).foldl (fun q f => q.push f.side f f.quantity) ⟨.buy, []⟩

private theorem replay_append_of_ne {symbol : Symbol} {f : Fill} (h : f.symbol ≠ symbol) (fills : List Fill) :
    replay symbol (fills ++ [f]) = replay symbol fills := by
  simp [replay, h]

private theorem replay_append_self (f : Fill) (fills : List Fill) :
    replay f.symbol (fills ++ [f]) = (replay f.symbol fills).push f.side f f.quantity := by
  simp [replay]

namespace State

/-- In whole-share runs that only buy and sell: the lots are the reference queue, and the position is their signed
sum. -/
structure LotStore (s : State) : Prop where
  refines : ∀ symbol d, s.lots d symbol = (replay symbol s.fills).on d
  whole : ∀ symbol d, ∀ l ∈ s.lots d symbol, IsWhole l.2 ∧ 0 < l.2
  quantity : ∀ symbol,
    s.positionQuantity symbol = Fifo.total (s.lots .buy symbol) - Fifo.total (s.lots .sell symbol)

namespace LotStore

variable {s : State} (h : s.LotStore)

include h

theorem oneSided (symbol : Symbol) (d : Side) : s.lots d symbol = [] ∨ s.lots d.opposite symbol = [] := by
  rw [h.refines, h.refines, Fifo.Queue.on, Fifo.Queue.on]
  by_cases hd : (replay symbol s.fills).side = d
  · exact Or.inr (if_neg (hd ▸ d.ne_opposite))
  · exact Or.inl (if_neg hd)

theorem signed (symbol : Symbol) (d : Side) :
    d.sign * s.positionQuantity symbol = Fifo.total (s.lots d symbol) - Fifo.total (s.lots d.opposite symbol) := by
  rw [h.quantity]
  cases d <;> simp only [Side.sign, Side.opposite] <;> ring

theorem total_nonneg (symbol : Symbol) (d : Side) : 0 ≤ Fifo.total (s.lots d symbol) :=
  Fifo.total_nonneg fun l hl => (h.whole symbol d l hl).2.le

/-- A symbol that is not held on the other side has no lots there. -/
theorem opposite_nil {symbol : Symbol} {d : Side} (hQ : 0 ≤ d.sign * s.positionQuantity symbol) :
    s.lots d.opposite symbol = [] := by
  have hsigned := h.signed symbol d
  rcases h.oneSided symbol d with h' | h'
  · by_contra hne
    rw [h', Fifo.total_nil, zero_sub] at hsigned
    have := Fifo.total_pos (fun l hl => (h.whole symbol d.opposite l hl).2) hne
    linarith
  · exact h'

/-- A symbol held on the other side has all its lots there. -/
theorem same_nil {symbol : Symbol} {d : Side} (hneg : d.sign * s.positionQuantity symbol < 0) :
    s.lots d symbol = [] ∧ |s.positionQuantity symbol| = Fifo.total (s.lots d.opposite symbol) := by
  have hsigned := h.signed symbol d
  have hsame : s.lots d symbol = [] := by
    rcases h.oneSided symbol d with h' | h'
    · exact h'
    · rw [h', Fifo.total_nil, sub_zero] at hsigned
      exact absurd (h.total_nonneg symbol d) (not_le.2 (hsigned ▸ hneg))
  refine ⟨hsame, ?_⟩
  rw [← d.abs_sign_mul, abs_of_neg hneg, hsigned, hsame, Fifo.total_nil]
  ring

theorem isWhole_total (symbol : Symbol) (d : Side) : IsWhole (Fifo.total (s.lots d symbol)) := by
  have hw := h.whole symbol d
  generalize s.lots d symbol = l at hw
  induction l with
  | nil => exact IsWhole.zero
  | cons x l ih =>
    rw [Fifo.total_cons]
    exact (hw x (by simp)).1.add (ih fun y hy => hw y (by simp [hy]))

theorem isWhole_quantity (symbol : Symbol) : IsWhole (s.positionQuantity symbol) := by
  rw [h.quantity]
  exact (h.isWhole_total symbol _).sub (h.isWhole_total symbol _)

theorem isWhole_closing (d : Side) (symbol : Symbol) {q : ℚ} (hq : IsWhole q) : IsWhole (s.closing d symbol q) := by
  unfold closing
  split
  · exact hq.min (h.isWhole_quantity symbol).abs
  · exact IsWhole.zero

/-- No more is closed than the lots hold. -/
theorem closing_le_total (d : Side) (symbol : Symbol) (q : ℚ) :
    s.closing d symbol q ≤ Fifo.total (s.lots d.opposite symbol) := by
  have hs := h.signed symbol d
  have h1 := h.total_nonneg symbol d
  unfold closing
  split
  · rename_i hneg
    refine (min_le_right _ _).trans ?_
    rw [← d.abs_sign_mul, abs_of_neg hneg]
    linarith
  · exact h.total_nonneg symbol d.opposite

/-- Every amount closed is a positive whole number of shares of a whole lot. -/
theorem taken_spec (d : Side) (symbol : Symbol) {x : ℚ} (hx : IsWhole x) :
    ∀ t ∈ s.taken d symbol x, IsWhole t.2.1 ∧ IsWhole t.2.2 ∧ 0 < t.2.2 ∧ t.2.2 ≤ t.2.1 :=
  Fifo.takes_spec (fun _ _ => IsWhole.sub) Constants.epsilon_pos.le (h.whole symbol d) hx

/-- The lots touched add up to what is closed. -/
theorem taken_total (d : Side) (symbol : Symbol) {x : ℚ} (hx : IsWhole x) (hx0 : 0 ≤ x)
    (hle : x ≤ Fifo.total (s.lots d symbol)) : ((s.taken d symbol x).map fun t => t.2.2).sum = x :=
  Fifo.takes_total (fun _ _ => IsWhole.sub) (fun _ => IsWhole.nonpos_of_le_epsilon) (h.whole symbol d) hx hx0 hle

end LotStore

section Update

variable {s : State} {r : ExecutionResultSuccess} {d : Side}

private theorem drop_whole {lots : List (Fill × ℚ)} (h : ∀ l ∈ lots, IsWhole l.2 ∧ 0 < l.2) {x : ℚ} (hx : IsWhole x)
    (hx0 : 0 ≤ x) : Fifo.drop Constants.epsilon lots x = (Fifo.consume lots x).1 :=
  Fifo.drop_eq_consume (fun _ _ => IsWhole.sub) (fun _ => IsWhole.nonpos_of_le_epsilon)
    Constants.epsilon_pos.le h hx hx0

/-- The queue of the fill's symbol after an execution is the reference queue with the fill pushed. -/
private structure Pushed (s : State) (r : ExecutionResultSuccess) (d : Side) : Prop where
  refines : ∀ d', (s.updateState r).lots d' r.fill.symbol =
    ((replay r.fill.symbol s.fills).push d r.fill r.fill.quantity).on d'
  whole : ∀ d', ∀ l ∈ (s.updateState r).lots d' r.fill.symbol, IsWhole l.2 ∧ 0 < l.2
  quantity : Fifo.total ((s.updateState r).lots d r.fill.symbol) -
      Fifo.total ((s.updateState r).lots d.opposite r.fill.symbol) =
    d.sign * s.positionQuantity r.fill.symbol + r.fill.quantity

private theorem Pushed.of_queue {q : Fifo.Queue Side Fill ℚ}
    (hpush : (replay r.fill.symbol s.fills).push d r.fill r.fill.quantity = q)
    (hsame : (s.updateState r).lots d r.fill.symbol = q.on d)
    (hopposite : (s.updateState r).lots d.opposite r.fill.symbol = q.on d.opposite)
    (hw : ∀ l ∈ q.lots, IsWhole l.2 ∧ 0 < l.2)
    (htotal : Fifo.total (q.on d) - Fifo.total (q.on d.opposite) =
      d.sign * s.positionQuantity r.fill.symbol + r.fill.quantity) : Pushed s r d := by
  have hon : ∀ d', (s.updateState r).lots d' r.fill.symbol = q.on d' := by
    intro d'
    rcases Side.eq_or_eq_opposite d d' with rfl | rfl
    · exact hsame
    · exact hopposite
  refine ⟨fun d' => ?_, fun d' l hl => ?_, ?_⟩
  · rw [hpush]
    exact hon d'
  · rw [hon, Fifo.Queue.on] at hl
    split at hl
    · exact hw l hl
    · cases hl
  · rw [hsame, hopposite]
    exact htotal

/-- Lots on the other side are the reference queue. -/
private theorem replay_of_opposite (h : s.LotStore) {symbol : Symbol} (hne : s.lots d.opposite symbol ≠ []) :
    (replay symbol s.fills).side = d.opposite ∧ (replay symbol s.fills).lots = s.lots d.opposite symbol := by
  rw [h.refines, Fifo.Queue.on] at hne ⊢
  by_cases hside : (replay symbol s.fills).side = d.opposite
  · exact ⟨hside, (if_pos hside).symm⟩
  · exact absurd (if_neg hside) hne

section Push

variable (h : s.LotStore) (hd : r.fill.isOn d = true) (hnd : (s.fills.map Fill.uuid).Nodup)
  (hfresh : r.fill.uuid ∉ s.fills.map Fill.uuid) (hkeys : (s.active d).lookup r.fill.uuid = none)
  (hq : IsWhole r.fill.quantity) (hq1 : 1 ≤ r.fill.quantity)

include h hd hnd hfresh hkeys hq hq1

private theorem pushed_opens (hQ : 0 ≤ d.sign * s.positionQuantity r.fill.symbol)
    (hc : s.closing d r.fill.symbol r.fill.quantity = 0)
    (ho : s.opened d r.fill.symbol r.fill.quantity = some r.fill.quantity) : Pushed s r d := by
  have hopp := h.opposite_nil hQ
  have hpush : (replay r.fill.symbol s.fills).push d r.fill r.fill.quantity =
      ⟨d, s.lots d r.fill.symbol ++ [(r.fill, r.fill.quantity)]⟩ := by
    rw [h.refines, Fifo.Queue.push_same]
    rw [h.refines, Fifo.Queue.on] at hopp
    by_cases hside : (replay r.fill.symbol s.fills).side = d.opposite
    · exact Or.inr (by simpa [hside] using hopp)
    · exact Or.inl ((Side.eq_or_eq_opposite d _).resolve_right hside)
  -- the lots of the two sides, that they are whole, and their total
  refine .of_queue hpush ?_ ?_ ?_ ?_
  · rw [updateState_lots_same hd hfresh hkeys, if_pos rfl, ho]
    simp [Fifo.Queue.on]
  · rw [updateState_lots_opposite (Fill.side_of_isOn hd) hnd hfresh, if_pos rfl, hopp, hc]
    simp [Fifo.Queue.on, d.ne_opposite, Fifo.drop]
  · intro l hl
    rcases List.mem_append.1 hl with hl | hl
    · exact h.whole r.fill.symbol d l hl
    · rw [List.mem_singleton.1 hl]
      exact ⟨hq, lt_of_lt_of_le one_pos hq1⟩
  · rw [h.signed, hopp]
    simp [Fifo.Queue.on, d.ne_opposite]

private theorem pushed_reduces (hneg : d.sign * s.positionQuantity r.fill.symbol < 0)
    (hle : r.fill.quantity ≤ |s.positionQuantity r.fill.symbol|)
    (hc : s.closing d r.fill.symbol r.fill.quantity = r.fill.quantity)
    (ho : s.opened d r.fill.symbol r.fill.quantity = none) : Pushed s r d := by
  have hq0 : 0 ≤ r.fill.quantity := zero_le_one.trans hq1
  have hw := h.whole r.fill.symbol d.opposite
  obtain ⟨hnil, hQ⟩ := h.same_nil hneg
  rw [hQ] at hle
  have hne : s.lots d.opposite r.fill.symbol ≠ [] := by
    intro he
    rw [he, Fifo.total_nil] at hle
    linarith
  obtain ⟨hside, hlots⟩ := replay_of_opposite h hne
  have hside' : (replay r.fill.symbol s.fills).side ≠ d := by rw [hside]; exact d.ne_opposite.symm
  have hspec := Fifo.consume_spec (fun l hl => (hw l hl).2) hq0
  have hpush : (replay r.fill.symbol s.fills).push d r.fill r.fill.quantity =
      ⟨d.opposite, (Fifo.consume (s.lots d.opposite r.fill.symbol) r.fill.quantity).1⟩ := by
    -- the reference queue keeps its side also when nothing is left in it
    rcases lt_or_eq_of_le hle with hlt | heq
    · rw [Fifo.Queue.push_lt hside' (by rw [hlots]; exact fun l hl => (hw l hl).2) r.fill hq0
        (by rw [hlots]; exact hlt), hside, hlots]
    · rw [Fifo.Queue.push_ge hside' (by rw [hlots]; exact hne) (by rw [hlots]; exact fun l hl => (hw l hl).2) r.fill
        (by rw [hlots, heq]), hlots, if_pos heq, (hspec.2 heq.ge).1, hside]
  refine .of_queue hpush ?_ ?_ ?_ ?_
  · rw [updateState_lots_same hd hfresh hkeys, if_pos rfl, hnil, ho]
    simp [Fifo.Queue.on, d.ne_opposite.symm]
  · rw [updateState_lots_opposite (Fill.side_of_isOn hd) hnd hfresh, if_pos rfl, hc, drop_whole hw hq hq0]
    simp [Fifo.Queue.on]
  · exact fun l hl => ⟨Fifo.consume_mem (fun _ _ => IsWhole.sub) (fun l hl => (hw l hl).1) hq l hl,
      Fifo.consume_pos (fun l hl => (hw l hl).2) l hl⟩
  · rw [h.signed, hnil]
    simp only [Fifo.Queue.on, d.ne_opposite.symm, if_true, if_false, Fifo.total_nil]
    rcases lt_or_eq_of_le hle with hlt | heq
    · rw [(hspec.1 hlt).2]
      ring
    · rw [(hspec.2 heq.ge).1, heq, Fifo.total_nil]
      ring

omit hq1 in
private theorem pushed_crosses (hneg : d.sign * s.positionQuantity r.fill.symbol < 0)
    (hlt : |s.positionQuantity r.fill.symbol| < r.fill.quantity)
    (hc : s.closing d r.fill.symbol r.fill.quantity = |s.positionQuantity r.fill.symbol|)
    (ho : s.opened d r.fill.symbol r.fill.quantity = some (r.fill.quantity - |s.positionQuantity r.fill.symbol|)) :
    Pushed s r d := by
  have hw := h.whole r.fill.symbol d.opposite
  have htot := h.total_nonneg r.fill.symbol d.opposite
  have htw := h.isWhole_total r.fill.symbol d.opposite
  obtain ⟨hnil, hQ⟩ := h.same_nil hneg
  have hne : s.lots d.opposite r.fill.symbol ≠ [] := by
    intro he
    rw [he, Fifo.total_nil, abs_eq_zero] at hQ
    rw [hQ, mul_zero] at hneg
    exact lt_irrefl _ hneg
  rw [hQ] at hlt hc ho
  obtain ⟨hside, hlots⟩ := replay_of_opposite h hne
  have hside' : (replay r.fill.symbol s.fills).side ≠ d := by rw [hside]; exact d.ne_opposite.symm
  have hpush : (replay r.fill.symbol s.fills).push d r.fill r.fill.quantity =
      ⟨d, [(r.fill, r.fill.quantity - Fifo.total (s.lots d.opposite r.fill.symbol))]⟩ := by
    rw [Fifo.Queue.push_ge hside' (by rw [hlots]; exact hne) (by rw [hlots]; exact fun l hl => (hw l hl).2) r.fill
      (by rw [hlots]; exact hlt.le), hlots, if_neg hlt.ne']
  refine .of_queue hpush ?_ ?_ ?_ ?_
  · rw [updateState_lots_same hd hfresh hkeys, if_pos rfl, hnil, ho]
    simp [Fifo.Queue.on]
  · rw [updateState_lots_opposite (Fill.side_of_isOn hd) hnd hfresh, if_pos rfl, hc, drop_whole hw htw htot,
      ((Fifo.consume_spec (fun l hl => (hw l hl).2) htot).2 le_rfl).1]
    simp [Fifo.Queue.on, d.ne_opposite]
  · intro l hl
    rw [List.mem_singleton.1 hl]
    exact ⟨hq.sub htw, sub_pos.2 hlt⟩
  · rw [h.signed, hnil]
    simp only [Fifo.Queue.on, d.ne_opposite, if_true, if_false, Fifo.total_nil, Fifo.total_cons]
    ring

private theorem pushed : Pushed s r d := by
  cases s.tradeCase d (h.isWhole_quantity r.fill.symbol) hq with
  | opens hQ hc ho => exact pushed_opens h hd hnd hfresh hkeys hq hq1 hQ hc ho
  | reduces hneg hle hc ho => exact pushed_reduces h hd hnd hfresh hkeys hq hq1 hneg hle hc ho
  | crosses hneg hlt hc ho => exact pushed_crosses h hd hnd hfresh hkeys hq hneg hlt hc ho

end Push

private theorem lots_of_ne (hd : r.fill.isOn d = true) (hnd : (s.fills.map Fill.uuid).Nodup)
    (hfresh : r.fill.uuid ∉ s.fills.map Fill.uuid) (hkeys : (s.active d).lookup r.fill.uuid = none) {symbol : Symbol}
    (hs : symbol ≠ r.fill.symbol) (d' : Side) : (s.updateState r).lots d' symbol = s.lots d' symbol := by
  rcases Side.eq_or_eq_opposite d d' with rfl | rfl
  · rw [updateState_lots_same hd hfresh hkeys, if_neg hs, List.append_nil]
  · rw [updateState_lots_opposite (Fill.side_of_isOn hd) hnd hfresh, if_neg hs]

/-- An execution on whole shares keeps the lot store. -/
theorem LotStore.updateState (h : s.LotStore) (hd : r.fill.isOn d = true) (hnd : (s.fills.map Fill.uuid).Nodup)
    (hfresh : r.fill.uuid ∉ s.fills.map Fill.uuid) (hkeys : (s.active d).lookup r.fill.uuid = none)
    (hq : IsWhole r.fill.quantity) (hq1 : 1 ≤ r.fill.quantity) (hsym : r.position.symbol = r.fill.symbol)
    (hpos : r.position.quantity = s.positionQuantity r.fill.symbol + d.sign * r.fill.quantity) :
    (s.updateState r).LotStore := by
  obtain ⟨hpush, hwhole, htotal⟩ := pushed h hd hnd hfresh hkeys hq hq1
  refine ⟨fun symbol d' => ?_, fun symbol d' => ?_, fun symbol => ?_⟩
  · rw [(updateState_booking rfl).fills]
    by_cases hs : symbol = r.fill.symbol
    · rw [hs, replay_append_self, Fill.side_of_isOn hd]
      exact hpush d'
    · rw [replay_append_of_ne (Ne.symm hs), lots_of_ne hd hnd hfresh hkeys hs]
      exact h.refines symbol d'
  · by_cases hs : symbol = r.fill.symbol
    · rw [hs]
      exact hwhole d'
    · rw [lots_of_ne hd hnd hfresh hkeys hs]
      exact h.whole symbol d'
  · rw [updateState_positionQuantity hsym]
    by_cases hs : symbol = r.fill.symbol
    · rw [hs, if_pos rfl, hpos]
      cases d <;> simp only [Side.sign, Side.opposite] at htotal ⊢ <;> linarith
    · rw [if_neg hs, lots_of_ne hd hnd hfresh hkeys hs, lots_of_ne hd hnd hfresh hkeys hs]
      exact h.quantity symbol

end Update

end State

namespace BackTestEngine

open Executor

variable {createUuid : ℕ → Uuid} {hp : HostParams} {feed : List FeedItem} {c : Config}

/-- Lots and positions are whole numbers of shares. -/
structure WholeShares (s : State) : Prop where
  lots : ∀ d u a, (s.active d).lookup u = some a → IsWhole a ∧ 0 < a
  quantity : ∀ symbol, IsWhole (s.positionQuantity symbol)

theorem WholeShares.taken_spec {s : State} (h : WholeShares s) (d : Side) (symbol : Symbol) {x : ℚ} (hx : IsWhole x) :
    ∀ t ∈ s.taken d symbol x, IsWhole t.2.1 ∧ IsWhole t.2.2 ∧ 0 < t.2.2 ∧ t.2.2 ≤ t.2.1 :=
  Fifo.takes_spec (fun _ _ => IsWhole.sub) Constants.epsilon_pos.le
    (fun _ hl => h.lots d _ _ (State.mem_lotsIn.1 hl).2.2.2) hx

private theorem isWhole_closing {s : State} (h : WholeShares s) (d : Side) (symbol : Symbol) {q : ℚ}
    (hq : IsWhole q) : IsWhole (s.closing d symbol q) := by
  unfold State.closing
  split
  · exact hq.min (h.quantity symbol).abs
  · exact IsWhole.zero

/-- The position after an execution, whatever the action of the order. -/
private theorem isWhole_position {s : State} {o : Order} (h : IsWhole (s.positionQuantity o.symbol)) {q : ℚ}
    (hq : IsWhole q) (price : Money) : IsWhole (PositionCalc.calculatePosition o q price s).quantity := by
  have hclamp : ∀ x : ℚ, IsWhole x → IsWhole (if |x| < Constants.epsilon then 0 else x) := by
    intro x hx
    split
    · exact IsWhole.zero
    · exact hx
  by_cases hon : ∃ d, o.isOn d = true
  · obtain ⟨d, hd⟩ := hon
    rw [PositionCalc.calculatePosition_quantity hd]
    exact hclamp _ (h.add (hq.sign_mul d))
  · have hb : o.isBuy = false := Bool.eq_false_iff.2 fun hb => hon ⟨.buy, hb⟩
    have hs : o.isSell = false := Bool.eq_false_iff.2 fun hs => hon ⟨.sell, hs⟩
    rw [PositionCalc.calculatePosition_quantity_unknown hb hs]
    exact hclamp _ h

private theorem wholeShares_update {e : BackTestEngine} {o : Order} (hinj : Function.Injective createUuid)
    (hw : hp.fractional = false) (hreg : Registered createUuid e) (h : WholeShares e.state) :
    WholeShares (execute createUuid hp e o).state := by
  rcases execute_cases createUuid hp e o with he | ha
  · rw [he]; exact h
  rw [execute_accepted ha]
  have hq := fillableQuantity_whole (o := o) (s := e.state) hw
  have hq1 := one_le_fillableQuantity hw ha
  have hspec := h.taken_spec o.side.opposite o.symbol (isWhole_closing h o.side o.symbol hq)
  obtain ⟨hclosed, -, -⟩ := hreg.closeLots_induction hp hinj (o := o) rfl
    (P := fun s' => ∀ u a, (s'.active o.side.opposite).lookup u = some a → IsWhole a ∧ 0 < a)
    (by
      intro u a hu
      rw [State.active_recordFill] at hu
      exact h.lots _ u a hu)
    (by
      intro s' p hp' _ _ _ hP u a hu
      obtain ⟨h1, h2, -, -⟩ := hspec p hp'
      rw [State.closeLot_active] at hu
      split at hu
      · unfold State.lotAfter at hu
        split at hu
        · cases hu
        · rename_i hlt
          cases hu
          exact ⟨h1.sub h2, Constants.epsilon_pos.trans (not_le.1 hlt)⟩
      · exact hP u a hu)
  set r := success o hp e.state (createUuid e.uuidCount)
  refine ⟨fun d u a hu => ?_, fun symbol => ?_⟩
  · rcases State.updateState_active_cases (s := e.state) (r := r) hu with hl | ⟨-, -, ho⟩ | ⟨rfl, hl⟩
    · exact h.lots d u a hl
    · exact State.opened_whole (h.quantity _) hq hq1 ho
    · exact hclosed u a hl
  · show IsWhole ((e.state.updateState r).positionQuantity symbol)
    rw [State.updateState_positionQuantity
      (PositionCalc.calculatePosition_symbol (fun p hp => (hreg.positions _ p hp).1) _ _)]
    split
    · exact isWhole_position (h.quantity o.symbol) hq _
    · exact h.quantity symbol

/-- Without fractional shares, lots and positions stay whole, whatever the plugin does. -/
theorem wholeShares (hinj : Function.Injective createUuid) (hw : hp.fractional = false)
    (hr : Reachable createUuid hp feed c) : WholeShares c.engine.state := by
  have hG : ExecutionsMeet createUuid hp feed c fun e _ => Registered createUuid e :=
    executionsMeet_of_account (fun _ _ hs h => h.sameLedger hs.sameLedger) fun _ hr => registered hinj hr
  refine reachable_ledger (J := fun e => WholeShares e.state) ?_ ?_
    (fun e o h hreg => wholeShares_update hinj hw hreg h) hG hr
  · refine ⟨fun d u a hu => ?_, fun symbol => IsWhole.zero⟩
    cases d <;> cases hu
  · intro e e' hs h
    refine ⟨fun d u a => ?_, fun symbol => ?_⟩
    · rw [hs.active]; exact h.lots d u a
    · rw [State.positionQuantity, hs.positions]; exact h.quantity symbol

/-- In whole-share runs that only buy and sell, the lot store is kept. -/
theorem lotStore (hinj : Function.Injective createUuid) (hw : hp.fractional = false) (hfeed : OnlyBuySell feed)
    (hr : Reachable createUuid hp feed c) : c.engine.state.LotStore := by
  refine reachable_ledger (J := fun e => e.state.LotStore) ?_ ?_ ?_ (executionsMeet_registered hinj hfeed c) hr
  · refine ⟨fun symbol d => ?_, fun symbol d l hl => ?_, fun symbol => ?_⟩
    · cases d <;> rfl
    · cases d <;> cases hl
    · show (0 : ℚ) = 0 - 0
      rw [sub_zero]
  · intro e e' hs h
    have hlots : ∀ d symbol, e'.state.lots d symbol = e.state.lots d symbol := by
      intro d symbol
      rw [State.lots, hs.active, hs.fills]
      rfl
    refine ⟨fun symbol d => ?_, fun symbol d => ?_, fun symbol => ?_⟩
    · rw [hlots, hs.fills]; exact h.refines symbol d
    · rw [hlots]; exact h.whole symbol d
    · rw [hlots, hlots, State.positionQuantity, hs.positions]; exact h.quantity symbol
  · rintro e o h ⟨hreg, d, hd⟩
    rcases execute_cases createUuid hp e o with he | ha
    · rw [he]; exact h
    · rw [execute_accepted ha]
      obtain ⟨hsym, hpos⟩ := success_whole hw hreg hd (h.isWhole_quantity o.symbol)
      exact h.updateState (r := success o hp e.state (createUuid e.uuidCount)) (d := d) (by cases d <;> exact hd)
        hreg.nodup (hreg.fresh hinj) (hreg.active_fresh hinj d) (fillableQuantity_whole hw)
        (one_le_fillableQuantity hw ha) hsym hpos

/-- Every execution of such a run finds the lot store in order. -/
theorem executionsMeet_lotStore (hinj : Function.Injective createUuid) (hw : hp.fractional = false)
    (hfeed : OnlyBuySell feed) :
    ExecutionsMeet createUuid hp feed c fun e o =>
      e.state.LotStore ∧ Registered createUuid e ∧ ∃ d, o.isOn d = true := by
  intro c' hr hc o e hn
  refine ⟨?_, executionsMeet_registered hinj hfeed c c' hr hc o e hn⟩
  rw [(nextExecution_sameAccount hn).state]
  exact lotStore hinj hw hfeed hr

/-- The lot store refines a signed FIFO queue for each symbol: the active lots are the queue that replaying the fills
leaves, in the order of `fills_`, nothing else is active, all lots are positive whole numbers of shares, at most one
side has lots, and the position is their signed sum. -/
theorem lots_refine_queue (hinj : Function.Injective createUuid) (hw : hp.fractional = false)
    (hfeed : OnlyBuySell feed) (hr : Reachable createUuid hp feed c) (symbol : Symbol) :
    (∀ d, c.engine.state.lots d symbol = (replay symbol c.engine.state.fills).on d) ∧
      (∀ d u a, (c.engine.state.active d).lookup u = some a ↔
        ∃ f, f.uuid = u ∧ (f, a) ∈ (replay f.symbol c.engine.state.fills).on d) ∧
      (∀ d, ∀ l ∈ c.engine.state.lots d symbol, IsWhole l.2 ∧ 0 < l.2) ∧
      (c.engine.state.lots .buy symbol = [] ∨ c.engine.state.lots .sell symbol = []) ∧
      c.engine.state.positionQuantity symbol =
        Fifo.total (c.engine.state.lots .buy symbol) - Fifo.total (c.engine.state.lots .sell symbol) := by
  have h := lotStore hinj hw hfeed hr
  refine ⟨h.refines symbol, fun d u a => ?_, h.whole symbol, h.oneSided symbol .buy, h.quantity symbol⟩
  constructor
  · intro ha
    obtain ⟨f, hf, hu, hd⟩ := (registered hinj hr).keys d u (Option.isSome_of_eq_some ha)
    refine ⟨f, hu, ?_⟩
    rw [← h.refines]
    exact State.mem_lotsIn.2 ⟨hf, rfl, hd, by rw [hu]; exact ha⟩
  · rintro ⟨f, hu, hf⟩
    rw [← h.refines] at hf
    rw [← hu]
    exact (State.mem_lotsIn.1 hf).2.2.2

/-- Ten shares and five more, twelve sold: three shares of the second lot are left. -/
theorem lots_refine_queue_partial_close :
    let c := sampleRun sampleParams
      (sampleFeed "A" 1000 [(100, "buy", 10), (110, "buy", 5), (120, "sell", 12), (120, "sell", 0)]) 40
    c.engine.state.positionQuantity "A" = 3 ∧
      c.engine.state.lots .buy "A" = (replay "A" c.engine.state.fills).on .buy ∧
      (c.engine.state.lots .buy "A").map (fun l => (l.1.uuid, l.2)) = [(sampleUuid 1, 3)] := by
  refine ⟨by decide +kernel, ?_, by decide +kernel⟩
  exact (lots_refine_queue sampleUuid_injective rfl (by decide +kernel) (reachable_sampleRun _ _ _) "A").1 .buy

end BackTestEngine

end QuantForge
