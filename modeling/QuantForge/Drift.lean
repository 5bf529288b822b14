import QuantForge.LotStore
import Mathlib.Data.List.Infix

/-!
# Lots and positions with fractional shares

A fill moves the position by all of its quantity, but the walk over the lots stops when at most `EPSILON` is left to
close, throws away a lot of which at most `EPSILON` is left, opens no lot of at most `EPSILON`, and a position of less
than `EPSILON` is stored as flat.  Each of these moves the position and the lots apart (`drift`), by at most its own
cut-off, and nothing brings them together again: in every run they are at most the sum of the cut-offs apart
(`drift_le_cutOffs`).  `InFull` says that an execution meets none of the cut-offs; a run of such executions has no
drift.
-/

namespace QuantForge

namespace State

/-- The position of a symbol less what its lots add up to. -/
def drift (s : State) (symbol : Symbol) : ℚ :=
  s.positionQuantity symbol - (Fifo.total (s.lots .buy symbol) - Fifo.total (s.lots .sell symbol))

theorem drift_eq (s : State) (d : Side) (symbol : Symbol) :
    s.drift symbol = s.positionQuantity symbol -
      d.sign * (Fifo.total (s.lots d symbol) - Fifo.total (s.lots d.opposite symbol)) := by
  cases d <;> simp [drift, Side.sign, Side.opposite]

/-- A fill of `q` shares on side `d` is booked in full.  What it closes is there in lots of the other side, and is
equal to the oldest of them taken together or more than `EPSILON` away; what is left over opens nothing or more than
`EPSILON`; and the new position is flat or at least `EPSILON`. -/
structure InFull (s : State) (d : Side) (symbol : Symbol) (q : ℚ) : Prop where
  nonneg : 0 ≤ s.closing d symbol q
  enough : s.closing d symbol q ≤ Fifo.total (s.lots d.opposite symbol)
  walk : ∀ l ∈ (s.lots d.opposite symbol).inits,
    |s.closing d symbol q - Fifo.total l| ≤ Constants.epsilon → s.closing d symbol q = Fifo.total l
  opens : d.sign * s.positionQuantity symbol < 0 → q - s.closing d symbol q ≤ Constants.epsilon →
    q = s.closing d symbol q
  position : |s.positionQuantity symbol + d.sign * q| < Constants.epsilon →
    s.positionQuantity symbol + d.sign * q = 0

instance (s : State) (d : Side) (symbol : Symbol) (q : ℚ) : Decidable (s.InFull d symbol q) :=
  decidable_of_iff (0 ≤ s.closing d symbol q ∧ s.closing d symbol q ≤ Fifo.total (s.lots d.opposite symbol) ∧
    (∀ l ∈ (s.lots d.opposite symbol).inits,
      |s.closing d symbol q - Fifo.total l| ≤ Constants.epsilon → s.closing d symbol q = Fifo.total l) ∧
    (d.sign * s.positionQuantity symbol < 0 → q - s.closing d symbol q ≤ Constants.epsilon →
      q = s.closing d symbol q) ∧
    (|s.positionQuantity symbol + d.sign * q| < Constants.epsilon → s.positionQuantity symbol + d.sign * q = 0))
    ⟨fun ⟨h1, h2, h3, h4, h5⟩ => ⟨h1, h2, h3, h4, h5⟩, fun ⟨h1, h2, h3, h4, h5⟩ => ⟨h1, h2, h3, h4, h5⟩⟩

variable {s : State} {r : ExecutionResultSuccess} {d : Side}

/-- What a fill of `q` shares on side `d` has cut off: a position below `EPSILON`, a lot of at most `EPSILON`, and
what the walk misses. -/
def cutOff (s : State) (d : Side) (symbol : Symbol) (q : ℚ) : ℚ :=
  (if |s.positionQuantity symbol + d.sign * q| < Constants.epsilon then |s.positionQuantity symbol + d.sign * q|
    else 0) +
  (if d.sign * s.positionQuantity symbol < 0 ∧ q - s.closing d symbol q ≤ Constants.epsilon then
    |q - s.closing d symbol q| else 0) +
  |Fifo.missed Constants.epsilon (s.lots d.opposite symbol) (s.closing d symbol q)|

theorem cutOff_nonneg (s : State) (d : Side) (symbol : Symbol) (q : ℚ) : 0 ≤ s.cutOff d symbol q := by
  unfold cutOff
  refine add_nonneg (add_nonneg ?_ ?_) (abs_nonneg _)
  · split
    · exact abs_nonneg _
    · exact le_refl _
  · split
    · exact abs_nonneg _
    · exact le_refl _

/-- A fill that is booked in full has nothing cut off. -/
theorem InFull.cutOff_eq_zero {symbol : Symbol} {q : ℚ} (h : s.InFull d symbol q) : s.cutOff d symbol q = 0 := by
  have hmissed := Fifo.missed_eq_zero (ε := Constants.epsilon) h.nonneg h.enough
    fun l hl => h.walk l ((List.mem_inits _ _).2 hl)
  have hflat : (if |s.positionQuantity symbol + d.sign * q| < Constants.epsilon then
      |s.positionQuantity symbol + d.sign * q| else 0) = 0 := by
    split
    · rename_i hlt
      rw [h.position hlt, abs_zero]
    · rfl
  have hunopened : (if d.sign * s.positionQuantity symbol < 0 ∧ q - s.closing d symbol q ≤ Constants.epsilon then
      |q - s.closing d symbol q| else 0) = 0 := by
    split
    · rename_i hcut
      rw [sub_eq_zero.2 (h.opens hcut.1 hcut.2), abs_zero]
    · rfl
  rw [cutOff, hmissed, hflat, hunopened, abs_zero, add_zero, add_zero]

/-- The lot that is opened holds what is not closed, unless it is cut off. -/
private theorem total_opened (s : State) (d : Side) (symbol : Symbol) (q : ℚ) (f : Fill) :
    Fifo.total ((s.opened d symbol q).map (f, ·)).toList = q - s.closing d symbol q -
      if d.sign * s.positionQuantity symbol < 0 ∧ q - s.closing d symbol q ≤ Constants.epsilon then
        q - s.closing d symbol q else 0 := by
  unfold opened
  split <;> simp

/-- A fill moves the drift of its symbol by no more than it has cut off, and that of no other symbol. -/
theorem drift_updateState (hd : r.fill.isOn d = true) (hnd : (s.fills.map Fill.uuid).Nodup)
    (hfresh : r.fill.uuid ∉ s.fills.map Fill.uuid) (hkeys : (s.active d).lookup r.fill.uuid = none)
    (hsym : r.position.symbol = r.fill.symbol)
    (hpos : r.position.quantity =
      if |s.positionQuantity r.fill.symbol + d.sign * r.fill.quantity| < Constants.epsilon then 0
      else s.positionQuantity r.fill.symbol + d.sign * r.fill.quantity) (symbol : Symbol) :
    |(s.updateState r).drift symbol - s.drift symbol| ≤
      if symbol = r.fill.symbol then s.cutOff d r.fill.symbol r.fill.quantity else 0 := by
  rw [drift_eq _ d, drift_eq _ d, updateState_positionQuantity hsym, updateState_lots_same hd hfresh hkeys,
    updateState_lots_opposite (Fill.side_of_isOn hd) hnd hfresh]
  by_cases hs : symbol = r.fill.symbol
  · subst hs
    simp only [if_true, Fifo.total_append]
    have habs : ∀ (p : Prop) [Decidable p] (x : ℚ), (if p then |x| else 0) = |if p then x else 0| := by
      intro p _ x
      split <;> simp
    have hflat : ∀ x : ℚ, (if |x| < Constants.epsilon then 0 else x) =
        x - if |x| < Constants.epsilon then x else 0 := by
      intro x
      split <;> ring
    have hsign : |d.sign| = 1 := by cases d <;> simp [Side.sign]
    rw [hpos, Fifo.total_drop Constants.epsilon_pos.le, total_opened, cutOff, habs, habs, hflat]
    generalize (if |s.positionQuantity r.fill.symbol + d.sign * r.fill.quantity| < Constants.epsilon then _
      else (0 : ℚ)) = flat
    generalize (if d.sign * s.positionQuantity r.fill.symbol < 0 ∧
      r.fill.quantity - s.closing d r.fill.symbol r.fill.quantity ≤ Constants.epsilon then _ else (0 : ℚ)) = unopened
    generalize Fifo.missed Constants.epsilon _ _ = missed
    have hmoved : s.positionQuantity r.fill.symbol + d.sign * r.fill.quantity - flat -
        d.sign * (Fifo.total (s.lots d r.fill.symbol) +
            (r.fill.quantity - s.closing d r.fill.symbol r.fill.quantity - unopened) -
          (Fifo.total (s.lots d.opposite r.fill.symbol) - s.closing d r.fill.symbol r.fill.quantity + missed)) -
        (s.positionQuantity r.fill.symbol -
          d.sign * (Fifo.total (s.lots d r.fill.symbol) - Fifo.total (s.lots d.opposite r.fill.symbol))) =
        -flat + d.sign * (unopened + missed) := by ring
    rw [hmoved]
    calc |-flat + d.sign * (unopened + missed)| ≤ |-flat| + |d.sign * (unopened + missed)| := abs_add_le _ _
      _ = |flat| + |unopened + missed| := by rw [abs_neg, abs_mul, hsign, one_mul]
      _ ≤ |flat| + (|unopened| + |missed|) := add_le_add_right (abs_add_le _ _) _
      _ = |flat| + |unopened| + |missed| := (add_assoc ..).symm
  · simp [if_neg hs]

end State

namespace BackTestEngine

open Executor

variable {createUuid : ℕ → Uuid} {hp : HostParams} {feed : List FeedItem} {c : Config}

/-- The order is rejected or booked in full. -/
def BooksInFull (createUuid : ℕ → Uuid) (hp : HostParams) (e : BackTestEngine) (o : Order) : Prop :=
  Accepted o hp e.state (createUuid e.uuidCount) → e.state.InFull o.side o.symbol (fillableQuantity o hp e.state)

instance (createUuid : ℕ → Uuid) (hp : HostParams) (e : BackTestEngine) (o : Order) :
    Decidable (BooksInFull createUuid hp e o) :=
  inferInstanceAs (Decidable (_ → _))

/-- What an order, if it is accepted, has cut off of a symbol. -/
def cutOff (createUuid : ℕ → Uuid) (hp : HostParams) (symbol : Symbol) (e : BackTestEngine) (o : Order) : ℚ :=
  if symbol = o.symbol ∧ Accepted o hp e.state (createUuid e.uuidCount) then
    e.state.cutOff o.side o.symbol (fillableQuantity o hp e.state)
  else 0

theorem cutOff_nonneg (symbol : Symbol) (e : BackTestEngine) (o : Order) : 0 ≤ cutOff createUuid hp symbol e o := by
  unfold cutOff
  split
  · exact State.cutOff_nonneg ..
  · exact le_refl _

theorem BooksInFull.cutOff_eq_zero {e : BackTestEngine} {o : Order} (h : BooksInFull createUuid hp e o)
    (symbol : Symbol) : cutOff createUuid hp symbol e o = 0 := by
  unfold cutOff
  split
  · rename_i hcond
    exact (h hcond.2).cutOff_eq_zero
  · rfl

/-- An execution moves the position and the lots apart by no more than it has cut off. -/
private theorem drift_execute {e : BackTestEngine} {o : Order} (hinj : Function.Injective createUuid)
    (hreg : Registered createUuid e) {d : Side} (hd : o.isOn d = true) (symbol : Symbol) :
    |(execute createUuid hp e o).state.drift symbol - e.state.drift symbol| ≤ cutOff createUuid hp symbol e o := by
  rcases execute_state createUuid hp e o with he | ⟨ha, he⟩
  · rw [he, sub_self, abs_zero]
    exact cutOff_nonneg ..
  · rw [he]
    refine (State.drift_updateState (r := success o hp e.state (createUuid e.uuidCount)) (d := d)
      (by cases d <;> exact hd) hreg.nodup (hreg.fresh hinj) (hreg.active_fresh hinj d)
      (PositionCalc.calculatePosition_symbol (fun p hp => (hreg.positions _ p hp).1) _ _)
      (PositionCalc.calculatePosition_quantity hd ..) symbol).trans (le_of_eq ?_)
    show (if symbol = o.symbol then e.state.cutOff d o.symbol (fillableQuantity o hp e.state) else 0) = _
    simp only [cutOff, ha, and_true, Order.side_of_isOn hd]

/-- What the next step cuts off of a symbol. -/
def cutOffs (createUuid : ℕ → Uuid) (hp : HostParams) (symbol : Symbol) (c : Config) : List ℚ :=
  match nextExecution c with
  | some (o, e) => [cutOff createUuid hp symbol e o]
  | none => []

theorem sum_cutOffs_nonneg (symbol : Symbol) (c : Config) : 0 ≤ (cutOffs createUuid hp symbol c).sum := by
  unfold cutOffs
  split
  · simpa using cutOff_nonneg ..
  · simp

theorem drift_start (symbol : Symbol) : (start hp feed).engine.state.drift symbol = 0 := by
  show (0 : ℚ) - (0 - 0) = 0
  norm_num

theorem drift_sameLedger {e e' : BackTestEngine} (h : SameLedger e e') (symbol : Symbol) :
    e'.state.drift symbol = e.state.drift symbol := by
  rw [State.drift, State.drift, State.positionQuantity, State.positionQuantity, h.positions]
  simp only [State.lots, h.active, h.fills]

/-- In every run the position of a symbol and what its lots add up to are at most as far apart as what the executions
have cut off. -/
theorem drift_le_cutOffs (hinj : Function.Injective createUuid) (hfeed : OnlyBuySell feed) {symbol : Symbol}
    {evs : List ℚ} (h : Loop.Trace (step createUuid hp) (cutOffs createUuid hp symbol) (start hp feed) evs c) :
    |c.engine.state.drift symbol| ≤ evs.sum := by
  refine Loop.trace_invariant
    (P := fun (evs : List ℚ) (c : Config) => |c.engine.state.drift symbol| ≤ evs.sum) ?_ ?_ h
  · rw [drift_start, abs_zero, List.sum_nil]
  · intro evs b c hr hle hs
    have hsum : 0 ≤ (cutOffs createUuid hp symbol b).sum := sum_cutOffs_nonneg symbol b
    have hsame : SameLedger b.engine c.engine → |c.engine.state.drift symbol| ≤
        (evs ++ cutOffs createUuid hp symbol b).sum := by
      intro hl
      rw [drift_sameLedger hl, List.sum_append]
      linarith
    rcases step_account hs with hacc | ⟨item, -, -, he⟩ | ⟨o, e, hn, he⟩ | ⟨e, hacc, he⟩
    · exact hsame hacc.sameLedger
    · exact hsame (he ▸ sameLedger_prepareNextBar ..)
    · obtain ⟨hreg, d, hd⟩ := executionsMeet_registered hinj hfeed c b hr (Relation.TransGen.single hs) o e hn
      have hmove : |(execute createUuid hp e o).state.drift symbol - e.state.drift symbol| ≤
          cutOff createUuid hp symbol e o := drift_execute hinj hreg hd symbol
      have hold := drift_sameLedger (nextExecution_sameAccount hn).sameLedger symbol
      rw [he, List.sum_append, cutOffs, hn, List.sum_singleton]
      have htriangle := abs_sub_abs_le_abs_sub ((execute createUuid hp e o).state.drift symbol) (e.state.drift symbol)
      rw [hold] at htriangle hmove
      linarith
    · exact hsame (he ▸ hacc.sameLedger.trans (sameLedger_finishBar ..))

/-- In a run whose fills are all booked in full, the position of a symbol stays within `EPSILON` of what its lots add
up to. -/
theorem drift_le_epsilon (hinj : Function.Injective createUuid) (hfeed : OnlyBuySell feed)
    (hfull : ExecutionsMeet createUuid hp feed c (BooksInFull createUuid hp))
    (hr : Reachable createUuid hp feed c) (symbol : Symbol) :
    |c.engine.state.positionQuantity symbol -
        (Fifo.total (c.engine.state.lots .buy symbol) - Fifo.total (c.engine.state.lots .sell symbol))| ≤
      Constants.epsilon := by
  have hzero : c.engine.state.drift symbol = 0 := by
    refine reachable_ledger (J := fun e => e.state.drift symbol = 0) ?_ ?_ ?_
      (hfull.and (executionsMeet_registered hinj hfeed c)) hr
    · exact drift_start symbol
    · intro e e' hs h
      rw [drift_sameLedger hs, h]
    · rintro e o h ⟨hbooks, hreg, d, hd⟩
      have hmove : |(execute createUuid hp e o).state.drift symbol - e.state.drift symbol| ≤
          cutOff createUuid hp symbol e o := drift_execute hinj hreg hd symbol
      rw [hbooks.cutOff_eq_zero, h, sub_zero] at hmove
      exact abs_nonpos_iff.1 hmove
  unfold State.drift at hzero
  rw [hzero, abs_zero]
  exact Constants.epsilon_pos.le

/-- A million dollars and fractional shares. -/
def fractionParams : HostParams := { sampleParams with allowFractionalShares := some true }

/-- A share and a half bought, a quarter sold, then two more: the position goes short. -/
theorem drift_le_epsilon_crossing :
    let c := sampleRun fractionParams
      (sampleFeed "A" 1000 [(100, "buy", 3 / 2), (110, "sell", 1 / 4), (120, "sell", 2), (120, "sell", 0)]) 40
    c.engine.state.positionQuantity "A" = -3 / 4 ∧
      |c.engine.state.positionQuantity "A" -
          (Fifo.total (c.engine.state.lots .buy "A") - Fifo.total (c.engine.state.lots .sell "A"))| ≤
        Constants.epsilon := by
  refine ⟨by decide +kernel, ?_⟩
  exact drift_le_epsilon sampleUuid_injective (by decide +kernel)
    (executionsMeet_sampleRun (n := 40) (by decide) (by decide +kernel) (by decide +kernel))
    (reachable_sampleRun _ _ _) "A"

/-- One share bought and twice `EPSILON` shares sold. -/
def dustFeed : List FeedItem :=
  sampleFeed "A" 1000 [(100, "buy", 1), (100, "sell", 1 / 10000), (100, "sell", 1 / 10000), (100, "sell", 0)]

/-- The two sales move the position and leave the lot of one share as it is. -/
theorem drift_exceeds_epsilon :
    OnlyBuySell dustFeed ∧ fractionParams.fractional = true ∧
      ∃ c, Reachable sampleUuid fractionParams dustFeed c ∧
        c.engine.state.positionQuantity "A" = 9998 / 10000 ∧ Fifo.total (c.engine.state.lots .buy "A") = 1 ∧
        ¬ |c.engine.state.positionQuantity "A" -
            (Fifo.total (c.engine.state.lots .buy "A") - Fifo.total (c.engine.state.lots .sell "A"))| ≤
          Constants.epsilon := by
  refine ⟨by decide +kernel, by decide, sampleRun fractionParams dustFeed 40, reachable_sampleRun _ _ _, ?_⟩
  decide +kernel

end BackTestEngine

end QuantForge
