import QuantForge.RunningPeak
import QuantForge.Runs
import QuantForge.Updates

/-!
# The equity curve

At the end of each bar the equity is held against a running peak, the maximum drawdown is brought up to date, and a
snapshot is appended to the curve, or put in the place of the last one if that has the same timestamp.  For bars in
the order of their timestamps the result is what the definitions say: one snapshot for each timestamp, with the equity
after its last bar, the peak and the greatest drawdown over all bars so far (`equity_curve_spec`).
-/

namespace QuantForge

/-! ### What the curve should be -/

/-- The equities of a history of timestamps and equities, in dollars. -/
def equitiesInDollars (history : List (ℤ × Money)) : List ℚ := history.map fun x => Money.toDollars x.2

/-- The maximum drawdown of a history. -/
def IsMaxDrawdownOf (hp : HostParams) (history : List (ℤ × Money)) (d : ℚ) : Prop :=
  RunningPeak.IsMaxDrawdown Constants.epsilon (Money.toDollars hp.initialCapital) (equitiesInDollars history) d

/-- The snapshot of a timestamp: equity, return and drawdown at the last bar of that timestamp. -/
def IsSnapshotOf (hp : HostParams) (history : List (ℤ × Money)) (x : EquitySnapshot) : Prop :=
  ∃ before after, history = before ++ (x.timestampNs, x.equity) :: after ∧ (∀ y ∈ after, y.1 ≠ x.timestampNs) ∧
    x.returns = State.calculateReturn hp x.equity ∧
    IsMaxDrawdownOf hp (before ++ [(x.timestampNs, x.equity)]) x.maxDrawdown

/-- The curve, the peak and the maximum drawdown of an account belong to a history of timestamps and equities. -/
structure CurveOf (hp : HostParams) (history : List (ℤ × Money)) (s : State) : Prop where
  peak : s.peakEquity = RunningPeak.peak hp.initialCapital (history.map Prod.snd)
  drawdown : IsMaxDrawdownOf hp history s.maxDrawdown
  increasing : (s.equityCurve.map EquitySnapshot.timestampNs).Pairwise (· < ·)
  timestamps : ∀ t, t ∈ s.equityCurve.map EquitySnapshot.timestampNs ↔ t ∈ history.map Prod.fst
  snapshots : ∀ x ∈ s.equityCurve, IsSnapshotOf hp history x

/-! ### One snapshot -/

namespace State

/-- The peak with the equity of the current bar. -/
def peakAfter (s : State) : Money := max s.peakEquity s.calculateEquity

/-- The maximum drawdown with the equity of the current bar. -/
def drawdownAfter (s : State) : ℚ :=
  max (if Money.toDollars s.peakAfter > Constants.epsilon then
    Money.toDollars (s.peakAfter - s.calculateEquity) / Money.toDollars s.peakAfter else 0) s.maxDrawdown

/-- The snapshot of the current bar. -/
def snapshot (s : State) (hp : HostParams) : EquitySnapshot :=
  ⟨s.currentTimestampNs, s.calculateEquity, calculateReturn hp s.calculateEquity, s.drawdownAfter⟩

/-! The three assignments of `record_bar_equity_snapshot`. -/

private def assignPeak (s : State) (equity : Money) : State :=
  if equity > s.peakEquity then { s with peakEquity := equity } else s

private def assignDrawdown (s : State) (equity : Money) : State :=
  if s.calculateMaxDrawdown equity > s.maxDrawdown then { s with maxDrawdown := s.calculateMaxDrawdown equity } else s

private def assignCurve (s : State) (hp : HostParams) (equity : Money) : State :=
  let snapshot : EquitySnapshot := ⟨s.currentTimestampNs, equity, calculateReturn hp equity, s.maxDrawdown⟩
  match s.equityCurve.getLast? with
  | none => { s with equityCurve := s.equityCurve ++ [snapshot] }
  | some last =>
    if last.timestampNs ≠ s.currentTimestampNs then { s with equityCurve := s.equityCurve ++ [snapshot] }
    else { s with equityCurve := s.equityCurve.dropLast ++ [{ snapshot with timestampNs := last.timestampNs }] }

private theorem assignPeak_eq (s : State) (equity : Money) :
    s.assignPeak equity = { s with peakEquity := max s.peakEquity equity } := by
  unfold assignPeak
  split
  · rename_i h
    rw [max_eq_right h.le]
  · rename_i h
    rw [max_eq_left (not_lt.1 h)]

private theorem assignDrawdown_eq (s : State) (equity : Money) :
    s.assignDrawdown equity = { s with maxDrawdown := s.calculateMaxDrawdown equity } := by
  have hle : s.maxDrawdown ≤ s.calculateMaxDrawdown equity := le_max_right _ _
  unfold assignDrawdown
  split
  · rfl
  · rename_i h
    rw [← le_antisymm hle (not_lt.1 h)]

private theorem assignCurve_eq (s : State) (hp : HostParams) (equity : Money) :
    s.assignCurve hp equity =
      { s with
        equityCurve :=
          if s.equityCurve.getLast?.map EquitySnapshot.timestampNs = some s.currentTimestampNs then
            s.equityCurve.dropLast ++ [⟨s.currentTimestampNs, equity, calculateReturn hp equity, s.maxDrawdown⟩]
          else s.equityCurve ++ [⟨s.currentTimestampNs, equity, calculateReturn hp equity, s.maxDrawdown⟩] } := by
  unfold assignCurve
  rcases s.equityCurve.getLast? with _ | last
  · simp
  · by_cases ht : last.timestampNs = s.currentTimestampNs
    · simp [ht]
    · simp [ht]

/-- What `record_bar_equity_snapshot` does. -/
theorem recordBarEquitySnapshot_eq (s : State) (hp : HostParams) :
    s.recordBarEquitySnapshot hp =
      { s with
        peakEquity := s.peakAfter
        maxDrawdown := s.drawdownAfter
        equityCurve :=
          if s.equityCurve.getLast?.map EquitySnapshot.timestampNs = some s.currentTimestampNs then
            s.equityCurve.dropLast ++ [s.snapshot hp]
          else s.equityCurve ++ [s.snapshot hp] } := by
  have h : s.recordBarEquitySnapshot hp =
      ((s.assignPeak s.calculateEquity).assignDrawdown s.calculateEquity).assignCurve hp s.calculateEquity := rfl
  rw [h, assignPeak_eq, assignDrawdown_eq, assignCurve_eq]
  rfl

end State

namespace CurveOf

variable {hp : HostParams} {history : List (ℤ × Money)} {s : State}

theorem start (hp : HostParams) : CurveOf hp [] (({} : State).prepareInitialState hp) :=
  ⟨rfl, RunningPeak.isMaxDrawdown_nil _ _, List.Pairwise.nil, fun _ => Iff.rfl, fun x hx => by cases hx⟩

theorem congr {s' : State} (h : CurveOf hp history s) (hcurve : s'.equityCurve = s.equityCurve)
    (hpeak : s'.peakEquity = s.peakEquity) (hdrawdown : s'.maxDrawdown = s.maxDrawdown) : CurveOf hp history s' := by
  refine ⟨?_, ?_, ?_, ?_, ?_⟩
  · rw [hpeak]; exact h.peak
  · rw [hdrawdown]; exact h.drawdown
  · rw [hcurve]; exact h.increasing
  · rw [hcurve]; exact h.timestamps
  · rw [hcurve]; exact h.snapshots

variable (h : CurveOf hp history s)

include h

theorem peakAfter_eq : s.peakAfter =
    RunningPeak.peak hp.initialCapital ((history ++ [(s.currentTimestampNs, s.calculateEquity)]).map Prod.snd) := by
  rw [List.map_append, List.map_singleton, RunningPeak.peak_append, ← h.peak]
  rfl

theorem drawdownAfter_isMaxDrawdown :
    IsMaxDrawdownOf hp (history ++ [(s.currentTimestampNs, s.calculateEquity)]) s.drawdownAfter := by
  have hpeak : RunningPeak.peak (Money.toDollars hp.initialCapital)
      (equitiesInDollars history ++ [Money.toDollars s.calculateEquity]) = Money.toDollars s.peakAfter := by
    rw [h.peakAfter_eq, ← RunningPeak.peak_map fun _ _ => Money.toDollars_mono, List.map_map, List.map_append]
    rfl
  have happend := RunningPeak.IsMaxDrawdown.append h.drawdown (Money.toDollars s.calculateEquity)
  rw [hpeak] at happend
  unfold IsMaxDrawdownOf
  have hmap : equitiesInDollars (history ++ [(s.currentTimestampNs, s.calculateEquity)]) =
      equitiesInDollars history ++ [Money.toDollars s.calculateEquity] := by
    simp [equitiesInDollars]
  have hafter : s.drawdownAfter =
      if Constants.epsilon < Money.toDollars s.peakAfter then
        max ((Money.toDollars s.peakAfter - Money.toDollars s.calculateEquity) / Money.toDollars s.peakAfter)
          s.maxDrawdown
      else s.maxDrawdown := by
    unfold State.drawdownAfter
    split
    · congr 2
      unfold Money.toDollars
      push_cast
      ring
    · exact max_eq_right h.drawdown.nonneg
  rw [hmap, hafter]
  exact happend

/-- The snapshot of the current bar is the one of its timestamp. -/
theorem isSnapshotOf_snapshot :
    IsSnapshotOf hp (history ++ [(s.currentTimestampNs, s.calculateEquity)]) (s.snapshot hp) :=
  ⟨history, [], rfl, fun y hy => (by cases hy), rfl, h.drawdownAfter_isMaxDrawdown⟩

omit h in
/-- Another bar does not concern the snapshots of other timestamps. -/
theorem isSnapshotOf_append {x : EquitySnapshot} (hx : IsSnapshotOf hp history x) {t : ℤ} (ht : t ≠ x.timestampNs)
    (equity : Money) : IsSnapshotOf hp (history ++ [(t, equity)]) x := by
  obtain ⟨before, after, rfl, hafter, hreturns, hdrawdown⟩ := hx
  refine ⟨before, after ++ [(t, equity)], by simp, fun y hy => ?_, hreturns, hdrawdown⟩
  rcases List.mem_append.1 hy with hy | hy
  · exact hafter y hy
  · rw [List.mem_singleton.1 hy]
    exact ht

/-- A first snapshot of a timestamp is appended. -/
private theorem append_new (hlt : ∀ x ∈ history, x.1 < s.currentTimestampNs) :
    CurveOf hp (history ++ [(s.currentTimestampNs, s.calculateEquity)])
      { s with peakEquity := s.peakAfter, maxDrawdown := s.drawdownAfter,
               equityCurve := s.equityCurve ++ [s.snapshot hp] } := by
  have hbelow : ∀ t ∈ s.equityCurve.map EquitySnapshot.timestampNs, t < s.currentTimestampNs := by
    intro t ht
    obtain ⟨x, hx, rfl⟩ := List.mem_map.1 ((h.timestamps t).1 ht)
    exact hlt x hx
  refine ⟨h.peakAfter_eq, h.drawdownAfter_isMaxDrawdown, ?_, fun t => ?_, fun x hx => ?_⟩
  · rw [List.map_append, List.map_singleton, List.pairwise_append]
    refine ⟨h.increasing, List.pairwise_singleton _ _, fun t ht u hu => ?_⟩
    rw [List.mem_singleton.1 hu]
    exact hbelow t ht
  · rw [List.map_append, List.map_append, List.mem_append, List.mem_append, h.timestamps]
    rfl
  · rcases List.mem_append.1 hx with hx | hx
    · exact isSnapshotOf_append (h.snapshots x hx) (hbelow _ (List.mem_map_of_mem hx)).ne' _
    · rw [List.mem_singleton.1 hx]
      exact h.isSnapshotOf_snapshot

/-- A further one takes the place of the last. -/
private theorem replace_last {curve : List EquitySnapshot} {last : EquitySnapshot}
    (hcurve : s.equityCurve = curve ++ [last]) (hlast : last.timestampNs = s.currentTimestampNs) :
    CurveOf hp (history ++ [(s.currentTimestampNs, s.calculateEquity)])
      { s with peakEquity := s.peakAfter, maxDrawdown := s.drawdownAfter,
               equityCurve := curve ++ [s.snapshot hp] } := by
  have hmap : (curve ++ [s.snapshot hp]).map EquitySnapshot.timestampNs =
      s.equityCurve.map EquitySnapshot.timestampNs := by
    rw [hcurve, List.map_append, List.map_append, List.map_singleton, List.map_singleton, hlast]
    rfl
  have hinc := h.increasing
  refine ⟨h.peakAfter_eq, h.drawdownAfter_isMaxDrawdown, ?_, fun t => ?_, fun x hx => ?_⟩
  · rw [hmap]
    exact hinc
  · rw [hmap, h.timestamps, List.map_append, List.mem_append]
    refine ⟨Or.inl, fun ht => ht.elim id fun ht => ?_⟩
    -- the timestamp is there already
    rw [List.mem_singleton.1 ht, ← h.timestamps, hcurve]
    exact List.mem_map.2 ⟨last, List.mem_append_right _ (List.mem_singleton_self _), hlast⟩
  · rcases List.mem_append.1 hx with hx | hx
    · rw [hcurve, List.map_append, List.pairwise_append] at hinc
      have hlt := hinc.2.2 x.timestampNs (List.mem_map_of_mem hx) last.timestampNs (List.mem_singleton_self _)
      refine isSnapshotOf_append (h.snapshots x ?_) (hlast ▸ hlt.ne') _
      rw [hcurve]
      exact List.mem_append_left _ hx
    · rw [List.mem_singleton.1 hx]
      exact h.isSnapshotOf_snapshot

/-- The end of a bar. -/
theorem record (hle : ∀ x ∈ history, x.1 ≤ s.currentTimestampNs) :
    CurveOf hp (history ++ [(s.currentTimestampNs, s.calculateEquity)]) (s.recordBarEquitySnapshot hp) := by
  rw [State.recordBarEquitySnapshot_eq]
  rcases List.eq_nil_or_concat' s.equityCurve with hnil | ⟨curve, last, hcurve⟩
  · have hlt : ∀ x ∈ history, x.1 < s.currentTimestampNs := by
      intro x hx
      have := (h.timestamps x.1).2 (List.mem_map_of_mem hx)
      rw [hnil] at this
      cases this
    have hnew := h.append_new hlt
    rw [hnil] at hnew ⊢
    exact hnew
  · by_cases hlast : last.timestampNs = s.currentTimestampNs
    · have hreplaced := h.replace_last hcurve hlast
      rw [if_pos (by rw [hcurve]; simp [hlast]), hcurve]
      simpa using hreplaced
    · -- the last snapshot has the greatest timestamp, and it is not the current one
      have hmem : last.timestampNs ∈ s.equityCurve.map EquitySnapshot.timestampNs := by
        rw [hcurve]
        simp
      obtain ⟨y, hy, hylast⟩ := List.mem_map.1 ((h.timestamps _).1 hmem)
      have hlastlt : last.timestampNs < s.currentTimestampNs :=
        lt_of_le_of_ne (hylast ▸ hle y hy) hlast
      have hlt : ∀ x ∈ history, x.1 < s.currentTimestampNs := by
        intro x hx
        have hx' := (h.timestamps x.1).2 (List.mem_map_of_mem hx)
        have hinc := h.increasing
        rw [hcurve, List.map_append, List.pairwise_append] at hinc
        rw [hcurve, List.map_append, List.mem_append] at hx'
        rcases hx' with hx' | hx'
        · exact (hinc.2.2 _ hx' _ (List.mem_singleton_self _)).trans hlastlt
        · rw [List.mem_singleton.1 hx']
          exact hlastlt
      rw [if_neg (by rw [hcurve]; simpa using hlast)]
      exact h.append_new hlt

end CurveOf

/-! ### Runs -/

namespace BackTestEngine

open Executor

variable {createUuid : ℕ → Uuid} {hp : HostParams} {feed : List FeedItem} {c : Config}

/-- The timestamp and the equity at the end of a bar, if the step closes one. -/
def closedBar (hp : HostParams) (c : Config) : List (ℤ × Money) :=
  if c.phase = .onBar ∧ c.result.code = 0 ∧ (schedulePluginInstructions hp c.engine c.result).isOk then
    [(c.engine.state.currentTimestampNs, c.engine.state.calculateEquity)]
  else []

theorem execute_curve (createUuid : ℕ → Uuid) (hp : HostParams) (e : BackTestEngine) (o : Order) :
    (execute createUuid hp e o).state.equityCurve = e.state.equityCurve ∧
      (execute createUuid hp e o).state.peakEquity = e.state.peakEquity ∧
      (execute createUuid hp e o).state.maxDrawdown = e.state.maxDrawdown := by
  rcases execute_cases createUuid hp e o with he | ha
  · rw [he]
    exact ⟨rfl, rfl, rfl⟩
  · rw [execute_accepted ha]
    exact State.updateState_curve _ _

theorem execute_currentTimestampNs (createUuid : ℕ → Uuid) (hp : HostParams) (e : BackTestEngine) (o : Order) :
    (execute createUuid hp e o).state.currentTimestampNs = e.state.currentTimestampNs := by
  rcases execute_cases createUuid hp e o with he | ha
  · rw [he]
  · rw [execute_accepted ha]
    exact (State.updateState_booking rfl).currentTimestampNs

/-- The bars taken up so far and those to come are bars of the feed, in its order. -/
theorem processed_sublist (hr : Reachable createUuid hp feed c) :
    (c.engine.processed ++ c.feed.map FeedItem.bar).Sublist (feed.map FeedItem.bar) := by
  refine reachable_induction (J := fun c => (c.engine.processed ++ c.feed.map FeedItem.bar).Sublist
    (feed.map FeedItem.bar)) (List.Sublist.refl _) ?_ executionsMeet_true hr
  rintro c c' - h hs -
  cases step_kinds hs with
  | execute o e hn _ hf _ he =>
    rw [he, hf, (execute_marketData createUuid hp e o).1, (nextExecution_sameAccount hn).processed]
    exact h
  | closed item _ hf hc =>
    rw [hf] at h
    rw [hc]
    exact (List.Sublist.append_left (List.sublist_cons_self _ _) _).trans h
  | bar item _ hf hc =>
    rw [hf] at h
    rw [hc]
    show ((c.engine.processed ++ [item.bar]) ++ _).Sublist _
    rw [List.append_assoc]
    exact h
  | finish e _ hsched hc =>
    obtain ⟨curve, peak, drawdown, hfin⟩ := finishBar_frame e hp
    rw [hc, hfin]
    show (e.processed ++ _).Sublist _
    rw [(sameAccount_scheduled hsched).processed]
    exact h
  | throw t _ hsched hc =>
    rw [hc]
    show (t.engine.processed ++ _).Sublist _
    rw [(sameAccount_thrown hsched).processed]
    exact h
  | move _ hf _ hsame _ _ =>
    rw [hf, hsame.processed]
    exact h

/-- A run has closed the bars of `history`: the bars taken up, but for the current one while it is not closed. -/
structure Closed (hp : HostParams) (history : List (ℤ × Money)) (c : Config) : Prop where
  curve : CurveOf hp history c.engine.state
  processed : c.engine.processed.map AggregateBarResult.unixTsNs =
    history.map Prod.fst ++ if c.phase = .nextBar then [] else [c.engine.state.currentTimestampNs]

/-- A step closes a bar exactly when the next one can be taken up after it. -/
private theorem closedBar_eq_nil {c' : Config} (hs : step createUuid hp c = some c')
    (h : c.phase = .onBar → c'.phase ≠ .nextBar) : closedBar hp c = [] := by
  refine if_neg ?_
  rintro ⟨hphase, hcode, hok⟩
  refine h hphase ?_
  obtain ⟨e, he⟩ : ∃ e, schedulePluginInstructions hp c.engine c.result = .ok e := by
    rcases hx : schedulePluginInstructions hp c.engine c.result with m | e
    · rw [hx] at hok
      cases hok
    · exact ⟨e, rfl⟩
  simp only [step, hphase, hcode, he, ne_eq, not_true_eq_false, if_false] at hs
  rw [← Option.some.inj hs]

/-- Taking up a bar shortens the feed. -/
theorem feed_of_nextBar {c' : Config} (hs : step createUuid hp c = some c') (hphase : c.phase = .nextBar) :
    ∃ item, c.feed = item :: c'.feed := by
  rcases hfeed : c.feed with _ | ⟨item, feed⟩
  · simp [step, hphase, hfeed] at hs
  · simp only [step, hphase, hfeed] at hs
    split at hs
    · cases hs
      exact ⟨item, rfl⟩
    · cases hs
      exact ⟨item, rfl⟩

/-- A step that leaves the curve and does not close a bar. -/
private theorem closed_congr {history : List (ℤ × Money)} (h : Closed hp history c) {c' : Config}
    (hs : step createUuid hp c = some c') (hon : c.phase = .onBar → c'.phase ≠ .nextBar)
    (hphase : (c'.phase = .nextBar) ↔ c.phase = .nextBar)
    (hcurve : c'.engine.state.equityCurve = c.engine.state.equityCurve ∧
      c'.engine.state.peakEquity = c.engine.state.peakEquity ∧
      c'.engine.state.maxDrawdown = c.engine.state.maxDrawdown)
    (hprocessed : c'.engine.processed = c.engine.processed)
    (htime : c'.engine.state.currentTimestampNs = c.engine.state.currentTimestampNs) :
    Closed hp (history ++ closedBar hp c) c' := by
  rw [closedBar_eq_nil hs hon, List.append_nil]
  refine ⟨h.curve.congr hcurve.1 hcurve.2.1 hcurve.2.2, ?_⟩
  rw [hprocessed, htime, h.processed]
  simp only [hphase]

/-- A step that closes a bar. -/
private theorem closed_finish {history : List (ℤ × Money)} (h : Closed hp history c) {c' : Config}
    {e : BackTestEngine} (hphase : c.phase = .onBar) (hcode : c.result.code = 0)
    (hsched : schedulePluginInstructions hp c.engine c.result = .ok e)
    (hc : c' = { c with phase := .nextBar, engine := e.finishBar hp })
    (hsorted : (c.engine.processed.map AggregateBarResult.unixTsNs).Pairwise (· ≤ ·)) :
    Closed hp (history ++ closedBar hp c) c' := by
  have hsame := sameAccount_scheduled hsched
  have hbar : closedBar hp c = [(c.engine.state.currentTimestampNs, c.engine.state.calculateEquity)] := by
    rw [closedBar, if_pos ⟨hphase, hcode, by rw [hsched]; rfl⟩]
  have hprocessed := h.processed
  rw [if_neg (by rw [hphase]; nofun)] at hprocessed
  have hle : ∀ x ∈ history, x.1 ≤ c.engine.state.currentTimestampNs := by
    intro x hx
    rw [hprocessed, List.pairwise_append] at hsorted
    exact hsorted.2.2 x.1 (List.mem_map_of_mem hx) _ (List.mem_singleton_self _)
  rw [hbar, hc]
  constructor
  · show CurveOf hp _ (e.state.recordBarEquitySnapshot hp).clearPreviousBarState
    rw [hsame.state]
    exact (h.curve.record hle).congr rfl rfl rfl
  · obtain ⟨curve, peak, drawdown, hfin⟩ := finishBar_frame e hp
    rw [hfin, if_pos rfl, List.append_nil, List.map_append]
    show e.processed.map _ = _
    rw [hsame.processed, hprocessed]
    rfl

/-- Over bars with non-decreasing timestamps, the curve, the peak and the maximum drawdown are those of the bars
closed so far. -/
theorem equity_curve_spec (hsorted : (feed.map fun item => item.bar.unixTsNs).Pairwise (· ≤ ·))
    {history : List (ℤ × Money)}
    (h : Loop.Trace (step createUuid hp) (closedBar hp) (start hp feed) history c) : Closed hp history c := by
  refine Loop.trace_invariant (P := Closed hp) ⟨.start hp, rfl⟩ ?_ h
  intro history c c' hr hI hs
  have hprocessed : (c.engine.processed.map AggregateBarResult.unixTsNs).Pairwise (· ≤ ·) := by
    have hsub := (processed_sublist hr).map AggregateBarResult.unixTsNs
    rw [List.map_map] at hsub
    have hall := hsorted.sublist hsub
    rw [List.map_append] at hall
    exact (List.pairwise_append.1 hall).1
  cases step_kinds hs with
  | execute o e hn hphase _ _ he =>
    have hsame := nextExecution_sameAccount hn
    have hon : c.phase ≠ .onBar := fun hon => by
      rw [nextExecution, hon] at hn
      cases hn
    refine closed_congr hI hs (fun h => absurd h hon) (by rw [hphase]) ?_ ?_ ?_
    · rw [he, ← hsame.state]
      exact execute_curve createUuid hp e o
    · rw [he, (execute_marketData createUuid hp e o).1, hsame.processed]
    · rw [he, ← hsame.state]
      exact execute_currentTimestampNs createUuid hp e o
  | closed item hphase _ hc =>
    have hphase' : c'.phase = .nextBar := by rw [hc]; exact hphase
    refine closed_congr hI hs (fun h => by rw [hphase] at h; cases h) (by rw [hphase', hphase]) ?_ ?_ ?_
    · rw [hc]; exact ⟨rfl, rfl, rfl⟩
    · rw [hc]
    · rw [hc]
  | bar item hphase _ hc =>
    rw [closedBar_eq_nil hs (fun h => by rw [hphase] at h; cases h), List.append_nil, hc]
    refine ⟨hI.curve.congr rfl rfl rfl, ?_⟩
    have hbefore := hI.processed
    rw [if_pos hphase, List.append_nil] at hbefore
    show (c.engine.processed ++ [item.bar]).map _ = _
    rw [List.map_append, hbefore]
    rfl
  | finish e hphase hsched hc =>
    have hcode : c.result.code = 0 := by
      by_contra hcode
      simp only [step, hphase, hcode, ne_eq, not_false_eq_true, if_true] at hs
      have := congrArg Config.phase (Option.some.inj hs)
      rw [hc] at this
      cases this
    exact closed_finish hI hphase hcode hsched hc hprocessed
  | throw t hphase hsched hc =>
    have hsame := sameAccount_thrown hsched
    rw [hc] at hs ⊢
    have hfailed : c.phase ≠ .nextBar := fun h => by
      rw [hphase] at h
      cases h
    refine closed_congr hI hs (fun _ h => by cases h) (iff_of_false (fun h => by cases h) hfailed) ?_
      hsame.processed ?_
    · rw [hsame.state]; exact ⟨rfl, rfl, rfl⟩
    · rw [hsame.state]
  | move hphase hfeed _ hsame _ _ =>
    have hnext : c.phase ≠ .nextBar := fun h => by
      obtain ⟨item, hitem⟩ := feed_of_nextBar hs h
      rw [hfeed] at hitem
      exact List.cons_ne_self item c.feed hitem.symm
    refine closed_congr hI hs (fun _ => hphase) (iff_of_false hphase hnext) ?_ hsame.processed ?_
    · rw [hsame.state]; exact ⟨rfl, rfl, rfl⟩
    · rw [hsame.state]

/-- Ten shares bought at 100; the price falls to 90 on a second bar of the same timestamp and rises to 120. -/
def sameTimestampFeed : List FeedItem :=
  [⟨sampleBar "A" 100 1000 1, { instructions := [.order (sampleOrder "A" "buy" 10)] }⟩,
    ⟨sampleBar "A" 100 1000 2, {}⟩,
    ⟨sampleBar "A" 90 1000 2, {}⟩, ⟨sampleBar "A" 120 1000 3, {}⟩]

/-- Four bars are closed and three snapshots are kept. -/
theorem equity_curve_spec_same_timestamp :
    let c := sampleRun sampleParams sameTimestampFeed 40
    let history := Loop.events (step sampleUuid sampleParams) (closedBar sampleParams) 40
      (start sampleParams sameTimestampFeed)
    history = [(1, 1000000000000), (2, 1000000000000), (2, 999900000000), (3, 1000200000000)] ∧
      (c.engine.state.equityCurve.map fun x => (x.timestampNs, x.equity, x.maxDrawdown)) =
        [(1, 1000000000000, 0), (2, 999900000000, 1 / 10000), (3, 1000200000000, 1 / 10000)] ∧
      Closed sampleParams history c := by
  intro c history
  exact ⟨by decide +kernel, by decide +kernel, equity_curve_spec (by decide +kernel) (Loop.trace_iter _ _ 40 _)⟩

end BackTestEngine

end QuantForge
