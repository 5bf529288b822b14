import QuantForge.Steps

/-!
# Runs of the engine

How to prove something of every reachable configuration: `reachable_run` and `reachable_induction` for configurations,
`reachable_account` for the account, which only changes when a bar is taken up or closed and when an order is
executed, `reachable_ledger` for what only executions change, and `reachable_executions` for the executions
themselves.  A condition on the executions of a run is `ExecutionsMeet`.
-/

namespace QuantForge

namespace BackTestEngine

variable {createUuid : ℕ → Uuid} {hp : HostParams}

/-! ### Induction over a run -/

/-- Every execution of the run up to `c` meets `G`, a condition on the engine before the execution and on the
order. -/
def ExecutionsMeet (createUuid : ℕ → Uuid) (hp : HostParams) (feed : List FeedItem) (c : Config)
    (G : BackTestEngine → Order → Prop) : Prop :=
  ∀ c', Reachable createUuid hp feed c' → StateTransition.Reaches₁ (step createUuid hp) c' c →
    ∀ o e, nextExecution c' = some (o, e) → G e o

theorem ExecutionsMeet.mono {feed : List FeedItem} {c : Config} {G G' : BackTestEngine → Order → Prop}
    (h : ExecutionsMeet createUuid hp feed c G)
    (hG : ∀ c' o e, Reachable createUuid hp feed c' → nextExecution c' = some (o, e) → G e o → G' e o) :
    ExecutionsMeet createUuid hp feed c G' :=
  fun c' hr hc o e hn => hG c' o e hr hn (h c' hr hc o e hn)

theorem ExecutionsMeet.and {feed : List FeedItem} {c : Config} {G G' : BackTestEngine → Order → Prop}
    (h : ExecutionsMeet createUuid hp feed c G) (h' : ExecutionsMeet createUuid hp feed c G') :
    ExecutionsMeet createUuid hp feed c fun e o => G e o ∧ G' e o :=
  fun c' hr hc o e hn => ⟨h c' hr hc o e hn, h' c' hr hc o e hn⟩

theorem executionsMeet_true {feed : List FeedItem} {c : Config} :
    ExecutionsMeet createUuid hp feed c fun _ _ => True :=
  fun _ _ _ _ _ _ => trivial

/-- What is known of the account in every reachable configuration is known of it at every execution. -/
theorem executionsMeet_of_account {feed : List FeedItem} {c : Config} {J : BackTestEngine → Prop}
    (hsame : ∀ e e', SameAccount e e' → J e → J e') (h : ∀ c, Reachable createUuid hp feed c → J c.engine) :
    ExecutionsMeet createUuid hp feed c fun e _ => J e :=
  fun c' hr _ _ _ hn => hsame _ _ (nextExecution_sameAccount hn) (h c' hr)

/-- Induction over a run whose configurations up to the last one meet `G`. -/
theorem reachable_run {feed : List FeedItem} {J G : Config → Prop} (h0 : J (start hp feed))
    (hstep : ∀ c c', Reachable createUuid hp feed c → J c → step createUuid hp c = some c' → G c → J c')
    {c : Config}
    (hG : ∀ c', Reachable createUuid hp feed c' → StateTransition.Reaches₁ (step createUuid hp) c' c → G c')
    (hr : Reachable createUuid hp feed c) : J c := by
  induction hr with
  | refl => exact h0
  | tail hr hs ih =>
    refine hstep _ _ hr (ih ?_) hs (hG _ hr (Relation.TransGen.single hs))
    exact fun c'' hr'' hc'' => hG c'' hr'' (Relation.TransGen.tail hc'' hs)

/-- Induction over a run whose executions meet `G`, on configurations. -/
theorem reachable_induction {feed : List FeedItem} {J : Config → Prop} {G : BackTestEngine → Order → Prop}
    (h0 : J (start hp feed))
    (hstep : ∀ c c', Reachable createUuid hp feed c → J c → step createUuid hp c = some c' →
      (∀ o e, nextExecution c = some (o, e) → G e o) → J c')
    {c : Config} (hG : ExecutionsMeet createUuid hp feed c G) (hr : Reachable createUuid hp feed c) : J c :=
  reachable_run (G := fun c => ∀ o e, nextExecution c = some (o, e) → G e o) h0 hstep hG hr

private theorem recordBarEquitySnapshot_frame (s : State) (hp : HostParams) :
    ∃ curve peak drawdown, s.recordBarEquitySnapshot hp =
      { s with equityCurve := curve, peakEquity := peak, maxDrawdown := drawdown } := by
  unfold State.recordBarEquitySnapshot
  dsimp only
  split_ifs <;> split <;> (try split_ifs) <;> exact ⟨_, _, _, rfl⟩

/-- Closing a bar writes the equity curve and forgets the fills of the bar. -/
theorem finishBar_frame (e : BackTestEngine) (hp : HostParams) :
    ∃ curve peak drawdown, e.finishBar hp =
      { e with
        state := { e.state with
          equityCurve := curve, peakEquity := peak, maxDrawdown := drawdown, newFills := [],
            newExitOrders := [] } } := by
  obtain ⟨curve, peak, drawdown, h⟩ := recordBarEquitySnapshot_frame e.state hp
  refine ⟨curve, peak, drawdown, ?_⟩
  rw [finishBar, h]
  rfl

/-- The bars still to come are bars of the feed, and before a bar is taken up no fills are left of the last one. -/
theorem reachable_feed {feed : List FeedItem} {c : Config} (hr : Reachable createUuid hp feed c) :
    (∀ item ∈ c.feed, item ∈ feed) ∧ (c.phase = .nextBar → c.engine.state.newFills = []) := by
  refine reachable_induction (J := fun c => (∀ item ∈ c.feed, item ∈ feed) ∧
    (c.phase = .nextBar → c.engine.state.newFills = [])) ⟨fun _ h => h, fun _ => rfl⟩ ?_ executionsMeet_true hr
  rintro c c' - ⟨hsub, hnil⟩ hs -
  cases step_kinds hs with
  | execute o e hn hphase hf _ _ =>
    rw [hf, hphase]
    refine ⟨hsub, fun hp => ?_⟩
    rw [nextExecution, hp] at hn
    cases hn
  | closed item hphase hf hc =>
    rw [hf] at hsub
    rw [hc]
    exact ⟨fun i hi => hsub i (List.mem_cons_of_mem _ hi), fun _ => hnil hphase⟩
  | bar item _ hf hc =>
    rw [hf] at hsub
    rw [hc]
    exact ⟨fun i hi => hsub i (List.mem_cons_of_mem _ hi), fun h => by cases h⟩
  | finish e _ _ hc =>
    rw [hc]
    obtain ⟨curve, peak, drawdown, hfin⟩ := finishBar_frame e hp
    rw [hfin]
    exact ⟨hsub, fun _ => rfl⟩
  | throw t _ _ hc =>
    rw [hc]
    exact ⟨hsub, fun h => by cases h⟩
  | move hphase hf _ _ _ _ =>
    rw [hf]
    exact ⟨hsub, fun h => absurd h hphase⟩

/-- Induction over a run for a property of the account. -/
theorem reachable_account {feed : List FeedItem} {J : BackTestEngine → Prop} {G : BackTestEngine → Order → Prop}
    (h0 : J (start hp feed).engine) (hsame : ∀ e e', SameAccount e e' → J e → J e')
    (hbar : ∀ e, ∀ item ∈ feed, e.state.newFills = [] → J e → J (e.prepareNextBar item.bar))
    (hfin : ∀ e, J e → J (e.finishBar hp)) (hexec : ∀ e o, J e → G e o → J (execute createUuid hp e o))
    {c : Config} (hG : ExecutionsMeet createUuid hp feed c G) (hr : Reachable createUuid hp feed c) : J c.engine := by
  refine reachable_induction (J := fun c => J c.engine) h0 ?_ hG hr
  intro c c' hr hJ hs hn
  rcases step_account hs with h | ⟨item, hitem, hphase, h⟩ | ⟨o, e, hne, h⟩ | ⟨e, hse, h⟩
  · exact hsame _ _ h hJ
  · rw [h]
    obtain ⟨hfeed, hnil⟩ := reachable_feed hr
    exact hbar _ item (hfeed item hitem) (hnil hphase) hJ
  · rw [h]; exact hexec _ _ (hsame _ _ (nextExecution_sameAccount hne) hJ) (hn o e hne)
  · rw [h]; exact hfin _ (hsame _ _ hse hJ)

/-- Two engines with the same cash, positions, fills, lots and margins; they may differ in their books, in the market
data and in the equity curve. -/
structure SameLedger (e e' : BackTestEngine) : Prop where
  cash : e'.state.cash = e.state.cash
  marginInUse : e'.state.marginInUse = e.state.marginInUse
  positions : e'.state.positions = e.state.positions
  fills : e'.state.fills = e.state.fills
  active : ∀ d, e'.state.active d = e.state.active d
  activeMarginForFills : e'.state.activeMarginForFills = e.state.activeMarginForFills
  activeLeverageForFills : e'.state.activeLeverageForFills = e.state.activeLeverageForFills
  uuidCount : e'.uuidCount = e.uuidCount
  executions : e'.executions = e.executions

theorem SameLedger.trans {e e' e'' : BackTestEngine} (h : SameLedger e e') (h' : SameLedger e' e'') :
    SameLedger e e'' :=
  ⟨h'.cash.trans h.cash, h'.marginInUse.trans h.marginInUse, h'.positions.trans h.positions, h'.fills.trans h.fills,
    fun d => (h'.active d).trans (h.active d), h'.activeMarginForFills.trans h.activeMarginForFills,
    h'.activeLeverageForFills.trans h.activeLeverageForFills, h'.uuidCount.trans h.uuidCount,
    h'.executions.trans h.executions⟩

theorem SameAccount.sameLedger {e e' : BackTestEngine} (h : SameAccount e e') : SameLedger e e' := by
  obtain ⟨h1, h2, -, h4⟩ := h
  refine ⟨?_, ?_, ?_, ?_, fun d => ?_, ?_, ?_, h2, h4⟩ <;> rw [h1]

theorem sameLedger_prepareNextBar (e : BackTestEngine) (bar : AggregateBarResult) :
    SameLedger e (e.prepareNextBar bar) :=
  ⟨rfl, rfl, rfl, rfl, fun d => by cases d <;> rfl, rfl, rfl, rfl, rfl⟩

theorem sameLedger_finishBar (e : BackTestEngine) (hp : HostParams) : SameLedger e (e.finishBar hp) := by
  obtain ⟨curve, peak, drawdown, h⟩ := finishBar_frame e hp
  rw [h]
  exact ⟨rfl, rfl, rfl, rfl, fun d => by cases d <;> rfl, rfl, rfl, rfl, rfl⟩

/-- Induction over a run for a property of the ledger: only executions change it. -/
theorem reachable_ledger {feed : List FeedItem} {J : BackTestEngine → Prop} {G : BackTestEngine → Order → Prop}
    (h0 : J (start hp feed).engine) (hsame : ∀ e e', SameLedger e e' → J e → J e')
    (hexec : ∀ e o, J e → G e o → J (execute createUuid hp e o))
    {c : Config} (hG : ExecutionsMeet createUuid hp feed c G) (hr : Reachable createUuid hp feed c) : J c.engine :=
  reachable_account h0 (fun e e' h => hsame e e' h.sameLedger)
    (fun e item _ _ => hsame e _ (sameLedger_prepareNextBar e item.bar))
    (fun e => hsame e _ (sameLedger_finishBar e hp)) hexec
    hG hr

/-- Induction over a run for a property of each execution and the bars processed before it. -/
theorem reachable_executions {feed : List FeedItem} {P : List AggregateBarResult → Execution → Prop}
    {G : BackTestEngine → Order → Prop}
    (hexec : ∀ e o, G e o → Executor.Accepted o hp e.state (createUuid e.uuidCount) →
      P e.processed ⟨o, Executor.success o hp e.state (createUuid e.uuidCount), e.processed.length⟩)
    {c : Config} (hG : ExecutionsMeet createUuid hp feed c G) (hr : Reachable createUuid hp feed c) :
    ∀ x ∈ c.engine.executions, x.bar ≤ c.engine.processed.length ∧ P (c.engine.processed.take x.bar) x := by
  refine reachable_account (J := fun e => ∀ x ∈ e.executions,
    x.bar ≤ e.processed.length ∧ P (e.processed.take x.bar) x) ?_ ?_ ?_ ?_ ?_ hG hr
  · intro x hx
    cases hx
  · intro e e' hs h
    rw [hs.executions, hs.processed]
    exact h
  · intro e item _ _ h x hx
    obtain ⟨hbar, hP⟩ := h x hx
    show x.bar ≤ (e.processed ++ [item.bar]).length ∧ P ((e.processed ++ [item.bar]).take x.bar) x
    rw [List.take_append_of_le_length hbar, List.length_append]
    exact ⟨by omega, hP⟩
  · intro e h
    obtain ⟨curve, peak, drawdown, hf⟩ := finishBar_frame e hp
    rw [hf]
    exact h
  · intro e o h hmeet
    rcases execute_cases createUuid hp e o with he | ha
    · rw [he]
      exact h
    · rw [execute_accepted ha]
      intro x hx
      rcases List.mem_append.1 hx with hx | hx
      · exact h x hx
      · rw [List.mem_singleton.1 hx]
        refine ⟨le_refl _, ?_⟩
        rw [List.take_length]
        exact hexec e o hmeet ha

/-! ### Sample runs -/

/-- Uuids for sample runs. -/
def sampleUuid (n : ℕ) : Uuid := String.ofList (List.replicate n '1')

theorem sampleUuid_injective : Function.Injective sampleUuid := by
  intro m n h
  have := congrArg (fun u : Uuid => u.toList.length) h
  simpa [sampleUuid] using this

/-- A bar that stays at one price. -/
def sampleBar (symbol : Symbol) (price volume : ℚ) (unixTsNs : ℤ) : AggregateBarResult :=
  ⟨symbol, volume, price, price, price, price, unixTsNs⟩

/-- A market order without leverage and exits. -/
def sampleOrder (symbol : Symbol) (action : String) (quantity : ℚ) : COrder :=
  ⟨symbol, action, quantity, 1, nullMarketTriggerPrice, nullMarketTriggerPrice, nullMarketTriggerPrice,
    Constants.market⟩

/-- A million dollars and whole shares. -/
def sampleParams : HostParams := { initialCapital := 1000000000000 }

/-- A tenth of the volume may be filled. -/
def cappedParams : HostParams := { sampleParams with fillMaxPctOfVolume := some (1 / 10) }

/-- Bars of one symbol at the given prices; the plugin answers each with one market order. -/
def sampleFeed (symbol : Symbol) (volume : ℚ) (l : List (ℚ × String × ℚ)) : List FeedItem :=
  l.zipIdx.map fun p =>
    ⟨sampleBar symbol p.1.1 volume p.2, { instructions := [.order (sampleOrder symbol p.1.2.1 p.1.2.2)] }⟩

/-- The configuration after `n` steps. -/
def sampleRun (hp : HostParams) (feed : List FeedItem) (n : ℕ) : Config :=
  Loop.iter (step sampleUuid hp) n (start hp feed)

theorem reachable_sampleRun (hp : HostParams) (feed : List FeedItem) (n : ℕ) :
    Reachable sampleUuid hp feed (sampleRun hp feed n) :=
  Loop.reaches_iter _ _ _

/-- It is enough to look at the steps of a run that has ended. -/
theorem forall_before_sampleRun {hp : HostParams} {feed : List FeedItem} {m n : ℕ} {P : Config → Prop} (hmn : m ≤ n)
    (hend : step sampleUuid hp (sampleRun hp feed n) = none) (h : ∀ k < n, P (sampleRun hp feed k)) :
    ∀ c, Reachable sampleUuid hp feed c → StateTransition.Reaches₁ (step sampleUuid hp) c (sampleRun hp feed m) →
      P c := by
  intro c hr hc
  replace hc := Relation.TransGen.trans_left hc (Loop.reaches_iter_of_le _ hmn (start hp feed))
  obtain ⟨k, rfl⟩ := Loop.exists_iter_of_reaches hr
  by_cases hk : k < n
  · exact h k hk
  · have hkn : Loop.iter (step sampleUuid hp) k (start hp feed) = sampleRun hp feed n :=
      Loop.iter_of_none hend (not_lt.1 hk)
    rw [hkn] at hc
    obtain ⟨c', hc', -⟩ := Relation.TransGen.head'_iff.1 hc
    rw [Option.mem_def, hend] at hc'
    cases hc'

theorem executionsMeet_sampleRun {hp : HostParams} {feed : List FeedItem} {m n : ℕ}
    {G : BackTestEngine → Order → Prop} (hmn : m ≤ n) (hend : step sampleUuid hp (sampleRun hp feed n) = none)
    (h : ∀ k < n, ∀ p ∈ nextExecution (sampleRun hp feed k), G p.2 p.1) :
    ExecutionsMeet sampleUuid hp feed (sampleRun hp feed m) G :=
  fun c hr hc o e hn => forall_before_sampleRun (P := fun c => ∀ p ∈ nextExecution c, G p.2 p.1) hmn hend h c hr hc
    (o, e) hn

end BackTestEngine

end QuantForge
