import QuantForge.PluginView

/-!
# Strategies

A back test of a strategy: the plugin remembers what it likes and answers each call of `on_bar` from what it has been
shown.  The runs of strategies are the runs over feeds in which the answers are given beforehand
(`strategy_runs_iff`), so that what is proved of every feed holds for every strategy.  A strategy cannot see what is
to come: what it has been shown and the account it has are the same whatever bars follow (`no_peeking`).
-/

namespace QuantForge

/-- A plugin as the engine sees it: what it remembers, and its `on_bar`. -/
structure Strategy (σ : Type) where
  memory : σ
  onBar : σ → CBar → CState → σ × PluginResult

/-- A back test with its plugin.  The results in the feed of `config` are not looked at. -/
structure Session (σ : Type) where
  config : BackTestEngine.Config
  memory : σ

namespace BackTestEngine

variable {createUuid : ℕ → Uuid} {hp : HostParams}

/-- A bar of a session, whose result is still to come. -/
def unanswered (bar : AggregateBarResult) : FeedItem := ⟨bar, {}⟩

theorem map_bar_unanswered (bars : List AggregateBarResult) : (bars.map unanswered).map FeedItem.bar = bars := by
  simp [unanswered, Function.comp_def]

/-- A call of `on_bar` with its answer, if the step makes one. -/
def answered (c : Config) : List ((CBar × CState) × PluginResult) := (handed c).map fun v => (v, c.result)

/-- The bars still to come. -/
def Config.bars (c : Config) : List AggregateBarResult := c.feed.map FeedItem.bar

end BackTestEngine

namespace Session

open BackTestEngine

variable {σ : Type} (strategy : Strategy σ) (createUuid : ℕ → Uuid) (hp : HostParams)

def start (bars : List AggregateBarResult) : Session σ :=
  ⟨BackTestEngine.start hp (bars.map unanswered), strategy.memory⟩

/-- The session with the answer to the call it is about to make, if it is about to make one. -/
def ask (s : Session σ) : Session σ :=
  match handed s.config with
  | [] => s
  | v :: _ => ⟨{ s.config with result := (strategy.onBar s.memory v.1 v.2).2 }, (strategy.onBar s.memory v.1 v.2).1⟩

/-- One step of `run`. -/
def step (s : Session σ) : Option (Session σ) :=
  (BackTestEngine.step createUuid hp (s.ask strategy).config).map fun c => ⟨c, (s.ask strategy).memory⟩

/-- The call of `on_bar` in a step, with the answer of the strategy. -/
def calls (s : Session σ) : List ((CBar × CState) × PluginResult) := answered (s.ask strategy).config

end Session

namespace BackTestEngine

/-! ### What a step inside a bar looks at -/

/-- The configuration with other bars to come, and the answers given for them. -/
def Config.withFeed (c : Config) (feed : List FeedItem) (result : PluginResult) : Config :=
  { c with feed := feed, result := result }

/-- A step inside a bar does not look at the bars to come, and only the end of the bar looks at the answer. -/
theorem step_withFeed {c : Config} (hphase : c.phase ≠ .nextBar) (feed : List FeedItem) {result : PluginResult}
    (hresult : c.phase = .onBar → result = c.result) :
    step createUuid hp (c.withFeed feed result) = (step createUuid hp c).map fun c' => c'.withFeed feed result := by
  obtain ⟨feed', phase, result', e⟩ := c
  cases phase with
  | nextBar => exact absurd rfl hphase
  | orderBook bar =>
    simp only [step, Config.withFeed]
    split <;> rfl
  | buyLimits symbols =>
    simp only [step, Config.withFeed]
    split <;> rfl
  | sellLimits symbols =>
    simp only [step, Config.withFeed]
    split <;> rfl
  | stopLosses l =>
    simp only [step, Config.withFeed]
    split <;> rfl
  | takeProfits l =>
    simp only [step, Config.withFeed]
    split <;> rfl
  | onBar =>
    obtain rfl := hresult rfl
    by_cases hcode : result.code = 0
    · cases hsched : schedulePluginInstructions hp e result <;> simp [step, Config.withFeed, hcode, hsched]
    · simp [step, Config.withFeed, hcode]
  | failed message => rfl

/-- A step inside a bar leaves the bars to come and the answer alone. -/
theorem step_inside {c c' : Config} (hs : step createUuid hp c = some c') (hphase : c.phase ≠ .nextBar) :
    c'.feed = c.feed ∧ c'.result = c.result := by
  have h : step createUuid hp c = (step createUuid hp c).map fun c' => c'.withFeed c.feed c.result :=
    step_withFeed hphase c.feed fun _ => rfl
  rw [hs] at h
  have hc' : c' = c'.withFeed c.feed c.result := Option.some.inj h
  exact ⟨by rw [hc']; rfl, by rw [hc']; rfl⟩

/-- A step between two bars skips the next bar or takes it up. -/
theorem step_between {c c' : Config} (hs : step createUuid hp c = some c') (hphase : c.phase = .nextBar) :
    ∃ item feed, c.feed = item :: feed ∧
      (Exchange.isWithinMarketHourRestrictions item.bar.unixTsNs hp = false ∧ c' = c.withFeed feed c.result ∨
        Exchange.isWithinMarketHourRestrictions item.bar.unixTsNs hp = true ∧
          c' = ⟨feed, .orderBook item.bar, item.result, c.engine.prepareNextBar item.bar⟩) := by
  obtain ⟨feed, phase, result, e⟩ := c
  obtain rfl : phase = .nextBar := hphase
  cases feed with
  | nil => cases hs
  | cons item feed =>
    cases hopen : Exchange.isWithinMarketHourRestrictions item.bar.unixTsNs hp with
    | false =>
      obtain rfl : _ = c' := by simpa [step, hopen] using hs
      exact ⟨item, feed, rfl, Or.inl ⟨hopen, rfl⟩⟩
    | true =>
      obtain rfl : _ = c' := by simpa [step, hopen] using hs
      exact ⟨item, feed, rfl, Or.inr ⟨hopen, rfl⟩⟩

/-- The next bar is skipped, whatever the bars after it. -/
theorem step_skipped {c : Config} (hphase : c.phase = .nextBar) {item : FeedItem} {feed : List FeedItem}
    (hfeed : c.feed = item :: feed) (hclosed : Exchange.isWithinMarketHourRestrictions item.bar.unixTsNs hp = false) :
    step createUuid hp c = some (c.withFeed feed c.result) := by
  simp [step, hphase, hfeed, hclosed, Config.withFeed]

/-- The next bar is taken up, whatever the bars after it. -/
theorem step_taken {c : Config} (hphase : c.phase = .nextBar) {item : FeedItem} {feed : List FeedItem}
    (hfeed : c.feed = item :: feed) (hopen : Exchange.isWithinMarketHourRestrictions item.bar.unixTsNs hp = true) :
    step createUuid hp c = some ⟨feed, .orderBook item.bar, item.result, c.engine.prepareNextBar item.bar⟩ := by
  simp [step, hphase, hfeed, hopen]

/-- After an exception there is no step. -/
theorem isReported_of_step {c c' : Config} (hs : step createUuid hp c = some c') (hphase : c.phase ≠ .nextBar) :
    c.phase.isReported = false := by
  obtain ⟨feed, phase, result, e⟩ := c
  cases phase with
  | nextBar => exact absurd rfl hphase
  | failed message => cases hs
  | _ => rfl

/-- A step before the call does not end the bar. -/
theorem isReported_of_inside {c c' : Config} (hs : step createUuid hp c = some c') (hphase : c.phase ≠ .nextBar)
    (hon : c.phase ≠ .onBar) : c'.phase.isReported = false := by
  have hnext : c'.phase ≠ .nextBar := by
    cases step_kinds hs with
    | execute _ _ _ h => rw [h]; exact hphase
    | closed _ h => exact absurd h hphase
    | bar _ h => exact absurd h hphase
    | finish _ h => exact absurd h hon
    | throw _ h => exact absurd h hon
    | move h => exact h
  rcases step_phases hs hphase hnext with ⟨h, -⟩ | ⟨-, -, h⟩
  · exact absurd h hon
  · exact h

/-- What a step at the end of a bar leads to. -/
theorem isReported_of_onBar {c c' : Config} (hs : step createUuid hp c = some c') (hphase : c.phase = .onBar) :
    c'.phase.isReported = true := by
  by_cases h' : c'.phase = .nextBar
  · rw [h']
    rfl
  · rcases step_phases hs (by rw [hphase]; simp) h' with ⟨-, h⟩ | ⟨h, -⟩
    · exact h
    · exact absurd hphase h

end BackTestEngine

namespace Session

open BackTestEngine

variable {σ : Type} {strategy : Strategy σ} {createUuid : ℕ → Uuid} {hp : HostParams}

theorem ask_of_not_onBar (strategy : Strategy σ) {s : Session σ} (h : s.config.phase ≠ .onBar) :
    s.ask strategy = s := by
  unfold ask handed
  rw [if_neg h]

/-- Asking the strategy changes the answer only. -/
theorem ask_config (s : Session σ) :
    (s.ask strategy).config = s.config.withFeed s.config.feed (s.ask strategy).config.result := by
  unfold ask
  split <;> rfl

/-- The run over a feed that has got as far as the session: the same place, account and bars to come, and between two
bars the same answer. -/
structure Follows (s : Session σ) (c : Config) : Prop where
  phase : c.phase = s.config.phase
  engine : c.engine = s.config.engine
  bars : c.bars = s.config.bars
  result : s.config.phase.isReported = true → c.result = s.config.result

theorem Follows.eq {s : Session σ} {c : Config} (h : s.Follows c) : s.config.withFeed c.feed c.result = c := by
  rw [Config.withFeed, ← h.phase, ← h.engine]

/-- The answers of a strategy are known once they have been given: a step of the session is the step of the run over
the feed that holds them. -/
private theorem Follows.back {s s' : Session σ} {c' : Config} (hs : s.step strategy createUuid hp = some s')
    (h : s'.Follows c') :
    ∃ c, BackTestEngine.step createUuid hp c = some c' ∧ s.Follows c ∧ answered c = s.calls strategy := by
  obtain ⟨d, hd, rfl⟩ := Option.map_eq_some_iff.1 hs
  have heq : d.withFeed c'.feed c'.result = c' := h.eq
  by_cases hphase : s.config.phase = .nextBar
  · have hask : s.ask strategy = s := ask_of_not_onBar strategy (by rw [hphase]; simp)
    have hsilent : handed s.config = [] := if_neg (by rw [hphase]; simp)
    rw [hask] at hd
    obtain ⟨item, feed, hitem, htaken⟩ := step_between hd hphase
    have hdfeed : d.feed = feed := by rcases htaken with ⟨-, rfl⟩ | ⟨-, rfl⟩ <;> rfl
    set c := s.config.withFeed (⟨item.bar, c'.result⟩ :: c'.feed) s.config.result with hc
    have hbars : c.bars = s.config.bars := by
      show item.bar :: c'.bars = s.config.bars
      rw [h.bars, Config.bars, Config.bars, hitem, hdfeed]
      rfl
    refine ⟨c, ?_, ⟨rfl, rfl, hbars, fun _ => rfl⟩, ?_⟩
    · rcases htaken with ⟨hclosed, rfl⟩ | ⟨hopen, rfl⟩
      · have hresult : c'.result = s.config.result := h.result (by
          show s.config.phase.isReported = true
          rw [hphase]
          rfl)
        rw [step_skipped (c := c) hphase rfl hclosed, ← heq, hresult]
        rfl
      · rw [step_taken (c := c) hphase rfl hopen, ← heq]
        rfl
    · rw [calls, hask, answered, answered, hsilent]
      exact congrArg _ hsilent
  · set a := (s.ask strategy).config with ha
    have haphase : a.phase = s.config.phase := by rw [ha, ask_config]; rfl
    have hanext : a.phase ≠ .nextBar := by rw [haphase]; exact hphase
    obtain ⟨hfeed, hresult⟩ := step_inside hd hanext
    have hon : a.phase = .onBar → c'.result = a.result := fun hon => by
      rw [h.result (isReported_of_onBar hd hon)]
      exact hresult
    have hrep : s.config.phase.isReported = false := haphase ▸ isReported_of_step hd hanext
    refine ⟨a.withFeed c'.feed c'.result, ?_, ⟨haphase, ?_, ?_, fun h => absurd h (by rw [hrep]; simp)⟩, ?_⟩
    · rw [step_withFeed hanext _ hon, hd]
      exact congrArg some heq
    · rw [ha, ask_config]
      rfl
    · show c'.bars = s.config.bars
      rw [h.bars, Config.bars, Config.bars, hfeed, ha, ask_config]
      rfl
    · by_cases hbar : a.phase = .onBar
      · rw [hon hbar]
        rfl
      · have hsilent : handed a = [] := if_neg hbar
        rw [calls, answered, answered, ← ha, hsilent]
        exact congrArg _ hsilent

end Session

/-! ### The answers given beforehand -/

/-- The strategy that answers what it is told to, whatever it is shown. -/
def Strategy.replay (results : List PluginResult) : Strategy (List PluginResult) where
  memory := results
  onBar memory _ _ := (memory.tail, memory.headD {})

namespace BackTestEngine

/-- The answers to the calls that are still to come: those for bars outside the market hours are never asked for. -/
def Config.answers (hp : HostParams) (c : Config) : List PluginResult :=
  (if c.phase.isReported then [] else [c.result]) ++
    (c.feed.filter fun item => Exchange.isWithinMarketHourRestrictions item.bar.unixTsNs hp).map FeedItem.result

end BackTestEngine

namespace Session

open BackTestEngine

variable {createUuid : ℕ → Uuid} {hp : HostParams} {results : List PluginResult}

/-- The session of the replayed answers that has got as far as the run over the feed. -/
structure Replays (hp : HostParams) (c : Config) (s : Session (List PluginResult)) : Prop where
  phase : s.config.phase = c.phase
  engine : s.config.engine = c.engine
  bars : s.config.bars = c.bars
  memory : s.memory = c.answers hp

theorem Replays.eq {c : Config} {s : Session (List PluginResult)} (h : Replays hp c s) :
    c.withFeed s.config.feed s.config.result = s.config := by
  rw [Config.withFeed, ← h.phase, ← h.engine]

private theorem Replays.forth {feed : List FeedItem} {c c' : Config} {s : Session (List PluginResult)}
    (hr : Reachable createUuid hp feed c) (h : Replays hp c s) (hs : BackTestEngine.step createUuid hp c = some c') :
    ∃ s', s.step (Strategy.replay results) createUuid hp = some s' ∧ Replays hp c' s' ∧
      s.calls (Strategy.replay results) = answered c := by
  by_cases hphase : c.phase = .nextBar
  · have hphase' : s.config.phase = .nextBar := h.phase.trans hphase
    have hask : s.ask (Strategy.replay results) = s := ask_of_not_onBar _ (by rw [hphase']; simp)
    have hsilent : ∀ c : Config, c.phase = .nextBar → answered c = [] := fun c hc => by
      rw [answered, handed, if_neg (by rw [hc]; simp)]
      rfl
    have hcalls : s.calls (Strategy.replay results) = answered c := by
      rw [calls, hask, hsilent _ hphase, hsilent _ hphase']
    obtain ⟨item, feed', hitem, htaken⟩ := step_between hs hphase
    have hbars := h.bars
    rw [Config.bars, Config.bars, hitem, List.map_cons] at hbars
    obtain ⟨item', feed'', hfeed', hbar, hrest⟩ := List.map_eq_cons_iff.1 hbars
    have hmemory := h.memory
    rw [Config.answers, hphase, hitem] at hmemory
    rcases htaken with ⟨hclosed, rfl⟩ | ⟨hopen, rfl⟩
    · refine ⟨⟨s.config.withFeed feed'' s.config.result, s.memory⟩, ?_, ⟨h.phase, h.engine, hrest, ?_⟩, hcalls⟩
      · rw [step, hask, step_skipped hphase' hfeed' (by rw [hbar]; exact hclosed)]
        rfl
      · have hskip : ¬ Exchange.isWithinMarketHourRestrictions item.bar.unixTsNs hp = true := by simp [hclosed]
        rw [hmemory, List.filter_cons, if_neg hskip, Config.answers, Config.withFeed, hphase]
    · refine ⟨⟨⟨feed'', .orderBook item'.bar, item'.result, s.config.engine.prepareNextBar item'.bar⟩, s.memory⟩, ?_,
        ⟨by rw [hbar], by rw [hbar, h.engine], hrest, ?_⟩, hcalls⟩
      · rw [step, hask, step_taken hphase' hfeed' (by rw [hbar]; exact hopen)]
        rfl
      · rw [hmemory, List.filter_cons, if_pos hopen]
        rfl
  · have hrep : c.phase.isReported = false := isReported_of_step hs hphase
    obtain ⟨hfeed, hresult⟩ := step_inside hs hphase
    by_cases hon : c.phase = .onBar
    · -- the call: the strategy takes the next of its answers
      obtain ⟨bar, hhanded⟩ := handed_of_onBar hr hon
      have hhanded' : handed s.config = handed c := by rw [← h.eq]; rfl
      have hmemory : s.memory = c.result :: s.memory.tail := by
        rw [h.memory, Config.answers, hrep]
        rfl
      have hask : s.ask (Strategy.replay results) = ⟨c.withFeed s.config.feed c.result, s.memory.tail⟩ := by
        rw [ask, hhanded', hhanded]
        show (⟨{ s.config with result := s.memory.headD {} }, s.memory.tail⟩ : Session _) = _
        rw [hmemory, List.headD_cons, List.tail_cons, ← h.eq]
        rfl
      refine ⟨⟨c'.withFeed s.config.feed c.result, s.memory.tail⟩, ?_, ⟨rfl, rfl, ?_, ?_⟩, ?_⟩
      · rw [step, hask, step_withFeed hphase _ fun _ => rfl, hs]
        rfl
      · show s.config.bars = c'.bars
        rw [h.bars, Config.bars, Config.bars, hfeed]
      · rw [h.memory, Config.answers, Config.answers, hrep, isReported_of_onBar hs hon, hfeed]
        rfl
      · rw [calls, hask]
        rfl
    · have hask : s.ask (Strategy.replay results) = s := ask_of_not_onBar _ (by rw [h.phase]; exact hon)
      have hsilent : handed c = [] := if_neg hon
      have hrep' : c'.phase.isReported = false := isReported_of_inside hs hphase hon
      refine ⟨⟨c'.withFeed s.config.feed s.config.result, s.memory⟩, ?_, ⟨rfl, rfl, ?_, ?_⟩, ?_⟩
      · rw [step, hask, ← h.eq, step_withFeed hphase _ fun h => absurd h hon, hs]
        rfl
      · show s.config.bars = c'.bars
        rw [h.bars, Config.bars, Config.bars, hfeed]
      · rw [h.memory, Config.answers, Config.answers, hrep, hrep', hfeed, hresult]
      · rw [calls, hask, answered, answered, hsilent, ← h.eq]
        exact congrArg _ hsilent

/-- The calls of `on_bar` with their answers, the account and the place in `run` that a strategy can lead to are those
that some feed with the same bars can lead to, whose answers are given beforehand. -/
theorem strategy_runs_iff (bars : List AggregateBarResult) (evs : List ((CBar × CState) × PluginResult))
    (phase : Phase) (engine : BackTestEngine) :
    (∃ (σ : Type) (strategy : Strategy σ) (s : Session σ),
        Loop.Trace (step strategy createUuid hp) (calls strategy) (start strategy hp bars) evs s ∧
          s.config.phase = phase ∧ s.config.engine = engine) ↔
      ∃ (feed : List FeedItem) (c : Config), feed.map FeedItem.bar = bars ∧
        Loop.Trace (BackTestEngine.step createUuid hp) answered (BackTestEngine.start hp feed) evs c ∧
          c.phase = phase ∧ c.engine = engine := by
  constructor
  · rintro ⟨σ, strategy, s, h, rfl, rfl⟩
    obtain ⟨c, hc, htrace⟩ := h.simulate_back (fun _ _ _ => Follows.back)
      (show Follows s s.config from ⟨rfl, rfl, rfl, fun _ => rfl⟩)
    have hstart : BackTestEngine.start hp c.feed = c := by
      rw [← hc.eq, hc.result rfl]
      rfl
    exact ⟨c.feed, s.config, hc.bars.trans (map_bar_unanswered bars), hstart ▸ htrace, rfl, rfl⟩
  · rintro ⟨feed, c, rfl, h, rfl, rfl⟩
    set replayed := Strategy.replay (Config.answers hp (BackTestEngine.start hp feed))
    obtain ⟨s, hs, htrace⟩ := h.simulate (fun _ _ _ hr hR hs => Replays.forth hr hR hs)
      (show Replays hp _ (start replayed hp (feed.map FeedItem.bar)) from ⟨rfl, rfl, map_bar_unanswered _, rfl⟩)
    exact ⟨_, replayed, s, htrace, hs.phase, hs.engine⟩

/-! ### What is to come -/

section Causality

variable {σ : Type} {strategy : Strategy σ} {bars : List AggregateBarResult} {later later' : List FeedItem}

/-- The session with other bars at the end of the feed. -/
def Continues (later later' : List FeedItem) (s s' : Session σ) : Prop :=
  ∃ l, s.config.feed = l ++ later ∧ s' = ⟨s.config.withFeed (l ++ later') s.config.result, s.memory⟩

/-- Asking the strategy does not depend on the bars to come. -/
theorem ask_withFeed (s : Session σ) (feed : List FeedItem) :
    (⟨s.config.withFeed feed s.config.result, s.memory⟩ : Session σ).ask strategy =
      ⟨(s.ask strategy).config.withFeed feed (s.ask strategy).config.result, (s.ask strategy).memory⟩ := by
  have hsame : handed (s.config.withFeed feed s.config.result) = handed s.config := rfl
  unfold ask
  rw [hsame]
  split <;> rfl

private theorem Continues.back {s s₁ s₁' : Session σ} (hs : s.step strategy createUuid hp = some s₁)
    (h : Continues later later' s₁ s₁') :
    ∃ s', s'.step strategy createUuid hp = some s₁' ∧ Continues later later' s s' ∧
      s'.calls strategy = s.calls strategy := by
  obtain ⟨d, hd, rfl⟩ := Option.map_eq_some_iff.1 hs
  obtain ⟨l, hl, rfl⟩ := h
  have hcalls : ∀ feed, (⟨s.config.withFeed feed s.config.result, s.memory⟩ : Session σ).calls strategy =
      s.calls strategy := fun feed => by
    rw [calls, ask_withFeed]
    rfl
  by_cases hphase : s.config.phase = .nextBar
  · have hask : s.ask strategy = s := ask_of_not_onBar strategy (by rw [hphase]; simp)
    rw [hask] at hd ⊢
    obtain ⟨item, feed, hitem, htaken⟩ := step_between hd hphase
    have hdfeed : d.feed = feed := by rcases htaken with ⟨-, rfl⟩ | ⟨-, rfl⟩ <;> rfl
    set c := s.config.withFeed (item :: (l ++ later')) s.config.result
    refine ⟨⟨c, s.memory⟩, ?_, ⟨item :: l, ?_, rfl⟩, hcalls _⟩
    · rw [step, ask_withFeed, hask]
      show (BackTestEngine.step createUuid hp c).map (fun c => (⟨c, s.memory⟩ : Session σ)) = _
      rcases htaken with ⟨hclosed, rfl⟩ | ⟨hopen, rfl⟩
      · rw [step_skipped (c := c) hphase rfl hclosed]
        rfl
      · rw [step_taken (c := c) hphase rfl hopen]
        rfl
    · rw [hitem, ← hdfeed, hl]
      rfl
  · have haphase : (s.ask strategy).config.phase ≠ .nextBar := by
      rw [ask_config]
      exact hphase
    obtain ⟨hfeed, hresult⟩ := step_inside hd haphase
    refine ⟨⟨s.config.withFeed (l ++ later') s.config.result, s.memory⟩, ?_, ⟨l, ?_, rfl⟩, hcalls _⟩
    · rw [step, ask_withFeed, step_withFeed haphase _ fun _ => rfl, hd]
      show some _ = some (⟨d.withFeed (l ++ later') d.result, (s.ask strategy).memory⟩ : Session σ)
      rw [hresult]
    · rw [← hl, hfeed, ask_config]
      rfl

/-- Bars are taken from the front. -/
theorem feed_suffix {s : Session σ}
    (hr : StateTransition.Reaches (step strategy createUuid hp) (start strategy hp bars) s) :
    s.config.feed <:+ bars.map unanswered := by
  refine Loop.reaches_invariant (P := fun s : Session σ => s.config.feed <:+ bars.map unanswered) ?_
    (List.suffix_refl _) hr
  intro s s' h hs
  obtain ⟨d, hd, rfl⟩ := Option.map_eq_some_iff.1 hs
  have hask : (s.ask strategy).config.feed = s.config.feed := by rw [ask_config]; rfl
  by_cases hphase : (s.ask strategy).config.phase = .nextBar
  · obtain ⟨item, feed, hitem, htaken⟩ := step_between hd hphase
    have hdfeed : d.feed = feed := by rcases htaken with ⟨-, rfl⟩ | ⟨-, rfl⟩ <;> rfl
    refine List.IsSuffix.trans ?_ h
    rw [← hask, hitem, hdfeed]
    exact List.suffix_cons item feed
  · show d.feed <:+ _
    rw [(step_inside hd hphase).1, hask]
    exact h

/-- A strategy cannot see what is to come: as long as only the bars of `past` have been taken up, the calls and their
answers, what the plugin remembers and the whole account are the same with any other bars in the place of `future`. -/
theorem no_peeking {past future future' : List AggregateBarResult} {evs : List ((CBar × CState) × PluginResult)}
    {s : Session σ}
    (h : Loop.Trace (step strategy createUuid hp) (calls strategy) (start strategy hp (past ++ future)) evs s)
    (hpast : future.length ≤ s.config.bars.length) :
    ∃ s', Loop.Trace (step strategy createUuid hp) (calls strategy) (start strategy hp (past ++ future')) evs s' ∧
      s'.memory = s.memory ∧ s'.config.phase = s.config.phase ∧ s'.config.engine = s.config.engine := by
  have hsuffix : future.map unanswered <:+ s.config.feed := by
    refine List.suffix_of_suffix_length_le ?_ (feed_suffix h.reaches) ?_
    · rw [List.map_append]
      exact List.suffix_append _ _
    · rw [List.length_map]
      rwa [Config.bars, List.length_map] at hpast
  obtain ⟨l, hl⟩ := hsuffix
  obtain ⟨t, ⟨l', hl', ht⟩, htrace⟩ := h.simulate_back (fun _ _ _ => Continues.back)
    (show Continues (future.map unanswered) (future'.map unanswered) s _ from ⟨l, hl.symm, rfl⟩)
  have hl'' : past.map unanswered = l' :=
    List.append_cancel_right (List.map_append.symm.trans hl')
  have hstart : t = start strategy hp (past ++ future') := by
    rw [ht, ← hl'', ← List.map_append]
    rfl
  subst hstart
  exact ⟨_, htrace, rfl, rfl, rfl⟩

/-- Buys ten shares when the close has risen, and sells them when it has fallen; it remembers the last close. -/
def trendFollower : Strategy ℚ where
  memory := 0
  onBar last bar state := (bar.close,
    if last = 0 then {}
    else if last < bar.close ∧ state.quantityOf bar.symbol = 0 then
      { instructions := [.order (sampleOrder bar.symbol "buy" 10)] }
    else if bar.close < last ∧ state.quantityOf bar.symbol = 10 then
      { instructions := [.order (sampleOrder bar.symbol "sell" 10)] }
    else {})

/-- It buys on the second bar and holds ten shares after the third, whatever the fourth bar is. -/
theorem no_peeking_trend :
    let past := [sampleBar "A" 100 1000 1, sampleBar "A" 110 1000 2, sampleBar "A" 105 1000 3]
    let session := start trendFollower sampleParams (past ++ [sampleBar "A" 120 1000 4])
    let s := Loop.iter (step trendFollower sampleUuid sampleParams) 22 session
    (s.config.bars.length, s.memory, s.config.engine.state.positionQuantity "A") = (1, 105, 10) ∧
      ∀ price, ∃ s', Loop.Trace (step trendFollower sampleUuid sampleParams) (calls trendFollower)
          (start trendFollower sampleParams (past ++ [sampleBar "A" price 1000 4]))
          (Loop.events (step trendFollower sampleUuid sampleParams) (calls trendFollower) 22 session) s' ∧
        s'.config.engine = s.config.engine := by
  intro past session s
  have h : Loop.Trace (step trendFollower sampleUuid sampleParams) (calls trendFollower) session _ s :=
    Loop.trace_iter _ _ 22 _
  have hpast : [sampleBar "A" 120 1000 4].length ≤ s.config.bars.length := by decide +kernel
  exact ⟨by decide +kernel, fun price => (no_peeking h hpast).imp fun s' h => ⟨h.1, h.2.2.2⟩⟩

end Causality

end Session

end QuantForge
