import QuantForge.Strategies

/-!
# Bars outside the market hours

With `market_hours_only_` the run skips the bars outside the market hours.  This is the same as a run over a feed that
never had them: the same calls with the same answers, and the same engine at the same place (`marketHours_runs_iff`).
-/

namespace QuantForge

namespace BackTestEngine

variable {createUuid : ℕ → Uuid} {hp : HostParams}

/-- The bars of a feed that the run takes up. -/
def inMarketHours (hp : HostParams) (feed : List FeedItem) : List FeedItem :=
  feed.filter fun item => Exchange.isWithinMarketHourRestrictions item.bar.unixTsNs hp

/-- The configuration with the bars to come that it will take up. -/
def Config.inMarketHours (hp : HostParams) (c : Config) : Config :=
  c.withFeed (BackTestEngine.inMarketHours hp c.feed) c.result

theorem answered_nextBar {c : Config} (hphase : c.phase = .nextBar) : answered c = [] := by
  simp [answered, handed, hphase]

theorem step_inMarketHours {c : Config} (hphase : c.phase ≠ .nextBar) :
    step createUuid hp (c.inMarketHours hp) = (step createUuid hp c).map (Config.inMarketHours hp) := by
  rw [Config.inMarketHours, step_withFeed hphase _ fun _ => rfl]
  rcases hs : step createUuid hp c with _ | c'
  · rfl
  · obtain ⟨hfeed, hresult⟩ := step_inside hs hphase
    simp only [Option.map_some, Config.inMarketHours, hfeed, hresult]

/-- Every step is one over the bars within the hours, or skips a bar outside. -/
theorem inMarketHours_forth (c c' : Config) (hs : step createUuid hp c = some c') :
    c'.inMarketHours hp = c.inMarketHours hp ∧ answered c = [] ∨
      step createUuid hp (c.inMarketHours hp) = some (c'.inMarketHours hp) ∧
        answered (c.inMarketHours hp) = answered c := by
  by_cases hphase : c.phase = .nextBar
  · obtain ⟨item, feed, hfeed, ⟨hclosed, rfl⟩ | ⟨hopen, rfl⟩⟩ := step_between hs hphase
    · left
      refine ⟨?_, answered_nextBar hphase⟩
      simp [Config.inMarketHours, Config.withFeed, BackTestEngine.inMarketHours, hfeed, hclosed]
    · right
      refine ⟨?_, rfl⟩
      refine step_taken (c := c.inMarketHours hp) hphase ?_ hopen
      simp [Config.inMarketHours, Config.withFeed, BackTestEngine.inMarketHours, hfeed, hopen]
  · right
    rw [step_inMarketHours hphase, hs]
    exact ⟨rfl, rfl⟩

/-- A step over the bars within the hours is one that follows the bars skipped before it. -/
theorem inMarketHours_back (c t : Config) (hs : step createUuid hp (c.inMarketHours hp) = some t) :
    ∃ c', c'.inMarketHours hp = t ∧
      Loop.Trace (step createUuid hp) answered c (answered (c.inMarketHours hp)) c' := by
  by_cases hphase : c.phase = .nextBar
  · rw [answered_nextBar (c := c.inMarketHours hp) hphase]
    obtain ⟨feed, phase, result, e⟩ := c
    obtain rfl : phase = .nextBar := hphase
    induction feed with
    | nil => cases hs
    | cons item feed ih =>
      rcases hopen : Exchange.isWithinMarketHourRestrictions item.bar.unixTsNs hp with _ | _
      · -- the bar is skipped, which the other run does not see
        have hsame : (Config.mk (item :: feed) .nextBar result e).inMarketHours hp =
            (Config.mk feed .nextBar result e).inMarketHours hp := by
          simp [Config.inMarketHours, Config.withFeed, BackTestEngine.inMarketHours, hopen]
        obtain ⟨c', hc', htrace⟩ := ih (hsame ▸ hs)
        exact ⟨c', hc', htrace.head (step_skipped rfl rfl hopen)⟩
      · have htaken : step createUuid hp ⟨item :: feed, .nextBar, result, e⟩ =
            some ⟨feed, .orderBook item.bar, item.result, e.prepareNextBar item.bar⟩ := step_taken rfl rfl hopen
        rcases inMarketHours_forth _ _ htaken with ⟨hsame, -⟩ | ⟨hstep, -⟩
        · cases congrArg Config.phase hsame
        · rw [hs] at hstep
          obtain rfl := Option.some.inj hstep
          exact ⟨_, rfl, Loop.Trace.refl.tail htaken⟩
  · rw [step_inMarketHours hphase] at hs
    obtain ⟨c', hc', rfl⟩ := Option.map_eq_some_iff.1 hs
    exact ⟨c', rfl, Loop.Trace.refl.tail hc'⟩

/-- A run over the bars within the market hours makes the calls and gets to the places that the run over all bars
does. -/
theorem marketHours_runs_iff {feed : List FeedItem} {calls : List ((CBar × CState) × PluginResult)} {t : Config} :
    Loop.Trace (step createUuid hp) answered (start hp (inMarketHours hp feed)) calls t ↔
      ∃ c, c.inMarketHours hp = t ∧ Loop.Trace (step createUuid hp) answered (start hp feed) calls c :=
  Loop.trace_project_iff (a := start hp feed) inMarketHours_forth inMarketHours_back

end BackTestEngine

end QuantForge
