import QuantForge.DataStore

/-!
# The bars a back test replays

`create_iterable_plugin_data` merges the bars of all symbols of a plugin by time and keeps the result, and
`get_iterable_plugin_data` returns what is kept.  Storing bars does not touch it, so the bars that are returned are
the current ones exactly as long as no bars are changed after the first merge (`readsCurrent_iff`).  The order among
bars with equal times is left to the enumeration of an `unordered_map` and to `std::sort`: the sequence is determined
by the bars exactly if no two different bars have the same time (`replay_determined`).
-/

namespace QuantForge

namespace Forge

namespace DataStore

/-! ### Bars merged by time -/

/-- All bars of a plugin, sorted by time. -/
structure IsReplayOf (ofPlugin : Map Symbol AggregateBars) (data : List AggregateBarResult) : Prop where
  perm : data.Perm (concatenated ofPlugin.entries)
  sorted : data.Pairwise fun a b => a.unixTsNs ≤ b.unixTsNs

theorem concatenated_perm {l l' : List (Sigma fun _ : Symbol => AggregateBars)} (h : l.Perm l') :
    (concatenated l).Perm (concatenated l') := h.flatMap_right _

theorem isReplayOf_merged (lib : Library) (ofPlugin : Map Symbol AggregateBars) :
    IsReplayOf ofPlugin (merged lib ofPlugin) :=
  ⟨(lib.sort_perm _).trans (concatenated_perm (lib.enumerate_perm ofPlugin)), lib.sort_sorted _⟩

/-- The bars stored under a symbol, none if there is no entry. -/
def resultsOf (ofPlugin : Map Symbol AggregateBars) (symbol : Symbol) : List AggregateBarResult :=
  ((ofPlugin.lookup symbol).map AggregateBars.results).getD []

/-- The bars of one symbol and those of the others. -/
theorem concatenated_entries (ofPlugin : Map Symbol AggregateBars) (symbol : Symbol) :
    (concatenated ofPlugin.entries).Perm
      (resultsOf ofPlugin symbol ++ concatenated (ofPlugin.erase symbol).entries) := by
  unfold resultsOf
  rcases h : ofPlugin.lookup symbol with _ | bars
  · have hk : symbol ∉ ofPlugin.entries.keys := by
      rw [AList.lookup_eq_none, AList.mem_keys] at h
      exact h
    have hsame : (ofPlugin.erase symbol).entries = ofPlugin.entries := List.kerase_of_notMem_keys hk
    rw [hsame]
    exact List.Perm.refl _
  · exact concatenated_perm (Map.perm_cons_kerase h)

theorem concatenated_insert (ofPlugin : Map Symbol AggregateBars) (symbol : Symbol) (bars : AggregateBars) :
    concatenated (ofPlugin.insert symbol bars).entries =
      bars.results ++ concatenated (ofPlugin.erase symbol).entries := by
  have hentries : (ofPlugin.insert symbol bars).entries = ⟨symbol, bars⟩ :: (ofPlugin.erase symbol).entries :=
    AList.entries_insert
  rw [hentries, concatenated, List.flatMap_cons]
  rfl

/-- Storing other bars for a symbol keeps all bars as they are exactly if they are the old ones, up to order. -/
theorem concatenated_insert_perm_iff (ofPlugin : Map Symbol AggregateBars) (symbol : Symbol) (bars : AggregateBars) :
    (concatenated ofPlugin.entries).Perm (concatenated (ofPlugin.insert symbol bars).entries) ↔
      bars.results.Perm (resultsOf ofPlugin symbol) := by
  have hold := concatenated_entries ofPlugin symbol
  rw [concatenated_insert]
  constructor
  · intro h
    exact ((List.perm_append_right_iff _).1 (hold.symm.trans h)).symm
  · intro h
    exact hold.trans (h.symm.append_right _)

/-! ### One call -/

/-- Whatever is kept for a plugin is in the relation `P` to the bars stored for it. -/
def Kept (P : Map Symbol AggregateBars → List AggregateBarResult → Prop) (store : DataStore) : Prop :=
  ∀ name data, store.iterablePluginData.lookup name = some data →
    ∃ ofPlugin, store.bars.lookup name = some ofPlugin ∧ P ofPlugin data

section Calls

variable {store : DataStore} {lib : Library} {name : String}

@[simp] theorem bars_createIterablePluginData : (store.createIterablePluginData lib name).bars = store.bars := by
  unfold createIterablePluginData
  split
  · rfl
  · split <;> rfl

/-- What is kept after the call: what was kept before, or else the merged bars. -/
theorem lookup_createIterablePluginData (name' : String) :
    (store.createIterablePluginData lib name).iterablePluginData.lookup name' =
      if name' = name ∧ store.iterablePluginData.lookup name = none then (store.bars.lookup name).map (merged lib)
      else store.iterablePluginData.lookup name' := by
  unfold createIterablePluginData hasIterablePluginData getAllBarsForPlugin
  rcases hdata : store.iterablePluginData.lookup name with _ | data
  · rcases hbars : store.bars.lookup name with _ | ofPlugin
    · by_cases hn : name' = name
      · subst hn
        simp [hdata]
      · simp [hn]
    · by_cases hn : name' = name
      · subst hn
        simp
      · simp [hn, AList.lookup_insert_ne hn]
  · simp

/-- A read makes the merged bars, if they are not there, and looks them up. -/
theorem getIterablePluginData_eq :
    store.getIterablePluginData lib name =
      (((store.createIterablePluginData lib name).iterablePluginData.lookup name).elim (.error .outOfRange) .ok,
        store.createIterablePluginData lib name) := by
  have hstore : (if store.hasIterablePluginData name = true then store else store.createIterablePluginData lib name) =
      store.createIterablePluginData lib name := by
    by_cases hhas : store.hasIterablePluginData name = true <;> simp [createIterablePluginData, hhas]
  unfold getIterablePluginData
  rw [hstore]
  dsimp only
  rcases (store.createIterablePluginData lib name).iterablePluginData.lookup name with _ | data <;> rfl

/-- A read returns what is kept, or else the merged bars. -/
theorem getIterablePluginData_ok {ofPlugin : Map Symbol AggregateBars}
    (hbars : store.bars.lookup name = some ofPlugin) :
    (store.getIterablePluginData lib name).1 =
      .ok ((store.iterablePluginData.lookup name).getD (merged lib ofPlugin)) := by
  rw [getIterablePluginData_eq, lookup_createIterablePluginData]
  rcases hdata : store.iterablePluginData.lookup name with _ | data <;> simp [hbars]

/-- After bars are stored: the entry of the plugin, with them in it. -/
theorem lookup_storeBarsByPluginName (symbol : Symbol) (bars : AggregateBars) (name' : String) :
    (store.storeBarsByPluginName name symbol bars).bars.lookup name' =
      if name' = name then some (((store.bars.lookup name).getD ∅).insert symbol bars) else store.bars.lookup name' :=
  Map.lookup_insert_eq _ _ _ _

/-- Bars are stored for a plugin while nothing is kept for it, or they are those that are there, up to order. -/
def KeepsReplay (store : DataStore) : ApiCall → Prop
  | .storeBarsByPluginName name symbol bars =>
    store.hasIterablePluginData name = true →
      bars.results.Perm (((store.getBars name symbol).map AggregateBars.results).getD [])
  | _ => True

theorem getBars_eq {ofPlugin : Map Symbol AggregateBars} (hbars : store.bars.lookup name = some ofPlugin)
    (symbol : Symbol) :
    ((store.getBars name symbol).map AggregateBars.results).getD [] = resultsOf ofPlugin symbol := by
  simp [getBars, hbars, resultsOf]

section Kept

variable {P : Map Symbol AggregateBars → List AggregateBarResult → Prop}
  (hmerged : ∀ lib ofPlugin, P ofPlugin (merged lib ofPlugin))
include hmerged

theorem Kept.createIterablePluginData (h : Kept P store) : Kept P (store.createIterablePluginData lib name) := by
  intro name' data hdata
  rw [lookup_createIterablePluginData] at hdata
  rw [bars_createIterablePluginData]
  split at hdata
  · rename_i hnew
    obtain ⟨rfl, -⟩ := hnew
    rcases hbars : store.bars.lookup name' with _ | ofPlugin
    · simp [hbars] at hdata
    · rw [hbars] at hdata
      obtain rfl := Option.some.inj hdata
      exact ⟨ofPlugin, rfl, hmerged lib ofPlugin⟩
  · exact h name' data hdata

/-- One call, if what is stored by it does not spoil what is kept. -/
theorem Kept.effect {call : ApiCall} (h : Kept P store)
    (hstore : ∀ name symbol bars, call = .storeBarsByPluginName name symbol bars → ∀ ofPlugin data,
      store.bars.lookup name = some ofPlugin → store.iterablePluginData.lookup name = some data → P ofPlugin data →
        P (ofPlugin.insert symbol bars) data) :
    Kept P (call.effect store) := by
  cases call with
  | storeBarsByPluginName name symbol bars =>
    intro name' data hdata
    obtain ⟨ofPlugin, hbars, hP⟩ := h name' data hdata
    rw [ApiCall.effect, lookup_storeBarsByPluginName]
    by_cases hn : name' = name
    · subst hn
      rw [if_pos rfl, hbars, Option.getD_some]
      exact ⟨_, rfl, hstore _ symbol bars rfl ofPlugin data hbars hdata hP⟩
    · rw [if_neg hn]
      exact ⟨ofPlugin, hbars, hP⟩
  | createIterablePluginData lib name => exact h.createIterablePluginData hmerged
  | getIterablePluginData lib name =>
    rw [ApiCall.effect, getIterablePluginData_eq]
    exact h.createIterablePluginData hmerged
  | clear =>
    intro name data hdata
    cases hdata
  | _ => exact h

end Kept

/-- A call that keeps the replay as it is keeps it a replay. -/
theorem Kept.effect_isReplayOf {call : ApiCall} (h : Kept IsReplayOf store) (hcall : KeepsReplay store call) :
    Kept IsReplayOf (call.effect store) := by
  refine h.effect isReplayOf_merged fun name symbol bars heq ofPlugin data hbars hdata hreplay => ?_
  subst heq
  have hold := hcall (by simp [hasIterablePluginData, hdata])
  rw [getBars_eq hbars] at hold
  exact ⟨hreplay.perm.trans ((concatenated_insert_perm_iff ofPlugin symbol bars).2 hold), hreplay.sorted⟩

end Calls

/-! ### Whole sequences of calls -/

/-- The store after a sequence of calls, leaving the mutex aside. -/
def after (calls : List ApiCall) : DataStore := calls.foldl ApiCall.effect {}

/-- A read of a plugin with bars returns its bars, sorted by time. -/
def ReadsCurrent (store : DataStore) : Prop :=
  ∀ lib name ofPlugin, store.getAllBarsForPlugin name = some ofPlugin →
    ∃ data, (store.getIterablePluginData lib name).1 = .ok data ∧ IsReplayOf ofPlugin data

theorem after_concat (calls : List ApiCall) (call : ApiCall) :
    after (calls ++ [call]) = call.effect (after calls) := by
  simp [after]

theorem Kept.readsCurrent {store : DataStore} (h : Kept IsReplayOf store) : ReadsCurrent store := by
  intro lib name ofPlugin hbars
  refine ⟨_, getIterablePluginData_ok hbars, ?_⟩
  rcases hdata : store.iterablePluginData.lookup name with _ | data
  · exact isReplayOf_merged lib ofPlugin
  · obtain ⟨ofPlugin', hbars', hreplay⟩ := h name data hdata
    rw [show store.bars.lookup name = some ofPlugin from hbars] at hbars'
    obtain rfl := Option.some.inj hbars'
    exact hreplay

/-- Only plugins with bars have something kept. -/
theorem kept_after (calls : List ApiCall) : Kept (fun _ _ => True) (after calls) := by
  induction calls using List.reverseRecOn with
  | nil =>
    intro name data hdata
    cases hdata
  | append_singleton calls call ih =>
    rw [after_concat]
    exact ih.effect (fun _ _ => trivial) fun _ _ _ _ _ _ _ _ _ => trivial

/-- What is kept stays a replay as long as every call keeps it. -/
theorem kept_isReplayOf_after {calls : List ApiCall}
    (h : ∀ before call, before ++ [call] <+: calls → KeepsReplay (after before) call) :
    Kept IsReplayOf (after calls) := by
  induction calls using List.reverseRecOn with
  | nil =>
    intro name data hdata
    cases hdata
  | append_singleton calls call ih =>
    rw [after_concat]
    refine Kept.effect_isReplayOf (ih fun before c hpre => ?_) (h calls call (List.prefix_refl _))
    exact h before c (hpre.trans (List.prefix_append _ _))

/-- If reads are current before and after bars are stored, what is kept is kept as it is. -/
theorem keepsReplay_of_readsCurrent {store : DataStore} {call : ApiCall} (hkept : Kept (fun _ _ => True) store)
    (h : ReadsCurrent store) (h' : ReadsCurrent (call.effect store)) : KeepsReplay store call := by
  cases call with
  | storeBarsByPluginName name symbol bars =>
    intro hhas
    obtain ⟨data, hdata⟩ := Option.isSome_iff_exists.1 hhas
    obtain ⟨ofPlugin, hbars, -⟩ := hkept name data hdata
    have hbars' : (store.storeBarsByPluginName name symbol bars).bars.lookup name =
        some (ofPlugin.insert symbol bars) := by
      rw [lookup_storeBarsByPluginName, if_pos rfl, hbars, Option.getD_some]
    -- both reads return what is kept
    obtain ⟨d, hd, hreplay⟩ := h Library.stable name ofPlugin hbars
    obtain ⟨d', hd', hreplay'⟩ := h' Library.stable name _ hbars'
    rw [getIterablePluginData_ok hbars, hdata, Option.getD_some] at hd
    rw [ApiCall.effect, getIterablePluginData_ok hbars',
      show (store.storeBarsByPluginName name symbol bars).iterablePluginData.lookup name = some data from hdata,
      Option.getD_some] at hd'
    obtain rfl := Except.ok.inj hd
    obtain rfl := Except.ok.inj hd'
    rw [getBars_eq hbars, ← concatenated_insert_perm_iff]
    exact hreplay.perm.symm.trans hreplay'.perm
  | _ => exact trivial

/-- For every sequence of calls: wherever in it the replay data of a plugin with bars is read, it is the current bars
sorted by time, exactly if bars are stored only for plugins whose replay data has not been made yet, or are those that
are there already. -/
theorem readsCurrent_iff (calls : List ApiCall) :
    (∀ before, before <+: calls → ReadsCurrent (after before)) ↔
      ∀ before call, before ++ [call] <+: calls → KeepsReplay (after before) call := by
  constructor
  · intro h before call hpre
    refine keepsReplay_of_readsCurrent (kept_after before) (h before ?_) ?_
    · exact (List.prefix_append _ _).trans hpre
    · rw [← after_concat]
      exact h _ hpre
  · intro h before hpre
    exact (kept_isReplayOf_after fun b call hb => h b call (hb.trans hpre)).readsCurrent

/-- A bar of one minute at one price. -/
def minuteBar (symbol : Symbol) (price : ℚ) (unixTsNs : ℤ) : AggregateBarResult :=
  ⟨symbol, 1000, price, price, price, price, unixTsNs⟩

/-- The bars are read, then replaced, and the next read returns the old ones. -/
theorem old_bars_replayed :
    let old := minuteBar "AAPL" 100 0
    let new := minuteBar "AAPL" 101 0
    let store := after [.storeBarsByPluginName "sma" "AAPL" { results := [old] },
      .getIterablePluginData Library.stable "sma", .storeBarsByPluginName "sma" "AAPL" { results := [new] }]
    store.getBars "sma" "AAPL" = some { results := [new] } ∧
      (store.getIterablePluginData Library.stable "sma").1 = .ok [old] ∧ ¬ ReadsCurrent store := by
  intro old new store
  have hread : (store.getIterablePluginData Library.stable "sma").1 = .ok [old] := rfl
  refine ⟨rfl, hread, fun h => ?_⟩
  obtain ⟨data, hdata, hreplay⟩ := h Library.stable "sma" _ rfl
  obtain rfl := Except.ok.inj (hread.symm.trans hdata)
  exact absurd hreplay.perm (by decide)

/-! ### What the bars determine -/

/-- The bars `create_iterable_plugin_data` keeps for a plugin. -/
def replay (lib : Library) (store : DataStore) (name : String) : List AggregateBarResult :=
  ((store.createIterablePluginData lib name).iterablePluginData.lookup name).getD []

theorem replay_eq_merged (lib : Library) {store : DataStore} {name : String}
    (hnew : store.hasIterablePluginData name = false) {ofPlugin : Map Symbol AggregateBars}
    (hbars : store.getAllBarsForPlugin name = some ofPlugin) : replay lib store name = merged lib ofPlugin := by
  have hnone : store.iterablePluginData.lookup name = none := by simpa [hasIterablePluginData] using hnew
  unfold replay
  rw [lookup_createIterablePluginData, if_pos ⟨rfl, hnone⟩,
    show store.bars.lookup name = some ofPlugin from hbars]
  rfl

section Determined

variable {ofPlugin : Map Symbol AggregateBars} {data data' : List AggregateBarResult}

theorem IsReplayOf.perm_of (h : IsReplayOf ofPlugin data) (h' : IsReplayOf ofPlugin data') : data.Perm data' :=
  h.perm.trans h'.perm.symm

/-- Two replays of the same bars have the same times. -/
theorem IsReplayOf.times_eq (h : IsReplayOf ofPlugin data) (h' : IsReplayOf ofPlugin data') :
    data.map AggregateBarResult.unixTsNs = data'.map AggregateBarResult.unixTsNs := by
  refine ((h.perm_of h').map _).eq_of_pairwise (fun _ _ _ _ => le_antisymm) ?_ ?_
  · exact List.pairwise_map.2 h.sorted
  · exact List.pairwise_map.2 h'.sorted

/-- Where the time tells the bars apart, there is one replay. -/
theorem IsReplayOf.eq_of (h : IsReplayOf ofPlugin data) (h' : IsReplayOf ofPlugin data')
    (htimes : ∀ a ∈ concatenated ofPlugin.entries, ∀ b ∈ concatenated ofPlugin.entries,
      a.unixTsNs = b.unixTsNs → a = b) : data = data' := by
  refine (h.perm_of h').eq_of_pairwise (fun a b ha hb hab hba => ?_) h.sorted h'.sorted
  exact htimes a (h.perm.mem_iff.1 ha) b (h'.perm.mem_iff.1 hb) (le_antisymm hab hba)

end Determined

end DataStore

namespace Library

/-- Earlier bars first, and among bars with equal times the bar `x` first. -/
def preferring (x a b : AggregateBarResult) : Prop :=
  a.unixTsNs < b.unixTsNs ∨ a.unixTsNs = b.unixTsNs ∧ (a = x ∨ b ≠ x)

instance (x : AggregateBarResult) : DecidableRel (preferring x) := fun a b =>
  inferInstanceAs (Decidable (a.unixTsNs < b.unixTsNs ∨ a.unixTsNs = b.unixTsNs ∧ (a = x ∨ b ≠ x)))

instance (x : AggregateBarResult) : Std.Total (preferring x) := by
  refine ⟨fun a b => ?_⟩
  unfold preferring
  rcases lt_trichotomy a.unixTsNs b.unixTsNs with h | h | h
  · exact Or.inl (Or.inl h)
  · by_cases ha : a = x
    · exact Or.inl (Or.inr ⟨h, Or.inl ha⟩)
    · exact Or.inr (Or.inr ⟨h.symm, Or.inr ha⟩)
  · exact Or.inr (Or.inl h)

instance (x : AggregateBarResult) : IsTrans _ (preferring x) := by
  refine ⟨fun a b c hab hbc => ?_⟩
  unfold preferring at *
  rcases hab with hab | ⟨hab, hx⟩
  · refine Or.inl (lt_of_lt_of_le hab ?_)
    rcases hbc with hbc | ⟨hbc, -⟩
    · exact hbc.le
    · exact hbc.le
  · rw [hab]
    rcases hbc with hbc | ⟨hbc, hx'⟩
    · exact Or.inl hbc
    · refine Or.inr ⟨hbc, ?_⟩
      rcases hx with hx | hx
      · exact Or.inl hx
      · exact Or.inr (hx'.resolve_left hx)

theorem le_of_preferring {x a b : AggregateBarResult} (h : preferring x a b) : a.unixTsNs ≤ b.unixTsNs := by
  rcases h with h | ⟨h, -⟩
  · exact h.le
  · exact h.le

/-- A library whose sort puts the bar `x` before all others with its time. -/
def putFirst (x : AggregateBarResult) : Library := ofOrder (preferring x) fun _ _ => le_of_preferring

/-- A library that sorts stably and enumerates in the other direction. -/
def stableReversed : Library :=
  { stable with enumerate := fun m => m.entries.reverse, enumerate_perm := fun m => m.entries.reverse_perm }

/-- A list cannot have two different bars with one time both before each other. -/
theorem eq_of_pairwise_preferring {a b : AggregateBarResult} {l : List AggregateBarResult}
    (ha : l.Pairwise (preferring a)) (hb : l.Pairwise (preferring b)) (hma : a ∈ l) (hmb : b ∈ l)
    (htime : a.unixTsNs = b.unixTsNs) : a = b := by
  by_contra hne
  rcases List.getElem_of_mem hma with ⟨i, hi, rfl⟩
  rcases List.getElem_of_mem hmb with ⟨j, hj, rfl⟩
  rcases lt_trichotomy i j with hij | rfl | hij
  · rcases List.pairwise_iff_getElem.1 hb i j hi hj hij with h | ⟨-, h | h⟩
    · exact h.ne htime
    · exact hne h
    · exact h rfl
  · exact hne rfl
  · rcases List.pairwise_iff_getElem.1 ha j i hj hi hij with h | ⟨-, h | h⟩
    · exact h.ne htime.symm
    · exact hne h.symm
    · exact h rfl

end Library

namespace DataStore

/-- Whatever the library chooses, the same bars are replayed at the same times.  They are replayed in the same order,
for all choices, exactly if no two different bars have the same time. -/
theorem replay_determined (store : DataStore) (name : String) (hnew : store.hasIterablePluginData name = false)
    (ofPlugin : Map Symbol AggregateBars) (hbars : store.getAllBarsForPlugin name = some ofPlugin) :
    (∀ lib lib', (replay lib store name).Perm (replay lib' store name) ∧
      (replay lib store name).map AggregateBarResult.unixTsNs =
        (replay lib' store name).map AggregateBarResult.unixTsNs) ∧
    ((∀ lib lib', replay lib store name = replay lib' store name) ↔
      ∀ a ∈ concatenated ofPlugin.entries, ∀ b ∈ concatenated ofPlugin.entries, a.unixTsNs = b.unixTsNs → a = b) := by
  have hreplay : ∀ lib, IsReplayOf ofPlugin (replay lib store name) := by
    intro lib
    rw [replay_eq_merged lib hnew hbars]
    exact isReplayOf_merged lib ofPlugin
  refine ⟨fun lib lib' => ⟨(hreplay lib).perm_of (hreplay lib'), (hreplay lib).times_eq (hreplay lib')⟩,
    fun h a ha b hb htime => ?_, fun h lib lib' => (hreplay lib).eq_of (hreplay lib') h⟩
  have hsorted : ∀ x, (replay (Library.putFirst x) store name).Pairwise (Library.preferring x) := by
    intro x
    rw [replay_eq_merged _ hnew hbars]
    exact List.pairwise_insertionSort _ _
  have hb' := hsorted b
  rw [← h (Library.putFirst a)] at hb'
  exact Library.eq_of_pairwise_preferring (hsorted a) hb' ((hreplay _).perm.mem_iff.2 ha)
    ((hreplay _).perm.mem_iff.2 hb) htime

/-- One bar of each of two symbols. -/
def twoSymbols (time time' : ℤ) : DataStore :=
  after [.storeBarsByPluginName "sma" "AAPL" { results := [minuteBar "AAPL" 100 time] },
    .storeBarsByPluginName "sma" "MSFT" { results := [minuteBar "MSFT" 200 time'] }]

theorem replay_determined_two_minutes :
    replay Library.stable (twoSymbols 0 60) "sma" = replay Library.stableReversed (twoSymbols 0 60) "sma" :=
  (replay_determined (twoSymbols 0 60) "sma" rfl _ rfl).2.2 (by decide) Library.stable Library.stableReversed

/-- Two enumerations of the same symbols, sorted stably, replay two bars of one minute in different orders. -/
theorem same_minute_two_orders :
    replay Library.stable (twoSymbols 0 0) "sma" = [minuteBar "MSFT" 200 0, minuteBar "AAPL" 100 0] ∧
      replay Library.stableReversed (twoSymbols 0 0) "sma" = [minuteBar "AAPL" 100 0, minuteBar "MSFT" 200 0] ∧
      replay Library.stable (twoSymbols 0 0) "sma" ≠ replay Library.stableReversed (twoSymbols 0 0) "sma" := by
  refine ⟨rfl, rfl, by decide⟩

end DataStore

end Forge

end QuantForge
