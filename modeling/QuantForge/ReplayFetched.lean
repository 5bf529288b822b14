import QuantForge.FetchData
import QuantForge.ReplayData

/-!
# From the fetch to the back test

`ForgeEngine::fetch_data` and the beginning of the task of `ForgeEngine::run` (`forge.cpp`), leaving the mutex of the
store aside: whatever order the fetches finish in, and however the standard library enumerates and sorts, the back
test of a plugin is given the bars fetched for each of its symbols, once, merged by time (`backTestData_fetched`).
-/

namespace QuantForge

namespace Forge

/-- The bars that the task of `ForgeEngine::run` gives to the back test of a plugin. -/
def backTestData (lib : Library) (store : DataStore) (pluginName : String) :
    Except Exception (List AggregateBarResult) :=
  if store.hasPluginData pluginName then (store.getIterablePluginData lib pluginName).1
  else .error (.runtimeError "Plugin data not found, exiting simulation...")

/-- What is fetched for an entry of `symbols_`. -/
def argsOf (hostParams : Manifest.HostParams) (symbol : Manifest.Symbol) : AggregateBarsArgs :=
  ⟨symbol.timespan, symbol.symbol, hostParams.backtestStartDatetime, hostParams.backtestEndDatetime,
    symbol.timespanUnit⟩

/-- One entry for each symbol. -/
def oneEach (symbols : List Manifest.Symbol) : List Manifest.Symbol := symbols.pwFilter fun a b => a.symbol ≠ b.symbol

theorem exists_mem_oneEach {symbols : List Manifest.Symbol} {e : Manifest.Symbol} (he : e ∈ symbols) :
    ∃ e' ∈ oneEach symbols, e'.symbol = e.symbol := by
  by_contra hnone
  have hall : ∀ e' ∈ oneEach symbols, e.symbol ≠ e'.symbol := fun e' he' heq => hnone ⟨e', he', heq.symm⟩
  have htrans : ∀ {a b c : Manifest.Symbol}, a.symbol ≠ c.symbol → a.symbol ≠ b.symbol ∨ b.symbol ≠ c.symbol := by
    intro a b c hac
    by_cases hab : a.symbol = b.symbol
    · exact Or.inr (hab ▸ hac)
    · exact Or.inl hab
  exact (List.forall_mem_pwFilter (R := fun a b : Manifest.Symbol => a.symbol ≠ b.symbol) htrans e symbols).1 hall e
    he rfl

section Fetched

variable {plugins : Plugins} {order : List FetchTask} (fetch : AggregateBarsArgs → AggregateBars) (store : DataStore)

theorem iterablePluginData_fetched : (fetched fetch store order).iterablePluginData = store.iterablePluginData := by
  induction order using List.reverseRecOn with
  | nil => rfl
  | append_singleton order t ih =>
    rw [fetched_concat]
    exact ih

variable {name : String} {hp : Manifest.HostParams} (hperm : order.Perm (fetchTasks plugins))
  (hl : plugins.lookup name = some hp)
include hl hperm

theorem mem_order {e : Manifest.Symbol} (he : e ∈ hp.symbols) :
    FetchTask.mk name e hp.backtestStartDatetime hp.backtestEndDatetime ∈ order :=
  hperm.mem_iff.2 (mem_fetchTasks.2 ⟨hp, hl, he, rfl, rfl⟩)

/-- A task of the plugin is one of its entries. -/
theorem symbol_mem_of_order {t : FetchTask} (ht : t ∈ order) (hname : t.pluginName = name) :
    t.symbol ∈ hp.symbols := by
  obtain ⟨hp', hl', hs, -, -⟩ := mem_fetchTasks.1 (hperm.mem_iff.1 ht)
  rw [hname, hl] at hl'
  rw [Option.some.inj hl']
  exact hs

theorem hasPluginData_fetched_iff : (fetched fetch {} order).hasPluginData name = true ↔ hp.symbols ≠ [] := by
  have hempty : DataStore.hasPluginData {} name = false := rfl
  rw [hasPluginData_fetched, hempty, Bool.or_false, List.any_eq_true]
  constructor
  · rintro ⟨t, ht, hname⟩ hnil
    have hmem := symbol_mem_of_order hperm hl ht (of_decide_eq_true hname).symm
    rw [hnil] at hmem
    cases hmem
  · intro hne
    obtain ⟨e, he⟩ := List.exists_mem_of_ne_nil _ hne
    exact ⟨_, mem_order hperm hl he, decide_eq_true rfl⟩

variable (h : OneTimespan plugins)
include h

/-- The entries of a plugin after the fetch: the bars of each of its symbols. -/
theorem entries_fetched {ofPlugin : Map Symbol AggregateBars}
    (hbars : (fetched fetch {} order).bars.lookup name = some ofPlugin) :
    ofPlugin.entries.Perm ((oneEach hp.symbols).map fun e => ⟨e.symbol, fetch (argsOf hp e)⟩) := by
  have hget : ∀ symbol, ofPlugin.lookup symbol = (fetched fetch {} order).getBars name symbol := by
    intro symbol
    rw [DataStore.getBars, hbars, Option.bind_some]
  have hentry : ∀ e ∈ hp.symbols, ofPlugin.lookup e.symbol = some (fetch (argsOf hp e)) := by
    intro e he
    have ht := hperm.mem_iff.1 (mem_order hperm hl he)
    rw [hget]
    exact h.getBars_fetched fetch {} hperm ht
  have hnodup : List.NodupKeys ((oneEach hp.symbols).map fun e =>
      (⟨e.symbol, fetch (argsOf hp e)⟩ : Sigma fun _ : Symbol => AggregateBars)) := by
    rw [List.nodupKeys_iff_pairwise, List.pairwise_map]
    exact List.pairwise_pwFilter _
  refine List.lookup_ext ofPlugin.nodupKeys hnodup fun symbol bars => ?_
  rw [List.mem_dlookup_iff hnodup, List.mem_map]
  show ofPlugin.lookup symbol = some bars ↔ _
  constructor
  · intro hlookup
    by_cases hmem : ∃ e ∈ hp.symbols, e.symbol = symbol
    · obtain ⟨e, he, rfl⟩ := hmem
      obtain ⟨e', he', hsymbol⟩ := exists_mem_oneEach he
      have hfetch := hentry e' (List.pwFilter_subset _ he')
      rw [hsymbol, hlookup] at hfetch
      exact ⟨e', he', by rw [← Option.some.inj hfetch, hsymbol]⟩
    · have hnone : (fetched fetch {} order).getBars name symbol = none := by
        refine getBars_fetched_of_not_mem fetch {} fun t ht hkey => hmem ⟨t.symbol, ?_, hkey.2.symm⟩
        exact symbol_mem_of_order hperm hl ht hkey.1.symm
      rw [← hget, hlookup] at hnone
      cases hnone
  · rintro ⟨e, he, heq⟩
    cases heq
    exact hentry e (List.pwFilter_subset _ he)

/-- The back test of a plugin without symbols stops with an error.  That of any other gets the bars fetched for its
symbols, of each symbol once and in the order of time. -/
theorem backTestData_fetched (lib : Library) :
    (hp.symbols = [] → backTestData lib (fetched fetch {} order) name =
      .error (.runtimeError "Plugin data not found, exiting simulation...")) ∧
    (hp.symbols ≠ [] → ∃ data, backTestData lib (fetched fetch {} order) name = .ok data ∧
      data.Pairwise (fun a b => a.unixTsNs ≤ b.unixTsNs) ∧
      data.Perm ((oneEach hp.symbols).flatMap fun e => (fetch (argsOf hp e)).results)) := by
  constructor
  · intro hnil
    rw [backTestData, if_neg]
    rw [hasPluginData_fetched_iff fetch hperm hl]
    exact fun hne => hne hnil
  · intro hne
    have hhas := (hasPluginData_fetched_iff fetch hperm hl).2 hne
    obtain ⟨ofPlugin, hbars⟩ := Option.isSome_iff_exists.1 hhas
    have hreplay := DataStore.isReplayOf_merged lib ofPlugin
    refine ⟨DataStore.merged lib ofPlugin, ?_, hreplay.sorted, ?_⟩
    · have hnone : (fetched fetch {} order).iterablePluginData.lookup name = none := by
        rw [iterablePluginData_fetched]
        rfl
      rw [backTestData, if_pos hhas, DataStore.getIterablePluginData_ok hbars, hnone, Option.getD_none]
    · refine hreplay.perm.trans ((DataStore.concatenated_perm (entries_fetched fetch hperm hl h hbars)).trans ?_)
      rw [DataStore.concatenated, List.flatMap_map]

end Fetched

/-- A manifest with the minute bars of two symbols, one of them listed twice. -/
def twoSymbolsListed : Json :=
  Manifest.numericManifest [Manifest.rawSymbol "AAPL" "minute", Manifest.rawSymbol "MSFT" "minute",
    Manifest.rawSymbol "AAPL" "minute"]

/-- One bar for every request. -/
def oneBar (args : AggregateBarsArgs) : AggregateBars :=
  { results := [DataStore.minuteBar args.symbol 100 (if args.symbol = "AAPL" then 60 else 0)] }

theorem backTestData_fetched_listed :
    ∃ m, Manifest.parseJson twoSymbolsListed = .ok m ∧
      ∃ data,
        backTestData Library.stable (fetched oneBar {} (tasksOf m.name m.hostParams).reverse) m.name = .ok data ∧
        data.Pairwise (fun a b => a.unixTsNs ≤ b.unixTsNs) ∧
        data.Perm [DataStore.minuteBar "MSFT" 100 0, DataStore.minuteBar "AAPL" 100 60] := by
  obtain ⟨m, hm⟩ := (Manifest.parseJson_ok_iff twoSymbolsListed).2 (by decide +kernel)
  have hsymbols : m.hostParams.symbols =
      [⟨true, 1, "AAPL", "minute"⟩, ⟨true, 1, "MSFT", "minute"⟩, ⟨true, 1, "AAPL", "minute"⟩] := by
    have : (Manifest.parseJson twoSymbolsListed).toOption.map (·.hostParams.symbols) =
      some [⟨true, 1, "AAPL", "minute"⟩, ⟨true, 1, "MSFT", "minute"⟩, ⟨true, 1, "AAPL", "minute"⟩] := by rfl
    simpa [hm, Except.toOption] using this
  let plugins : Plugins := (∅ : Plugins).insert m.name m.hostParams
  have hperm : (tasksOf m.name m.hostParams).reverse.Perm (fetchTasks plugins) := by
    have htasks : fetchTasks plugins = tasksOf m.name m.hostParams := List.append_nil _
    rw [htasks]
    exact List.reverse_perm _
  have hone : OneTimespan plugins := by
    intro name hp hl
    have hp_eq : hp = m.hostParams := by
      rw [Map.lookup_insert_eq] at hl
      split at hl
      · exact (Option.some.inj hl).symm
      · cases hl
    rw [hp_eq, hsymbols]
    decide
  have hdata := (backTestData_fetched oneBar hperm (AList.lookup_insert _) hone Library.stable).2
    (by rw [hsymbols]; decide)
  obtain ⟨data, hdata, hsorted, hdataPerm⟩ := hdata
  refine ⟨m, hm, data, hdata, hsorted, hdataPerm.trans ?_⟩
  have heach : oneEach m.hostParams.symbols = [⟨true, 1, "MSFT", "minute"⟩, ⟨true, 1, "AAPL", "minute"⟩] := by
    rw [hsymbols]
    decide
  rw [heach]
  exact List.Perm.refl _

end Forge

end QuantForge
