import QuantForge.ManifestSchema
import QuantForge.ThreadPool
import QuantForge.DataStore

/-!
# Fetching the bars

`ForgeEngine::fetch_data` enqueues one task for every plugin and every entry of its `symbols_`; the task asks the data
provider for the bars of the entry and stores them under the plugin's name and the entry's symbol (`data_store.cpp`).
The tasks finish in any order (`finished_perm`).  The stored bars do not depend on the order, and none are lost,
exactly if no plugin asks for one symbol with two time spans.
-/

namespace QuantForge

/-! ### `stock_api.hpp` -/

structure AggregateBarsArgs where
  timespan : ℤ
  symbol : Symbol
  fromTime : String
  toTime : String
  timespanUnit : String
  deriving DecidableEq

namespace Forge

/-! ### `fetch_data` -/

/-- One task of the fetch. -/
structure FetchTask where
  pluginName : String
  symbol : Manifest.Symbol
  fromTime : String
  toTime : String

/-- The loaded plugins, by name. -/
abbrev Plugins := Map String Manifest.HostParams

namespace FetchTask

def args (task : FetchTask) : AggregateBarsArgs :=
  ⟨task.symbol.timespan, task.symbol.symbol, task.fromTime, task.toTime, task.symbol.timespanUnit⟩

/-- The task: fetch the bars, store them under the plugin and the symbol. -/
def run (fetch : AggregateBarsArgs → AggregateBars) (store : DataStore) (task : FetchTask) : DataStore :=
  store.storeBarsByPluginName task.pluginName task.symbol.symbol (fetch task.args)

end FetchTask

/-- The tasks of one plugin, one for each entry of `symbols_`. -/
def tasksOf (pluginName : String) (hostParams : Manifest.HostParams) : List FetchTask :=
  hostParams.symbols.map fun symbol =>
    ⟨pluginName, symbol, hostParams.backtestStartDatetime, hostParams.backtestEndDatetime⟩

/-- The tasks `fetch_data` enqueues. -/
def fetchTasks (plugins : Plugins) : List FetchTask := plugins.entries.flatMap fun e => tasksOf e.1 e.2

/-- The store after the tasks have finished in the given order. -/
def fetched (fetch : AggregateBarsArgs → AggregateBars) (store : DataStore) (order : List FetchTask) : DataStore :=
  order.foldl (FetchTask.run fetch) store

section Tasks

variable {plugins : Plugins} {t : FetchTask} {order : List FetchTask}

theorem mem_fetchTasks :
    t ∈ fetchTasks plugins ↔
      ∃ hp, plugins.lookup t.pluginName = some hp ∧ t.symbol ∈ hp.symbols ∧
        t.fromTime = hp.backtestStartDatetime ∧ t.toTime = hp.backtestEndDatetime := by
  unfold fetchTasks tasksOf
  simp only [List.mem_flatMap, List.mem_map]
  constructor
  · rintro ⟨⟨name, hp⟩, he, symbol, hs, rfl⟩
    exact ⟨hp, AList.mem_lookup_iff.2 he, hs, rfl, rfl⟩
  · rintro ⟨hp, hl, hs, hfrom, hto⟩
    refine ⟨⟨t.pluginName, hp⟩, AList.mem_lookup_iff.1 hl, t.symbol, hs, ?_⟩
    obtain ⟨name, symbol, fromTime, toTime⟩ := t
    obtain rfl : fromTime = hp.backtestStartDatetime := hfrom
    obtain rfl : toTime = hp.backtestEndDatetime := hto
    rfl

variable (fetch : AggregateBarsArgs → AggregateBars) (store : DataStore)

/-! ### Whose bars are stored -/

theorem fetched_concat (order : List FetchTask) (t : FetchTask) :
    fetched fetch store (order ++ [t]) = t.run fetch (fetched fetch store order) := by
  simp [fetched]

/-- Under the key of a task are the bars of some task with this key. -/
theorem getBars_fetched_of_mem (ht : t ∈ order) :
    ∃ t' ∈ order, t'.pluginName = t.pluginName ∧ t'.symbol.symbol = t.symbol.symbol ∧
      (fetched fetch store order).getBars t.pluginName t.symbol.symbol = some (fetch t'.args) := by
  induction order using List.reverseRecOn with
  | nil => cases ht
  | append_singleton order last ih =>
    rw [fetched_concat, FetchTask.run, DataStore.getBars_storeBarsByPluginName]
    by_cases hkey : t.pluginName = last.pluginName ∧ t.symbol.symbol = last.symbol.symbol
    · exact ⟨last, by simp, hkey.1.symm, hkey.2.symm, if_pos hkey⟩
    · rcases List.mem_append.1 ht with ht | ht
      · obtain ⟨t', ht', hname, hsymbol, hbars⟩ := ih ht
        exact ⟨t', List.mem_append_left _ ht', hname, hsymbol, by rw [if_neg hkey, hbars]⟩
      · obtain rfl : t = last := List.mem_singleton.1 ht
        exact absurd ⟨rfl, rfl⟩ hkey

theorem getBars_fetched_of_not_mem {name : String} {symbol : Symbol}
    (h : ∀ t ∈ order, ¬ (name = t.pluginName ∧ symbol = t.symbol.symbol)) :
    (fetched fetch store order).getBars name symbol = store.getBars name symbol := by
  induction order using List.reverseRecOn with
  | nil => rfl
  | append_singleton order last ih =>
    rw [fetched_concat, FetchTask.run, DataStore.getBars_storeBarsByPluginName, if_neg (h last (by simp))]
    exact ih fun t ht => h t (List.mem_append_left _ ht)

theorem hasPluginData_fetched (name : String) :
    (fetched fetch store order).hasPluginData name =
      (order.any (fun t => name = t.pluginName) || store.hasPluginData name) := by
  induction order using List.reverseRecOn with
  | nil => simp [fetched]
  | append_singleton order last ih =>
    rw [fetched_concat, FetchTask.run, DataStore.hasPluginData_storeBarsByPluginName, ih, List.any_append,
      ← Bool.or_assoc, Bool.or_comm (decide _)]
    simp

end Tasks

/-! ### The whole fetch -/

/-- Whatever is fetched and in whatever order the tasks finish, the content of the store is the same, and the bars
fetched for every entry of every plugin are in it. -/
structure FetchesAll (plugins : Plugins) : Prop where
  sameContent : ∀ fetch store order order', order.Perm (fetchTasks plugins) → order'.Perm (fetchTasks plugins) →
    (fetched fetch store order).SameContent (fetched fetch store order')
  stored : ∀ fetch store order, order.Perm (fetchTasks plugins) →
    ∀ name hp, plugins.lookup name = some hp → ∀ e ∈ hp.symbols,
      (fetched fetch store order).getBars name e.symbol =
        some (fetch ⟨e.timespan, e.symbol, hp.backtestStartDatetime, hp.backtestEndDatetime, e.timespanUnit⟩)

/-- No plugin asks for one symbol with two time spans. -/
def OneTimespan (plugins : Plugins) : Prop :=
  ∀ name hp, plugins.lookup name = some hp → ∀ e ∈ hp.symbols, ∀ e' ∈ hp.symbols,
    e.symbol = e'.symbol → e.timespan = e'.timespan ∧ e.timespanUnit = e'.timespanUnit

section Orders

variable {plugins : Plugins} {order order' : List FetchTask}

/-- Tasks that store under the same key ask for the same bars. -/
theorem OneTimespan.args_eq (h : OneTimespan plugins) {t t' : FetchTask} (ht : t ∈ fetchTasks plugins)
    (ht' : t' ∈ fetchTasks plugins) (hname : t'.pluginName = t.pluginName)
    (hsymbol : t'.symbol.symbol = t.symbol.symbol) : t'.args = t.args := by
  obtain ⟨hp, hl, hs, hfrom, hto⟩ := mem_fetchTasks.1 ht
  obtain ⟨hp', hl', hs', hfrom', hto'⟩ := mem_fetchTasks.1 ht'
  rw [hname, hl] at hl'
  obtain rfl := Option.some.inj hl'
  obtain ⟨hspan, hunit⟩ := h _ _ hl _ hs' _ hs hsymbol
  unfold FetchTask.args
  rw [hspan, hunit, hsymbol, hfrom, hfrom', hto, hto']

theorem OneTimespan.getBars_fetched (h : OneTimespan plugins) (fetch : AggregateBarsArgs → AggregateBars)
    (store : DataStore) (hperm : order.Perm (fetchTasks plugins)) {t : FetchTask} (ht : t ∈ fetchTasks plugins) :
    (fetched fetch store order).getBars t.pluginName t.symbol.symbol = some (fetch t.args) := by
  obtain ⟨t', ht', hname, hsymbol, hbars⟩ := getBars_fetched_of_mem fetch store (hperm.mem_iff.2 ht)
  rw [hbars, h.args_eq ht (hperm.mem_iff.1 ht') hname hsymbol]

theorem OneTimespan.sameContent (h : OneTimespan plugins) (fetch : AggregateBarsArgs → AggregateBars)
    (store : DataStore) (hperm : order.Perm (fetchTasks plugins)) (hperm' : order'.Perm (fetchTasks plugins)) :
    (fetched fetch store order).SameContent (fetched fetch store order') := by
  refine ⟨fun name => ?_, fun name symbol => ?_⟩
  · rw [hasPluginData_fetched, hasPluginData_fetched, (hperm.trans hperm'.symm).any_eq]
  · by_cases hkey : ∃ t ∈ fetchTasks plugins, name = t.pluginName ∧ symbol = t.symbol.symbol
    · obtain ⟨t, ht, rfl, rfl⟩ := hkey
      rw [h.getBars_fetched fetch store hperm ht, h.getBars_fetched fetch store hperm' ht]
    · have hnone : ∀ t ∈ fetchTasks plugins, ¬ (name = t.pluginName ∧ symbol = t.symbol.symbol) :=
        fun t ht hk => hkey ⟨t, ht, hk⟩
      rw [getBars_fetched_of_not_mem fetch store fun t ht => hnone t (hperm.mem_iff.1 ht),
        getBars_fetched_of_not_mem fetch store fun t ht => hnone t (hperm'.mem_iff.1 ht)]

private theorem filterMap_getElem?_range {A : Type} (l : List A) : (List.range l.length).filterMap (l[·]?) = l := by
  induction l with
  | nil => rfl
  | cons a l ih =>
    rw [List.length_cons, List.range_succ_eq_map, List.filterMap_cons_some List.getElem?_cons_zero,
      List.filterMap_map]
    simpa using ih

/-- The tasks a thread pool has finished when `wait_all` returns are all tasks, in some order. -/
theorem finishedTasks_perm {n : ℕ} {G : PoolAction n → ThreadPool n → Prop} {pool : ThreadPool n}
    (hr : (ThreadPool.threads n).Reaches G {} pool) (hret : pool.waiter = .returned pool.enqueued)
    {tasks : List FetchTask} (hlen : pool.enqueued = tasks.length) :
    (pool.finished.filterMap (tasks[·]?)).Perm tasks := by
  have hperm := (ThreadPool.finished_perm hr hret).filterMap (tasks[·]?)
  rwa [hlen, filterMap_getElem?_range] at hperm

/-- Whatever the threads do, when `wait_all` returns, the bars of every task are in the store. -/
theorem OneTimespan.getBars_after_waitAll (h : OneTimespan plugins) (fetch : AggregateBarsArgs → AggregateBars)
    (store : DataStore) {n : ℕ} {G : PoolAction n → ThreadPool n → Prop} {pool : ThreadPool n}
    (hr : (ThreadPool.threads n).Reaches G {} pool) (hret : pool.waiter = .returned pool.enqueued)
    (hlen : pool.enqueued = (fetchTasks plugins).length) {t : FetchTask} (ht : t ∈ fetchTasks plugins) :
    (fetched fetch store (pool.finished.filterMap ((fetchTasks plugins)[·]?))).getBars t.pluginName t.symbol.symbol =
      some (fetch t.args) :=
  h.getBars_fetched fetch store (finishedTasks_perm hr hret hlen) ht

/-- Two entries for one symbol leave no room for both of their bars. -/
theorem not_fetchesAll {name : String} {hp : Manifest.HostParams} (hl : plugins.lookup name = some hp)
    {e e' : Manifest.Symbol} (he : e ∈ hp.symbols) (he' : e' ∈ hp.symbols) (hsymbol : e.symbol = e'.symbol)
    (hne : ¬ (e.timespan = e'.timespan ∧ e.timespanUnit = e'.timespanUnit)) : ¬ FetchesAll plugins := by
  intro h
  -- a provider that answers the two requests differently
  let request := AggregateBarsArgs.mk e.timespan e.symbol hp.backtestStartDatetime
    hp.backtestEndDatetime e.timespanUnit
  let fetch := fun args => if args = request then ({ adjusted := true } : AggregateBars) else {}
  have h1 := h.stored fetch {} _ (List.Perm.refl _) name hp hl e he
  have h2 := h.stored fetch {} _ (List.Perm.refl _) name hp hl e' he'
  rw [← hsymbol, h1] at h2
  have hne' : AggregateBarsArgs.mk e'.timespan e.symbol hp.backtestStartDatetime hp.backtestEndDatetime
      e'.timespanUnit ≠ request := by
    intro heq
    exact hne ⟨(congrArg AggregateBarsArgs.timespan heq).symm, (congrArg AggregateBarsArgs.timespanUnit heq).symm⟩
  simp [fetch, request, hne'] at h2

end Orders

theorem fetchesAll_iff (plugins : Plugins) : FetchesAll plugins ↔ OneTimespan plugins := by
  constructor
  · intro h name hp hl e he e' he' hsymbol
    by_contra hne
    exact not_fetchesAll hl he he' hsymbol hne h
  · intro h
    refine ⟨fun fetch store _ _ => h.sameContent fetch store, ?_⟩
    intro fetch store order hperm name hp hl e he
    have ht : FetchTask.mk name e hp.backtestStartDatetime hp.backtestEndDatetime ∈ fetchTasks plugins :=
      mem_fetchTasks.2 ⟨hp, hl, he, rfl, rfl⟩
    exact h.getBars_fetched fetch store hperm ht

/-- A manifest with minute and daily bars of one symbol. -/
def twoTimespans : Json :=
  Manifest.numericManifest [Manifest.rawSymbol "AAPL" "minute", Manifest.rawSymbol "AAPL" "day"]

/-- The parser accepts the manifest, and the bars of the task that finishes first are lost. -/
theorem fetched_overwritten :
    ∃ m, Manifest.parseJson twoTimespans = .ok m ∧ ¬ FetchesAll ((∅ : Plugins).insert m.name m.hostParams) ∧
      let fetch := fun args => ({ ticker := args.timespanUnit } : AggregateBars)
      (fetched fetch {} (tasksOf m.name m.hostParams)).getBars m.name "AAPL" = some { ticker := "day" } ∧
        (fetched fetch {} (tasksOf m.name m.hostParams).reverse).getBars m.name "AAPL" =
          some { ticker := "minute" } := by
  obtain ⟨m, hm⟩ := (Manifest.parseJson_ok_iff twoTimespans).2 (by decide +kernel)
  have hname : m.name = "sma_python" := by
    have : (Manifest.parseJson twoTimespans).toOption.map (·.name) = some "sma_python" := by rfl
    simpa [hm, Except.toOption] using this
  have hsymbols : m.hostParams.symbols = [⟨true, 1, "AAPL", "minute"⟩, ⟨true, 1, "AAPL", "day"⟩] := by
    have : (Manifest.parseJson twoTimespans).toOption.map (·.hostParams.symbols) =
      some [⟨true, 1, "AAPL", "minute"⟩, ⟨true, 1, "AAPL", "day"⟩] := by rfl
    simpa [hm, Except.toOption] using this
  refine ⟨m, hm, ?_, ?_, ?_⟩
  · have hminute : (⟨true, 1, "AAPL", "minute"⟩ : Manifest.Symbol) ∈ m.hostParams.symbols := by simp [hsymbols]
    have hday : (⟨true, 1, "AAPL", "day"⟩ : Manifest.Symbol) ∈ m.hostParams.symbols := by simp [hsymbols]
    exact not_fetchesAll (AList.lookup_insert _) hminute hday rfl (by decide)
  · rw [tasksOf, hsymbols, hname]
    rfl
  · rw [tasksOf, hsymbols, hname]
    rfl

end Forge

end QuantForge
