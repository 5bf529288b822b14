import QuantForge.AssocMap
import QuantForge.Strings
import QuantForge.Models

/-!
# The data store

`data_store.cpp`: the bars fetched for each plugin and symbol, and for each plugin the bars of all its symbols merged
by time, which is kept once it has been made.  The operations come twice: as functions of the store, leaving the mutex
aside, and as the calls of the source, each of which takes `mutex_` for its whole body.  The two agree where the mutex
is ignored (`perform_ignored`); with a mutex that is not recursive, `create_iterable_plugin_data` and
`get_iterable_plugin_data` block on themselves, and no other call does (`allComplete_iff`).
-/

namespace QuantForge

/-! ### `stock_api.hpp` -/

structure AggregateBars where
  adjusted : Bool := false
  queryCount : ℕ := 0
  resultCount : ℕ := 0
  ticker : String := ""
  results : List AggregateBarResult := []
  deriving DecidableEq

namespace Forge

/-! ### `data_store.hpp` -/

structure DataStore where
  bars : Map String (Map Symbol AggregateBars) := ∅
  iterablePluginData : Map String (List AggregateBarResult) := ∅

/-- What the standard library is free to choose: the order in which the entries of an `unordered_map` are enumerated,
and how `std::sort` arranges bars with equal times. -/
structure Library where
  enumerate : Map Symbol AggregateBars → List (Sigma fun _ : Symbol => AggregateBars)
  sort : List AggregateBarResult → List AggregateBarResult
  enumerate_perm : ∀ m, (enumerate m).Perm m.entries
  sort_perm : ∀ l, (sort l).Perm l
  sort_sorted : ∀ l, (sort l).Pairwise fun a b => a.unixTsNs ≤ b.unixTsNs

namespace Library

/-- The choices of a library that sorts by an order which refines the order of the times. -/
def ofOrder (r : AggregateBarResult → AggregateBarResult → Prop) [DecidableRel r] [Std.Total r] [IsTrans _ r]
    (hr : ∀ a b, r a b → a.unixTsNs ≤ b.unixTsNs) : Library where
  enumerate m := m.entries
  sort l := l.insertionSort r
  enumerate_perm _ := List.Perm.refl _
  sort_perm l := List.perm_insertionSort r l
  sort_sorted l := (List.pairwise_insertionSort r l).imp (hr _ _)

/-- Earlier bars first, bars with equal times as they come. -/
def byTime (a b : AggregateBarResult) : Prop := a.unixTsNs ≤ b.unixTsNs

instance : DecidableRel byTime := fun a b => inferInstanceAs (Decidable (a.unixTsNs ≤ b.unixTsNs))

instance : Std.Total byTime := ⟨fun a b => le_total a.unixTsNs b.unixTsNs⟩

instance : IsTrans _ byTime := ⟨fun _ _ _ => le_trans⟩

/-- A library that sorts stably. -/
def stable : Library := ofOrder byTime fun _ _ => id

end Library

namespace DataStore

/-! ### `data_store.cpp`, without the mutex -/

/-- `store_bars_by_plugin_name`. -/
def storeBarsByPluginName (store : DataStore) (pluginName : String) (symbol : Symbol) (bars : AggregateBars) :
    DataStore :=
  let ofPlugin := (store.bars.lookup pluginName).getD ∅
  { store with bars := store.bars.insert pluginName (ofPlugin.insert symbol bars) }

def getBars (store : DataStore) (pluginName : String) (symbol : Symbol) : Option AggregateBars :=
  (store.bars.lookup pluginName).bind (·.lookup symbol)

def getAllBarsForPlugin (store : DataStore) (pluginName : String) : Option (Map Symbol AggregateBars) :=
  store.bars.lookup pluginName

def getSymbolsForPlugin (lib : Library) (store : DataStore) (pluginName : String) : List Symbol :=
  match store.bars.lookup pluginName with
  | none => []
  | some ofPlugin => (lib.enumerate ofPlugin).map Sigma.fst

def hasPluginData (store : DataStore) (pluginName : String) : Bool := (store.bars.lookup pluginName).isSome

def clear (_ : DataStore) : DataStore := {}

def hasIterablePluginData (store : DataStore) (pluginName : String) : Bool :=
  (store.iterablePluginData.lookup pluginName).isSome

/-- The bars of all symbols, in the order of the enumeration. -/
def concatenated (entries : List (Sigma fun _ : Symbol => AggregateBars)) : List AggregateBarResult :=
  entries.flatMap fun e => e.2.results

/-- The bars of all symbols in the order in which they are replayed. -/
def merged (lib : Library) (ofPlugin : Map Symbol AggregateBars) : List AggregateBarResult :=
  lib.sort (concatenated (lib.enumerate ofPlugin))

def createIterablePluginData (lib : Library) (store : DataStore) (pluginName : String) : DataStore :=
  if store.hasIterablePluginData pluginName then store
  else
    match store.getAllBarsForPlugin pluginName with
    | none => store
    | some ofPlugin =>
      { store with iterablePluginData := store.iterablePluginData.insert pluginName (merged lib ofPlugin) }

/-- `get_iterable_plugin_data`; `at` throws if there is nothing under the name. -/
def getIterablePluginData (lib : Library) (store : DataStore) (pluginName : String) :
    Except Exception (List AggregateBarResult) × DataStore :=
  let store :=
    if store.hasIterablePluginData pluginName then store else store.createIterablePluginData lib pluginName
  match store.iterablePluginData.lookup pluginName with
  | some data => (.ok data, store)
  | none => (.error .outOfRange, store)

/-- Two stores with the same plugins and the same bars. -/
def SameContent (store store' : DataStore) : Prop :=
  (∀ name, store.hasPluginData name = store'.hasPluginData name) ∧
    ∀ name symbol, store.getBars name symbol = store'.getBars name symbol

section Store

variable (store : DataStore) (name name' : String) (symbol symbol' : Symbol) (bars : AggregateBars)

theorem getBars_storeBarsByPluginName :
    (store.storeBarsByPluginName name symbol bars).getBars name' symbol' =
      if name' = name ∧ symbol' = symbol then some bars else store.getBars name' symbol' := by
  unfold getBars storeBarsByPluginName
  rw [Map.lookup_insert_eq]
  by_cases hn : name' = name
  · subst hn
    rw [if_pos rfl, Option.bind_some, Map.lookup_insert_eq]
    rcases store.bars.lookup name' with _ | ofPlugin <;> simp
  · simp [hn]

theorem hasPluginData_storeBarsByPluginName :
    (store.storeBarsByPluginName name symbol bars).hasPluginData name' =
      (decide (name' = name) || store.hasPluginData name') := by
  unfold hasPluginData storeBarsByPluginName
  rw [Map.lookup_insert_eq]
  by_cases hn : name' = name <;> simp [hn]

end Store

end DataStore

/-! ### The calls, with the mutex -/

/-- A store with its mutex. -/
structure SharedStore where
  store : DataStore := {}
  locked : Bool := false

/-- A call ends with an exception, or waits for a lock its own thread holds. -/
inductive Fault
  | exception (e : Exception)
  | deadlock
  deriving DecidableEq

/-- How `mutex_` is read: as a mutex that is not recursive, or not at all. -/
inductive Mutex
  | exclusive
  | ignored

/-- A call returns a value or has a fault; either way it leaves a store. -/
abbrev StoreCall := ExceptT Fault (StateM SharedStore)

namespace StoreCall

variable {α : Type}

def run (call : StoreCall α) (s : SharedStore) : Except Fault α × SharedStore := call s

def read (f : DataStore → α) : StoreCall α := fun s => (.ok (f s.store), s)

def modify (f : DataStore → DataStore) : StoreCall Unit := fun s => (.ok (), { s with store := f s.store })

/-- `lock_guard`: take the mutex, run the body, release the mutex, also when the body throws.  A thread that waits for
itself never gets to release anything. -/
def lockGuard (mutex : Mutex) (body : StoreCall α) : StoreCall α := fun s =>
  match mutex with
  | .ignored => body s
  | .exclusive =>
    if s.locked then (.error .deadlock, s)
    else
      match body { s with locked := true } with
      | (.error .deadlock, s) => (.error .deadlock, s)
      | (result, s) => (result, { s with locked := false })

variable (mutex : Mutex) (lib : Library) (pluginName : String) (symbol : Symbol)

def storeBarsByPluginName (bars : AggregateBars) : StoreCall Unit :=
  lockGuard mutex (modify fun store => store.storeBarsByPluginName pluginName symbol bars)

def getBars : StoreCall (Option AggregateBars) := lockGuard mutex (read fun store => store.getBars pluginName symbol)

def getAllBarsForPlugin : StoreCall (Option (Map Symbol AggregateBars)) :=
  lockGuard mutex (read fun store => store.getAllBarsForPlugin pluginName)

def getSymbolsForPlugin : StoreCall (List Symbol) :=
  lockGuard mutex (read fun store => store.getSymbolsForPlugin lib pluginName)

def hasPluginData : StoreCall Bool := lockGuard mutex (read fun store => store.hasPluginData pluginName)

def clear : StoreCall Unit := lockGuard mutex (modify DataStore.clear)

def hasIterablePluginData : StoreCall Bool :=
  lockGuard mutex (read fun store => store.hasIterablePluginData pluginName)

def createIterablePluginData : StoreCall Unit :=
  lockGuard mutex do
    if ← hasIterablePluginData mutex pluginName then return
    match ← getAllBarsForPlugin mutex pluginName with
    | none => return
    | some ofPlugin =>
      modify fun store =>
        { store with
          iterablePluginData := store.iterablePluginData.insert pluginName (DataStore.merged lib ofPlugin) }

def getIterablePluginData : StoreCall (List AggregateBarResult) :=
  lockGuard mutex do
    if !(← hasIterablePluginData mutex pluginName) then createIterablePluginData mutex lib pluginName
    match ← read fun store => store.iterablePluginData.lookup pluginName with
    | some data => return data
    | none => throw (.exception .outOfRange)

end StoreCall

/-- The public operations of the store. -/
inductive ApiCall
  | storeBarsByPluginName (pluginName : String) (symbol : Symbol) (bars : AggregateBars)
  | getBars (pluginName : String) (symbol : Symbol)
  | getAllBarsForPlugin (pluginName : String)
  | getSymbolsForPlugin (lib : Library) (pluginName : String)
  | hasPluginData (pluginName : String)
  | createIterablePluginData (lib : Library) (pluginName : String)
  | getIterablePluginData (lib : Library) (pluginName : String)
  | hasIterablePluginData (pluginName : String)
  | clear

namespace ApiCall

/-- The call, with what it returns forgotten. -/
def perform (mutex : Mutex) : ApiCall → StoreCall Unit
  | storeBarsByPluginName name symbol bars => StoreCall.storeBarsByPluginName mutex name symbol bars
  | getBars name symbol => discard (StoreCall.getBars mutex name symbol)
  | getAllBarsForPlugin name => discard (StoreCall.getAllBarsForPlugin mutex name)
  | getSymbolsForPlugin lib name => discard (StoreCall.getSymbolsForPlugin mutex lib name)
  | hasPluginData name => discard (StoreCall.hasPluginData mutex name)
  | createIterablePluginData lib name => StoreCall.createIterablePluginData mutex lib name
  | getIterablePluginData lib name => discard (StoreCall.getIterablePluginData mutex lib name)
  | hasIterablePluginData name => discard (StoreCall.hasIterablePluginData mutex name)
  | clear => StoreCall.clear mutex

/-- What the call makes of the store, leaving the mutex aside. -/
def effect (store : DataStore) : ApiCall → DataStore
  | storeBarsByPluginName name symbol bars => store.storeBarsByPluginName name symbol bars
  | createIterablePluginData lib name => store.createIterablePluginData lib name
  | getIterablePluginData lib name => (store.getIterablePluginData lib name).2
  | clear => store.clear
  | _ => store

/-- The calls that need the merged bars. -/
def wantsMerged : ApiCall → Bool
  | createIterablePluginData _ _ | getIterablePluginData _ _ => true
  | _ => false

end ApiCall

/-! ### Without the mutex -/

namespace StoreCall

variable {α β : Type} {s : SharedStore}

theorem run_bind (x : StoreCall α) (f : α → StoreCall β) :
    (x >>= f).run s =
      match x.run s with
      | (.ok a, s) => (f a).run s
      | (.error e, s) => (.error e, s) := by
  have hbind : (x >>= f).run s = (ExceptT.bindCont f (x s).1) (x s).2 := rfl
  unfold run at hbind ⊢
  rw [hbind]
  rcases x s with ⟨e | a, s'⟩ <;> rfl

@[simp] theorem run_pure (a : α) : (pure a : StoreCall α).run s = (.ok a, s) := rfl

@[simp] theorem run_throw (e : Fault) : (throw e : StoreCall α).run s = (.error e, s) := rfl

@[simp] theorem run_read (f : DataStore → α) : (read f).run s = (.ok (f s.store), s) := rfl

@[simp] theorem run_modify (f : DataStore → DataStore) : (modify f).run s = (.ok (), { s with store := f s.store }) :=
  rfl

@[simp] theorem lockGuard_ignored (body : StoreCall α) : lockGuard .ignored body = body := rfl

/-- Leaving the mutex aside, the call makes the merged bars as the function does. -/
theorem createIterablePluginData_ignored (lib : Library) (name : String) :
    (createIterablePluginData .ignored lib name).run s =
      (.ok (), { s with store := s.store.createIterablePluginData lib name }) := by
  unfold createIterablePluginData hasIterablePluginData getAllBarsForPlugin DataStore.createIterablePluginData
  simp only [lockGuard_ignored, run_bind, run_read]
  by_cases hhas : s.store.hasIterablePluginData name = true
  · simp [hhas]
  · rcases hbars : s.store.getAllBarsForPlugin name with _ | ofPlugin <;> simp [hhas, hbars, run_bind]

/-- Leaving the mutex aside, the call answers as the function does. -/
theorem getIterablePluginData_ignored (lib : Library) (name : String) :
    (getIterablePluginData .ignored lib name).run s =
      ((s.store.getIterablePluginData lib name).1.mapError .exception,
        { s with store := (s.store.getIterablePluginData lib name).2 }) := by
  unfold getIterablePluginData hasIterablePluginData DataStore.getIterablePluginData
  simp only [lockGuard_ignored, run_bind, run_read]
  by_cases hhas : s.store.hasIterablePluginData name = true
  · rcases hdata : s.store.iterablePluginData.lookup name with _ | data <;>
      simp [hhas, hdata, run_bind, Except.mapError]
  · rcases hdata : (s.store.createIterablePluginData lib name).iterablePluginData.lookup name with _ | data <;>
      simp [hhas, hdata, run_bind, createIterablePluginData_ignored, Except.mapError]

theorem run_discard (x : StoreCall α) : (discard x).run s = ((x.run s).1.map fun _ => (), (x.run s).2) := by
  have hmap : (discard x).run s = (x >>= fun _ => pure ()).run s := rfl
  rw [hmap, run_bind]
  rcases x.run s with ⟨e | a, s'⟩ <;> rfl

end StoreCall

/-- Leaving the mutex aside, every call does what its function does. -/
theorem ApiCall.perform_ignored (call : ApiCall) (s : SharedStore) :
    ((call.perform .ignored).run s).2 = { s with store := call.effect s.store } := by
  cases call with
  | createIterablePluginData lib name =>
    exact congrArg Prod.snd (StoreCall.createIterablePluginData_ignored lib name)
  | getIterablePluginData lib name =>
    rw [perform, StoreCall.run_discard, StoreCall.getIterablePluginData_ignored]
    rfl
  | _ => rfl

/-! ### With the mutex -/

/-- A call has come to its end and has released the mutex. -/
def Completed {α : Type} (result : Except Fault α × SharedStore) : Prop :=
  result.1 ≠ .error .deadlock ∧ result.2.locked = false

/-- Every call of the sequence completes, begun in the store the one before has left. -/
def AllComplete : List ApiCall → SharedStore → Prop
  | [], _ => True
  | call :: calls, s =>
    Completed ((call.perform .exclusive).run s) ∧ AllComplete calls ((call.perform .exclusive).run s).2

namespace StoreCall

variable {α : Type} {s : SharedStore}

/-- The mutex is held by the same thread. -/
theorem run_lockGuard_locked (body : StoreCall α) (h : s.locked = true) :
    (lockGuard .exclusive body).run s = (.error .deadlock, s) := by
  simp [run, lockGuard, h]

theorem completed_discard {x : StoreCall α} (h : Completed (x.run s)) : Completed ((discard x).run s) := by
  rw [run_discard]
  refine ⟨fun hd => h.1 ?_, h.2⟩
  rcases hx : (x.run s).1 with e | a
  · rw [hx] at hd
    simpa [Except.map] using hd
  · rw [hx] at hd
    cases hd

theorem completed_read (f : DataStore → α) (h : s.locked = false) :
    Completed ((lockGuard .exclusive (read f)).run s) := by
  simp [Completed, run, lockGuard, read, h]

theorem completed_modify (f : DataStore → DataStore) (h : s.locked = false) :
    Completed ((lockGuard .exclusive (modify f)).run s) := by
  simp [Completed, run, lockGuard, modify, h]

/-- A body whose first call takes the mutex again. -/
theorem run_lockGuard_nested {β : Type} (body : StoreCall α) (f : α → StoreCall β) (h : s.locked = false) :
    (lockGuard .exclusive (lockGuard .exclusive body >>= f)).run s =
      (.error .deadlock, { s with locked := true }) := by
  have hbody : (lockGuard .exclusive body >>= f).run { s with locked := true } =
      (.error .deadlock, { s with locked := true }) := by
    rw [run_bind, run_lockGuard_locked body rfl]
  unfold run at hbody ⊢
  rw [lockGuard]
  simp only [h, Bool.false_eq_true, ↓reduceIte, hbody]

theorem createIterablePluginData_blocks (lib : Library) (name : String) (h : s.locked = false) :
    ((createIterablePluginData .exclusive lib name).run s).1 = .error .deadlock :=
  congrArg Prod.fst (run_lockGuard_nested _ _ h)

theorem getIterablePluginData_blocks (lib : Library) (name : String) (h : s.locked = false) :
    ((getIterablePluginData .exclusive lib name).run s).1 = .error .deadlock :=
  congrArg Prod.fst (run_lockGuard_nested _ _ h)

end StoreCall

/-- A call completes exactly if it does not need the merged bars. -/
theorem ApiCall.completed_iff (call : ApiCall) {s : SharedStore} (h : s.locked = false) :
    Completed ((call.perform .exclusive).run s) ↔ call.wantsMerged = false := by
  cases call with
  | createIterablePluginData lib name =>
    simp [perform, wantsMerged, Completed, StoreCall.createIterablePluginData_blocks lib name h]
  | getIterablePluginData lib name =>
    simp [perform, wantsMerged, Completed, StoreCall.run_discard, StoreCall.getIterablePluginData_blocks lib name h,
      Except.map]
  | storeBarsByPluginName name symbol bars => exact iff_of_true (StoreCall.completed_modify _ h) rfl
  | clear => exact iff_of_true (StoreCall.completed_modify _ h) rfl
  | _ => exact iff_of_true (StoreCall.completed_discard (StoreCall.completed_read _ h)) rfl

/-- In every store with a free mutex: a sequence of calls completes, call by call, exactly if none of them asks for
the merged bars. -/
theorem allComplete_iff (calls : List ApiCall) (s : SharedStore) (h : s.locked = false) :
    AllComplete calls s ↔ ∀ call ∈ calls, call.wantsMerged = false := by
  induction calls generalizing s with
  | nil => simp [AllComplete]
  | cons call calls ih =>
    rw [AllComplete, List.forall_mem_cons, call.completed_iff h]
    refine and_congr_right fun hwants => ih _ ?_
    exact ((call.completed_iff h).2 hwants).2

/-- Storing the bars and asking for them completes. -/
theorem allComplete_store_and_ask :
    AllComplete [.storeBarsByPluginName "sma" "AAPL" {}, .hasPluginData "sma", .getBars "sma" "AAPL"] {} :=
  (allComplete_iff _ {} rfl).2 (by decide)

/-- What `BackTestEngine::run` asks for after the fetch: the call blocks on itself, and the mutex stays taken. -/
theorem replay_blocks :
    let s := ((ApiCall.storeBarsByPluginName "sma" "AAPL" {}).perform .exclusive).run {}
    Completed s ∧ (((StoreCall.getIterablePluginData .exclusive Library.stable "sma").run s.2).1 = .error .deadlock) ∧
      ((StoreCall.getIterablePluginData .exclusive Library.stable "sma").run s.2).2.locked = true ∧
      ¬ AllComplete [.storeBarsByPluginName "sma" "AAPL" {}, .getIterablePluginData Library.stable "sma"] {} := by
  refine ⟨⟨by decide, rfl⟩, rfl, rfl, fun h => h.2.1.1 rfl⟩

end Forge

end QuantForge
