import QuantForge.PluginLoaders

/-!
# The plugin manager

`PluginManager` (`plugin_manager.cpp`): it loads the plugins of a directory, hands out their loaders, and unloads them
when it is destroyed.  In the whole of its life nothing is called in a closed library or on a destroyed instance.
What it leaves alive are the instances of loads that an error has cut short, and of plugins named like one that was
loaded before.
-/

namespace QuantForge

namespace Manifest.PluginManifest

def isPython (m : PluginManifest) : Bool := m.kind = "python"
def isNative (m : PluginManifest) : Bool := m.kind = "native"
def isOneOf (m : PluginManifest) (pluginNames : List String) : Bool := pluginNames.any (· = m.name)

end Manifest.PluginManifest

/-- `IPluginLoader`. -/
inductive PluginLoader
  | python (l : PythonLoader)
  | native (l : NativeLoader)

namespace PluginLoader

def exp : PluginLoader → PluginExport
  | python l => l.exp
  | native l => l.exp

def lib : PluginLoader → Option ℕ
  | python _ => none
  | native l => l.lib

def call (m : Method) (h : Process) : PluginLoader → Process
  | python l => (PythonLoader.step (l, h) (.call m)).2
  | native l => (NativeLoader.step (l, h) (.call m)).2

def unloadPlugin (h : Process) : PluginLoader → Process
  | python l => (l.unloadPlugin h).2
  | native l => (l.unloadPlugin h).2

end PluginLoader

/-- An entry of the directory, with what its manifest's file holds and what a load of it finds. -/
structure DirEntry where
  isDirectory : Bool := true
  /-- `load_from_file`. -/
  document : Except Exception Json
  library : NativeLibrary := {}
  /-- The Python module can be imported, and its `create_plugin` called. -/
  imports : Bool := true
  /-- What `on_init` throws. -/
  onInit : Option Exception := none

structure PluginManager where
  pluginNames : List String
  pluginMapByName : List (String × PluginLoader) := []
  host : Process := {}

namespace PluginManager

/-- `loader->on_init()` and the insertion into the map; a loader that is not inserted is dropped without an unload. -/
def addPlugin (m : PluginManager) (name : String) (loader : PluginLoader) (onInit : Option Exception) :
    Except Exception Unit × PluginManager :=
  let called := (loader.exp.invoke .onInit m.host).1 = none
  let m := { m with host := loader.call .onInit m.host }
  match if called then onInit else none with
  | some e => (.error e, m)
  | none =>
    if name ∈ m.pluginMapByName.map Prod.fst then (.ok (), m)
    else (.ok (), { m with pluginMapByName := m.pluginMapByName ++ [(name, loader)] })

/-- The body of the loop of `load_plugins_from_dir`. -/
def loadPlugin (m : PluginManager) (dir : DirEntry) : Except Exception Unit × PluginManager :=
  if !dir.isDirectory then (.ok (), m)
  else match dir.document >>= Manifest.parseJson with
    | .error e => (.error e, m)
    | .ok manifest =>
      if !manifest.isOneOf m.pluginNames then (.ok (), m)
      else if manifest.isPython then
        let r := PythonLoader.loadPlugin dir.imports {} m.host
        addPlugin { m with host := r.2 } manifest.name (.python r.1) dir.onInit
      else if manifest.isNative then
        match NativeLoader.loadPlugin dir.library {} m.host with
        | (.error e, _, h) => (.error e, { m with host := h })
        | (.ok (), l, h) => addPlugin { m with host := h } manifest.name (.native l) dir.onInit
      else (.error (.runtimeError "Unknown plugin kind in manifest"), m)

def loadPlugins : List DirEntry → PluginManager → Except Exception Unit × PluginManager
  | [], m => (.ok (), m)
  | dir :: dirs, m =>
    match m.loadPlugin dir with
    | (.ok (), m) => loadPlugins dirs m
    | (.error e, m) => (.error e, m)

/-- `PluginManager::load_plugins_from_dir`. -/
def loadPluginsFromDir (m : PluginManager) (root : List DirEntry) : Except Exception Unit × PluginManager :=
  if m.pluginNames = [] then (.error (.runtimeError "No plugin names provided to load"), m) else loadPlugins root m

/-- Calls of the loaders that `with_plugins` hands out, in any order. -/
def use (m : PluginManager) (calls : List (String × Method)) : PluginManager :=
  { m with host := calls.foldl (fun h c => match m.pluginMapByName.lookup c.1 with
      | some loader => loader.call c.2 h
      | none => h) m.host }

/-- `~PluginManager`. -/
def destruct (m : PluginManager) : Process := m.pluginMapByName.foldl (fun h p => p.2.unloadPlugin h) m.host

/-- The process at the end of a manager's life. -/
def life (pluginNames : List String) (root : List DirEntry) (calls : List (String × Method)) : Process :=
  (((PluginManager.loadPluginsFromDir { pluginNames } root).2).use calls).destruct

end PluginManager

/-! ### What is left -/

/-- What an entry comes to: passed over, an exception, or a plugin; `made` says whether there is an instance. -/
inductive Outcome
  | passed
  | stopped (made : Bool)
  | loaded (name : String) (made : Bool)

def DirEntry.outcome (pluginNames : List String) (dir : DirEntry) : Outcome :=
  if !dir.isDirectory then .passed
  else match dir.document >>= Manifest.parseJson with
    | .error _ => .stopped false
    | .ok manifest =>
      if !manifest.isOneOf pluginNames then .passed
      else if manifest.isPython then
        if dir.imports && dir.onInit.isSome then .stopped true else .loaded manifest.name dir.imports
      else if manifest.isNative then
        if !(dir.library.makes && dir.library.complete) then .stopped dir.library.makes
        else if dir.library.methods .onInit && dir.onInit.isSome then .stopped true
        else .loaded manifest.name true
      else .stopped false

/-- The loads whose instance no loader in the map has; `seen` are the names in the map, and `k` is the number of the
next load. -/
def abandoned : List Outcome → List String → ℕ → List ℕ
  | [], _, _ => []
  | .passed :: outcomes, seen, k => abandoned outcomes seen k
  | .stopped made :: _, _, k => if made then [k] else []
  | .loaded name made :: outcomes, seen, k =>
    if name ∈ seen then (if made then [k] else []) ++ abandoned outcomes seen (k + 1)
    else abandoned outcomes (seen ++ [name]) (k + 1)

/-! ### A loader in the map -/

namespace PluginLoader

/-- What a load leaves in a loader that is kept. -/
def Held : PluginLoader → Prop
  | python l => l.exp = {} ∨ ∃ k, l.exp = ⟨Manifest.pluginApiVersion, some k, PythonLoader.vtable⟩
  | native l => ∃ k found, l = ⟨⟨Manifest.pluginApiVersion, some k, NativeLibrary.vtable found k⟩, some k⟩ ∧
      found.complete = true

/-- The loader's instance is alive, and its library is open. -/
structure Served (l : PluginLoader) (h : Process) : Prop where
  held : l.Held
  alive : ∀ i, l.exp.self = some i → i ∈ h.alive
  opened : ∀ k, l.lib = some k → k ∈ h.opened

/-- What the unload of a served loader leaves. -/
def released (l : PluginLoader) (h : Process) : Process :=
  { h with
    alive := match l.exp.self with
      | none => h.alive
      | some i => h.alive.erase i
    opened := match l.lib with
      | none => h.opened
      | some k => h.opened.erase k }

theorem Served.sound {l : NativeLoader} {h : Process} (hl : (native l).Served h) (hcalm : h.crashed = false) :
    NativeLoader.Sound (l, h) := by
  obtain ⟨⟨k, found, rfl, hcomplete⟩, halive, hopened⟩ := hl
  exact ⟨hcalm, fun _ => ⟨k, found, rfl, NativeLoader.destroy_of_complete hcomplete, halive k rfl, hopened k rfl⟩⟩

theorem Served.call {l : PluginLoader} {h : Process} (hl : l.Served h) (hcalm : h.crashed = false) (m : Method) :
    l.call m h = h := by
  cases l with
  | native l => exact congrArg Prod.snd ((hl.sound hcalm).step_call m)
  | python l =>
    show (PythonLoader.step (l, h) (.call m)).2 = h
    rw [PythonLoader.step_call]
    split
    · rfl
    · rcases hl.held with hexp | ⟨k, hexp⟩
      · rw [hexp, PythonLoader.invoke_absent]
      · rw [hexp, PythonLoader.invoke_vtable, Process.call_eq_self PythonLoader.host_mapped]
        exact hl.alive k (congrArg PluginExport.self hexp)

theorem Served.unload {l : PluginLoader} {h : Process} (hl : l.Served h) : l.unloadPlugin h = l.released h := by
  cases l with
  | native l =>
    obtain ⟨⟨k, found, rfl, hcomplete⟩, halive, hopened⟩ := hl
    have hk : k ∈ h.alive := halive k rfl
    have hlib : k ∈ h.opened := hopened k rfl
    simp [unloadPlugin, released, exp, lib, NativeLoader.unloadPlugin, NativeLibrary.vtable,
      NativeLoader.destroy_of_complete hcomplete, Process.destroy, Process.call, Process.close, hk, hlib]
  | python l =>
    rcases hl.held with hexp | ⟨k, hexp⟩
    · show (PythonLoader.step (l, h) .unload).2 = _
      rw [PythonLoader.unload_absent hexp, released, show (python l).exp.self = none by rw [exp, hexp]]
      rfl
    · have hk : k ∈ h.alive := hl.alive k (congrArg PluginExport.self hexp)
      show (PythonLoader.step (l, h) .unload).2 = _
      rw [PythonLoader.unload_vtable hexp, released, show (python l).exp.self = some k by rw [exp, hexp],
        Process.destroy, Process.call_eq_self PythonLoader.host_mapped hk]
      rfl

end PluginLoader

/-! ### What the map owns -/

namespace PluginManager

/-- The instances of the loaders in the map. -/
def owned (plugins : List (String × PluginLoader)) : List ℕ := plugins.filterMap fun p => p.2.exp.self

/-- Their libraries. -/
def libs (plugins : List (String × PluginLoader)) : List ℕ := plugins.filterMap fun p => p.2.lib

/-- Nothing has crashed; what is alive is what the loaders of the map have, and what is lost. -/
structure Sound (m : PluginManager) (lost : List ℕ) : Prop where
  calm : m.host.crashed = false
  held : ∀ p ∈ m.pluginMapByName, p.2.Held
  alive : m.host.alive.Perm (owned m.pluginMapByName ++ lost)
  opened : ∃ left, m.host.opened.Perm (libs m.pluginMapByName ++ left) ∧ left ⊆ lost

theorem Sound.served {m : PluginManager} {lost : List ℕ} (h : Sound m lost) {p : String × PluginLoader}
    (hp : p ∈ m.pluginMapByName) : p.2.Served m.host := by
  obtain ⟨left, hopened, -⟩ := h.opened
  refine ⟨h.held p hp, fun i hi => ?_, fun k hk => ?_⟩
  · exact h.alive.mem_iff.2 (List.mem_append_left _ (List.mem_filterMap.2 ⟨p, hp, hi⟩))
  · exact hopened.mem_iff.2 (List.mem_append_left _ (List.mem_filterMap.2 ⟨p, hp, hk⟩))

theorem Sound.use {m : PluginManager} {lost : List ℕ} (h : Sound m lost) (calls : List (String × Method)) :
    m.use calls = m := by
  have hfold : calls.foldl (fun x c => match m.pluginMapByName.lookup c.1 with
      | some loader => loader.call c.2 x
      | none => x) m.host = m.host := by
    induction calls with
    | nil => rfl
    | cons c calls ih =>
      rw [List.foldl_cons]
      split
      · rename_i loader hlookup
        obtain ⟨l₁, l₂, hmap, -⟩ := List.lookup_eq_some_iff.1 hlookup
        have hmem : (c.1, loader) ∈ m.pluginMapByName := hmap ▸ List.mem_append_right _ List.mem_cons_self
        rw [(h.served hmem).call h.calm, ih]
      · exact ih
  rw [PluginManager.use, hfold]

/-- Unloading the first plugin of the map. -/
theorem Sound.unload {pluginNames : List String} {p : String × PluginLoader} {plugins : List (String × PluginLoader)}
    {x : Process} {lost : List ℕ} (h : Sound ⟨pluginNames, p :: plugins, x⟩ lost) :
    Sound ⟨pluginNames, plugins, p.2.unloadPlugin x⟩ lost := by
  obtain ⟨left, hopened, hleft⟩ := h.opened
  have halive := h.alive
  rw [(h.served List.mem_cons_self).unload]
  refine ⟨h.calm, fun q hq => h.held q (List.mem_cons_of_mem _ hq), ?_, left, ?_, hleft⟩
  · cases hself : p.2.exp.self with
    | none => simpa [PluginLoader.released, owned, hself] using halive
    | some i => simpa [PluginLoader.released, owned, hself] using halive.erase i
  · cases hlib : p.2.lib with
    | none => simpa [PluginLoader.released, libs, hlib] using hopened
    | some k => simpa [PluginLoader.released, libs, hlib] using hopened.erase k

/-- At the end of a manager's life only what is lost remains. -/
theorem Sound.destruct {m : PluginManager} {lost : List ℕ} (h : Sound m lost) :
    m.destruct.crashed = false ∧ m.destruct.alive.Perm lost ∧ ∀ k ∈ m.destruct.opened, k ∈ lost := by
  obtain ⟨pluginNames, plugins, x⟩ := m
  rw [PluginManager.destruct]
  induction plugins generalizing x with
  | nil =>
    obtain ⟨left, hopened, hleft⟩ := h.opened
    exact ⟨h.calm, h.alive, fun k hk => hleft (hopened.mem_iff.1 hk)⟩
  | cons p plugins ih => exact ih _ h.unload

/-! ### Loading -/

variable {m : PluginManager} {lost : List ℕ}

/-- The map with a loader put into it. -/
def withLoader (m : PluginManager) (name : String) (loader : PluginLoader) : PluginManager :=
  { m with pluginMapByName := m.pluginMapByName ++ [(name, loader)] }

theorem owned_withLoader (m : PluginManager) (name : String) (loader : PluginLoader) :
    owned (m.withLoader name loader).pluginMapByName = owned m.pluginMapByName ++ loader.exp.self.toList := by
  rw [withLoader, owned, List.filterMap_append]
  cases hself : loader.exp.self <;> simp [owned, hself]

theorem libs_withLoader (m : PluginManager) (name : String) (loader : PluginLoader) :
    libs (m.withLoader name loader).pluginMapByName = libs m.pluginMapByName ++ loader.lib.toList := by
  rw [withLoader, libs, List.filterMap_append]
  cases hlib : loader.lib <;> simp [libs, hlib]

/-- A loader dropped without an unload loses its instance, and its library stays open. -/
theorem Sound.drop {name : String} {loader : PluginLoader} (h : Sound (m.withLoader name loader) lost) :
    Sound m (lost ++ loader.exp.self.toList) := by
  obtain ⟨left, hopened, hleft⟩ := h.opened
  have halive := h.alive
  rw [owned_withLoader, List.append_assoc] at halive
  rw [libs_withLoader, List.append_assoc] at hopened
  refine ⟨h.calm, fun p hp => h.held p (List.mem_append_left _ hp), ?_, loader.lib.toList ++ left, hopened, ?_⟩
  · exact halive.trans (List.perm_append_comm.append_left _)
  · have hheld : loader.Held := h.held (name, loader) (List.mem_append_right _ (List.mem_singleton_self _))
    intro k hk
    rcases List.mem_append.1 hk with hk | hk
    · refine List.mem_append_right _ ?_
      cases loader with
      | python l => exact absurd hk List.not_mem_nil
      | native l =>
        obtain ⟨i, found, rfl, -⟩ := hheld
        exact hk
    · exact List.mem_append_left _ (hleft hk)

/-- `on_init`, and the insertion. -/
theorem Sound.addPlugin {name : String} {loader : PluginLoader} (h : Sound (m.withLoader name loader) lost)
    (onInit : Option Exception) : m.addPlugin name loader onInit =
      match if (loader.exp.invoke .onInit m.host).1 = none then onInit else none with
      | some e => (.error e, m)
      | none => (.ok (), if name ∈ m.pluginMapByName.map Prod.fst then m else m.withLoader name loader) := by
  have hserved : loader.Served m.host := h.served (p := (name, loader))
    (List.mem_append_right _ (List.mem_singleton_self _))
  have hsame : ({ m with host := loader.call .onInit m.host } : PluginManager) = m := by
    rw [hserved.call h.calm]
  rw [PluginManager.addPlugin, hsame]
  split
  · rfl
  · split <;> rfl

/-- A new loader, with what its load has made. -/
theorem Sound.keep (h : Sound m lost) (name : String) {loader : PluginLoader} {x : Process}
    (hcalm : x.crashed = false) (hheld : loader.Held) (halive : x.alive = loader.exp.self.toList ++ m.host.alive)
    (hopened : x.opened = loader.lib.toList ++ m.host.opened) :
    Sound (withLoader { m with host := x } name loader) lost := by
  obtain ⟨left, hleft, hlost⟩ := h.opened
  refine ⟨hcalm, fun p hp => ?_, ?_, left, ?_, hlost⟩
  · rcases List.mem_append.1 hp with hp | hp
    · exact h.held p hp
    · rw [List.mem_singleton.1 hp]
      exact hheld
  · rw [owned_withLoader]
    show x.alive.Perm _
    rw [halive, List.append_assoc]
    exact (h.alive.append_left _).trans (List.perm_append_comm_assoc ..)
  · rw [libs_withLoader]
    show x.opened.Perm _
    rw [hopened, List.append_assoc]
    exact (hleft.append_left _).trans (List.perm_append_comm_assoc ..)

theorem Sound.python (h : Sound m lost) (name : String) (imports : Bool) :
    Sound (withLoader { m with host := (PythonLoader.loadPlugin imports {} m.host).2 } name
      (.python (PythonLoader.loadPlugin imports {} m.host).1)) lost := by
  cases imports
  · exact h.keep name h.calm (Or.inl rfl) rfl rfl
  · exact h.keep name h.calm (Or.inr ⟨m.host.loads, rfl⟩) rfl rfl

theorem Sound.native (h : Sound m lost) (name : String) {found : NativeLibrary} {l : NativeLoader} {x : Process}
    (hload : NativeLoader.loadPlugin found {} m.host = (.ok (), l, x)) :
    Sound (withLoader { m with host := x } name (.native l)) lost := by
  rcases NativeLoader.loadPlugin_cases found {} m.host with ⟨hs, -, hcomplete, -⟩ | ⟨-, exp, what, hs, -⟩
  · rw [hload] at hs
    obtain ⟨rfl, rfl⟩ := Prod.mk.inj hs
    exact h.keep name h.calm ⟨m.host.loads, found, rfl, hcomplete⟩ rfl rfl
  · rw [hload] at hs
    exact nomatch congrArg Prod.fst hs

theorem Sound.refused (h : Sound m lost) {found : NativeLibrary} {e : Exception} {l : NativeLoader} {x : Process}
    (hload : NativeLoader.loadPlugin found {} m.host = (.error e, l, x)) :
    Sound { m with host := x } (lost ++ if found.makes then [m.host.loads] else []) := by
  rcases NativeLoader.loadPlugin_cases found {} m.host with ⟨-, -, -, hok⟩ | ⟨hnot, exp, what, hs, -⟩
  · rw [hload] at hok
    exact nomatch hok
  · rw [hload] at hs
    have hx : x = _ := congrArg (fun r => r.2.2) hs
    obtain ⟨left, hopened, hleft⟩ := h.opened
    rw [hx]
    refine ⟨h.calm, h.held, ?_, left, hopened, fun k hk => List.mem_append_left _ (hleft hk)⟩
    have hrefused : found.refused = found.makes := by
      rw [NativeLibrary.refused]
      cases hmakes : found.makes
      · rfl
      · rw [hmakes, Bool.true_and] at hnot
        rw [hnot]
        rfl
    show (if found.refused then m.host.loads :: m.host.alive else m.host.alive).Perm _
    rw [hrefused]
    split
    · rw [← List.append_assoc]
      exact (h.alive.cons _).trans (List.perm_append_singleton _ _).symm
    · rw [List.append_nil]
      exact h.alive

/-- What an entry's load does to the map, as its outcome says. -/
def Fits (m m' : PluginManager) (lost : List ℕ) (r : Except Exception Unit) : Outcome → Prop
  | .passed => r = .ok () ∧ m' = m
  | .stopped made => (∃ e, r = .error e) ∧ Sound m' (lost ++ if made then [m.host.loads] else [])
  | .loaded name made => r = .ok () ∧ m'.pluginNames = m.pluginNames ∧ m'.host.loads = m.host.loads + 1 ∧
      if name ∈ m.pluginMapByName.map Prod.fst then
        m'.pluginMapByName = m.pluginMapByName ∧ Sound m' (lost ++ if made then [m.host.loads] else [])
      else m'.pluginMapByName.map Prod.fst = m.pluginMapByName.map Prod.fst ++ [name] ∧ Sound m' lost

theorem Sound.fits_addPlugin {name : String} {loader : PluginLoader} {x : Process} {made called : Bool}
    (h : Sound (withLoader { m with host := x } name loader) lost) (hloads : x.loads = m.host.loads + 1)
    (hself : loader.exp.self.toList = if made then [m.host.loads] else [])
    (hcalled : (loader.exp.invoke .onInit x).1 = none ↔ called = true) (onInit : Option Exception) :
    Fits m (PluginManager.addPlugin { m with host := x } name loader onInit).2 lost
      (PluginManager.addPlugin { m with host := x } name loader onInit).1
      (if called && onInit.isSome then .stopped made else .loaded name made) := by
  have hdrop := h.drop
  rw [hself] at hdrop
  rw [h.addPlugin]
  simp only [hcalled]
  have hstays : Fits m (if name ∈ m.pluginMapByName.map Prod.fst then { m with host := x } else
      withLoader { m with host := x } name loader) lost (.ok ()) (.loaded name made) := by
    split
    · rename_i hmem
      exact ⟨rfl, rfl, hloads, by rw [if_pos hmem]; exact ⟨rfl, hdrop⟩⟩
    · rename_i hmem
      exact ⟨rfl, rfl, hloads, by rw [if_neg hmem]; exact ⟨by simp [withLoader], h⟩⟩
  cases called with
  | false => exact hstays
  | true =>
    cases onInit with
    | none => exact hstays
    | some e => exact ⟨⟨e, rfl⟩, hdrop⟩

theorem Sound.loadPlugin (h : Sound m lost) (dir : DirEntry) :
    Fits m (m.loadPlugin dir).2 lost (m.loadPlugin dir).1 (dir.outcome m.pluginNames) := by
  cases hdir : dir.isDirectory with
  | false =>
    simp only [PluginManager.loadPlugin, DirEntry.outcome, hdir, Bool.not_false, if_true]
    exact ⟨rfl, rfl⟩
  | true =>
  cases hdoc : dir.document >>= Manifest.parseJson with
  | error e =>
    simp only [PluginManager.loadPlugin, DirEntry.outcome, hdir, hdoc, Bool.not_true, Bool.false_eq_true, if_false]
    exact ⟨⟨e, rfl⟩, by simpa using h⟩
  | ok manifest =>
  simp only [PluginManager.loadPlugin, DirEntry.outcome, hdir, hdoc, Bool.not_true, Bool.false_eq_true, if_false]
  split
  · exact ⟨rfl, rfl⟩
  split
  · cases himports : dir.imports
    · have hcalled : (PluginExport.invoke {} .onInit { m.host with loads := m.host.loads + 1 }).1 = none ↔
          false = true := by
        simp [PluginExport.invoke, Manifest.pluginApiVersion]
      exact (h.python manifest.name false).fits_addPlugin rfl rfl hcalled dir.onInit
    · have hcalled : (PluginExport.invoke ⟨Manifest.pluginApiVersion, some m.host.loads, PythonLoader.vtable⟩ .onInit
          { m.host with loads := m.host.loads + 1, alive := m.host.loads :: m.host.alive }).1 = none ↔
            true = true := by
        simp [PluginExport.invoke, PythonLoader.get_vtable]
      exact (h.python manifest.name true).fits_addPlugin rfl rfl hcalled dir.onInit
  split
  · rcases NativeLoader.loadPlugin_cases dir.library {} m.host with
      ⟨hs, hmakes, hcomplete, hok⟩ | ⟨hnot, exp, what, hs, -⟩
    · have hload : NativeLoader.loadPlugin dir.library {} m.host = (.ok (), _, _) := Prod.ext hok hs
      have hcalled : (PluginExport.invoke
        ⟨Manifest.pluginApiVersion, some m.host.loads, dir.library.vtable m.host.loads⟩
          .onInit { m.host with
            loads := m.host.loads + 1, opened := m.host.loads :: m.host.opened
            alive := m.host.loads :: m.host.alive }).1 = none ↔ dir.library.methods .onInit = true := by
        cases hinit : dir.library.methods .onInit <;>
          simp [PluginExport.invoke, PluginVTable.get, NativeLibrary.vtable, hinit]
      rw [hload, hmakes, hcomplete]
      exact (h.native manifest.name hload).fits_addPlugin rfl rfl hcalled dir.onInit
    · have hrefused := h.refused hs
      rw [hs, hnot]
      exact ⟨⟨what, rfl⟩, hrefused⟩
  · exact ⟨⟨_, rfl⟩, by simpa using h⟩

theorem Sound.loadPlugins (h : Sound m lost) (dirs : List DirEntry) :
    Sound (loadPlugins dirs m).2
      (lost ++ abandoned (dirs.map (DirEntry.outcome m.pluginNames)) (m.pluginMapByName.map Prod.fst)
        m.host.loads) := by
  induction dirs generalizing m lost with
  | nil => simpa [PluginManager.loadPlugins, abandoned] using h
  | cons dir dirs ih =>
    have hfits := h.loadPlugin dir
    rw [PluginManager.loadPlugins, List.map_cons]
    rcases hload : m.loadPlugin dir with ⟨r, m'⟩
    rw [hload] at hfits
    cases hout : dir.outcome m.pluginNames with
    | passed =>
      rw [hout] at hfits
      obtain ⟨rfl, rfl⟩ := hfits
      exact ih h
    | stopped made =>
      rw [hout] at hfits
      obtain ⟨⟨e, rfl⟩, hlost⟩ := hfits
      exact hlost
    | loaded name made =>
      rw [hout] at hfits
      obtain ⟨rfl, hnames, hloads, hsound⟩ := hfits
      simp only at hnames hloads hsound ⊢
      rw [abandoned]
      split
      · rename_i hmem
        rw [if_pos hmem] at hsound
        rw [← List.append_assoc, ← hnames, ← hloads, ← hsound.1]
        exact ih hsound.2
      · rename_i hmem
        rw [if_neg hmem] at hsound
        rw [← hnames, ← hloads, ← hsound.1]
        exact ih hsound.2

/-- Whatever the directory holds and whatever is called, no call of a manager's life goes to a closed library or a
destroyed instance, and the instances that it leaves alive are those of the abandoned loads. -/
theorem life_released (pluginNames : List String) (root : List DirEntry) (calls : List (String × Method)) :
    let left := if pluginNames = [] then [] else abandoned (root.map (DirEntry.outcome pluginNames)) [] 0
    (life pluginNames root calls).crashed = false ∧ (life pluginNames root calls).alive.Perm left ∧
      ∀ k ∈ (life pluginNames root calls).opened, k ∈ left := by
  intro left
  have hempty : Sound { pluginNames } [] := ⟨rfl, by simp, List.Perm.refl _, [], List.Perm.refl _, by simp⟩
  have hload : Sound (PluginManager.loadPluginsFromDir { pluginNames } root).2 left := by
    rw [PluginManager.loadPluginsFromDir]
    simp only [left]
    split
    · exact hempty
    · exact hempty.loadPlugins root
  rw [life, hload.use]
  exact hload.destruct

end PluginManager

end QuantForge
