import QuantForge.Manifest

/-!
# The life of a plugin

`NativeLoader` and `PythonLoader` (`native_loader.cpp`, `python_loader.cpp`): what they call through the plugin's
table of functions, and when.  A call crashes when its function lies in a library that is closed, or when the instance
handed to it is null or destroyed.  A native plugin is never called that way, in any order of calls of its loader; a
Python plugin is, exactly when one of its methods is called after it has been unloaded.
-/

namespace QuantForge

/-! ### The process -/

/-- Where a function pointer leads: into the program itself, or into the library that a load has opened. -/
inductive Code
  | host
  | library (k : ℕ)
  deriving DecidableEq

/-- The resources of the plugins.  Loads are numbered, and so are the library handle and the instance of each. -/
structure Process where
  loads : ℕ := 0
  alive : List ℕ := []
  opened : List ℕ := []
  crashed : Bool := false

namespace Process

/-- A call of a function that uses the instance `self`. -/
def call (h : Process) (code : Code) (self : Option ℕ) : Process :=
  let mapped := match code with
    | .host => true
    | .library k => k ∈ h.opened
  let valid := match self with
    | none => false
    | some i => i ∈ h.alive
  { h with crashed := h.crashed || !(mapped && valid) }

/-- `exp_.vtable_.destroy(exp_.instance_)`. -/
def destroy (h : Process) (code : Code) (i : ℕ) : Process := { h.call code (some i) with alive := h.alive.erase i }

/-- `LibHandler::close`. -/
def close (h : Process) : Option ℕ → Process
  | none => h
  | some k => { h with opened := h.opened.erase k }

end Process

/-! ### `abi.h` -/

/-- The functions of the table that the loaders call on the engine's behalf. -/
inductive Method
  | onInit | onStart | onBar | onEnd | freeString
  deriving DecidableEq

structure PluginVTable where
  destroy : Option Code := none
  onInit : Option Code := none
  onStart : Option Code := none
  onBar : Option Code := none
  onEnd : Option Code := none
  freeString : Option Code := none
  deriving DecidableEq

def PluginVTable.get (vtable : PluginVTable) : Method → Option Code
  | .onInit => vtable.onInit
  | .onStart => vtable.onStart
  | .onBar => vtable.onBar
  | .onEnd => vtable.onEnd
  | .freeString => vtable.freeString

/-- `PluginExport`; `self` is its `instance_`. -/
structure PluginExport where
  apiVersion : ℤ := 0
  self : Option ℕ := none
  vtable : PluginVTable := {}
  deriving DecidableEq

def Method.name : Method → String
  | .onInit => "on_init"
  | .onStart => "on_start"
  | .onBar => "on_bar"
  | .onEnd => "on_end"
  | .freeString => "free_string"

/-- The body that the methods of both loaders share: the message of a result with code 1 when the plugin is not
called. -/
def PluginExport.invoke (exp : PluginExport) (m : Method) (h : Process) : Option String × Process :=
  if exp.apiVersion ≠ Manifest.pluginApiVersion then (some "Invalid API Version", h)
  else match exp.vtable.get m with
    | none => (some ("Undefined Method " ++ m.name), h)
    | some code => (none, h.call code exp.self)

/-- What is asked of a loader; `L` says what a load finds. -/
inductive LoaderCall (L : Type)
  | load (found : L)
  | call (m : Method)
  | unload

/-! ### `native_loader.cpp` -/

/-- What `dlopen`, `dlsym` and `create_plugin` give a load. -/
structure NativeLibrary where
  opens : Bool := true
  dlerror : String := ""
  hasCreate : Bool := true
  apiVersion : ℤ := Manifest.pluginApiVersion
  makesInstance : Bool := true
  /-- Which functions its table has. -/
  destroy : Bool := true
  methods : Method → Bool := fun _ => true

/-- The table of the library's functions. -/
def NativeLibrary.vtable (lib : NativeLibrary) (k : ℕ) : PluginVTable :=
  let entry (m : Method) : Option Code := if lib.methods m then some (.library k) else none
  { destroy := if lib.destroy then some (.library k) else none
    onInit := entry .onInit
    onStart := entry .onStart
    onBar := entry .onBar
    onEnd := entry .onEnd
    freeString := entry .freeString }

/-- An instance is made. -/
def NativeLibrary.makes (lib : NativeLibrary) : Bool := lib.opens && lib.hasCreate && lib.makesInstance

/-- The export has what a loader asks of it. -/
def NativeLibrary.complete (lib : NativeLibrary) : Bool :=
  lib.apiVersion = Manifest.pluginApiVersion && lib.destroy && lib.methods .onEnd

/-- An instance is made, and not taken. -/
def NativeLibrary.refused (lib : NativeLibrary) : Bool := lib.makes && !lib.complete

structure NativeLoader where
  exp : PluginExport := {}
  lib : Option ℕ := none

namespace NativeLoader

/-- `NativeLoader::load_plugin`. -/
def loadPlugin (found : NativeLibrary) (l : NativeLoader) (h : Process) :
    Except Exception Unit × NativeLoader × Process :=
  let k := h.loads
  let h := { h with loads := k + 1 }
  if !found.opens then (.error (.runtimeError found.dlerror), { l with lib := none }, h)
  else
    let h := { h with opened := k :: h.opened }
    -- `exp_` still is what an earlier load has made
    if !found.hasCreate then (.error (.runtimeError "Failed to load plugin"), { l with lib := none },
      h.close (some k))
    else
      let exp : PluginExport := ⟨found.apiVersion, if found.makesInstance then some k else none, found.vtable k⟩
      let h := { h with alive := if found.makesInstance then k :: h.alive else h.alive }
      if exp.apiVersion ≠ Manifest.pluginApiVersion ∨ exp.self = none then
        (.error (.runtimeError "API mismatch or null instance"), {}, h.close (some k))
      else if exp.vtable.destroy = none ∨ exp.vtable.onEnd = none then
        (.error (.runtimeError "Required vtable methods missing"), {}, h.close (some k))
      else (.ok (), ⟨exp, some k⟩, h)

def onInit (l : NativeLoader) (h : Process) : Process := (l.exp.invoke .onInit h).2
def onStart (l : NativeLoader) (h : Process) : Option String × Process := l.exp.invoke .onStart h
def onBar (l : NativeLoader) (h : Process) : Option String × Process := l.exp.invoke .onBar h
def onEnd (l : NativeLoader) (h : Process) : Option String × Process := l.exp.invoke .onEnd h
def freeString (l : NativeLoader) (h : Process) : Process := (l.exp.invoke .freeString h).2

/-- `NativeLoader::unload_plugin`. -/
def unloadPlugin (l : NativeLoader) (h : Process) : NativeLoader × Process :=
  if l.exp.apiVersion ≠ Manifest.pluginApiVersion then (l, h)
  else
    let h := match l.exp.self, l.exp.vtable.destroy with
      | some i, some code => h.destroy code i
      | _, _ => h
    ({}, h.close l.lib)

def step (s : NativeLoader × Process) : LoaderCall NativeLibrary → NativeLoader × Process
  | .load found => (s.1.loadPlugin found s.2).2
  | .call .onInit => (s.1, s.1.onInit s.2)
  | .call .onStart => (s.1, (s.1.onStart s.2).2)
  | .call .onBar => (s.1, (s.1.onBar s.2).2)
  | .call .onEnd => (s.1, (s.1.onEnd s.2).2)
  | .call .freeString => (s.1, s.1.freeString s.2)
  | .unload => s.1.unloadPlugin s.2

/-- A loader's life: any calls, in any order. -/
def run (calls : List (LoaderCall NativeLibrary)) : NativeLoader × Process := calls.foldl step ({}, {})

end NativeLoader

/-! ### No order of calls crashes a native plugin -/

theorem Process.call_eq_self {h : Process} {code : Code} {i : ℕ} (hcode : ∀ k, code = .library k → k ∈ h.opened)
    (hi : i ∈ h.alive) : h.call code (some i) = h := by
  rcases code with _ | k
  · simp [Process.call, hi]
  · simp [Process.call, hi, hcode k rfl]

/-- Whatever is called through it finds its code and its instance. -/
def PluginExport.Callable (exp : PluginExport) (h : Process) : Prop :=
  ∃ i, exp.self = some i ∧ i ∈ h.alive ∧ ∀ m code, exp.vtable.get m = some code →
    ∀ k, code = .library k → k ∈ h.opened

theorem PluginExport.invoke_eq_self {exp : PluginExport} {h : Process}
    (hexp : exp.apiVersion = Manifest.pluginApiVersion → exp.Callable h) (m : Method) : (exp.invoke m h).2 = h := by
  unfold invoke
  split
  · rfl
  · rename_i hapi
    obtain ⟨i, hself, hi, hcode⟩ := hexp (not_not.1 hapi)
    split
    · rfl
    · rename_i code hget
      rw [hself]
      exact Process.call_eq_self (hcode m code hget) hi

namespace NativeLoader

theorem get_vtable {found : NativeLibrary} {k : ℕ} {m : Method} {code : Code}
    (h : (found.vtable k).get m = some code) :
    code = .library k := by
  cases m <;> simp only [NativeLibrary.vtable, PluginVTable.get, Option.ite_none_right_eq_some,
    Option.some.injEq] at h <;>
    exact h.2.symm

/-- Nothing has crashed, and the instance in `exp_` is alive, with its library open. -/
structure Sound (s : NativeLoader × Process) : Prop where
  calm : s.2.crashed = false
  owns : s.1.exp.apiVersion = Manifest.pluginApiVersion → ∃ i found,
    s.1.exp = ⟨Manifest.pluginApiVersion, some i, NativeLibrary.vtable found i⟩ ∧ found.destroy = true ∧
      i ∈ s.2.alive ∧ i ∈ s.2.opened

theorem Sound.callable {s : NativeLoader × Process} (h : Sound s)
    (hapi : s.1.exp.apiVersion = Manifest.pluginApiVersion) : s.1.exp.Callable s.2 := by
  obtain ⟨i, found, hexp, -, hi, hopened⟩ := h.owns hapi
  rw [hexp]
  refine ⟨i, rfl, hi, fun m code hget k hk => ?_⟩
  rw [get_vtable hget] at hk
  exact Code.library.inj hk ▸ hopened

theorem step_call (s : NativeLoader × Process) (m : Method) : step s (.call m) = (s.1, (s.1.exp.invoke m s.2).2) := by
  cases m <;> rfl

theorem Sound.step_call {s : NativeLoader × Process} (h : Sound s) (m : Method) :
    NativeLoader.step s (.call m) = s := by
  rw [NativeLoader.step_call, PluginExport.invoke_eq_self h.callable]

/-- What a load comes to: a new instance in `exp_`, or an error.  The instance of a refused export stays alive. -/
theorem loadPlugin_cases (found : NativeLibrary) (l : NativeLoader) (h : Process) :
    (loadPlugin found l h).2 = (⟨⟨Manifest.pluginApiVersion, some h.loads, found.vtable h.loads⟩, some h.loads⟩,
        { h with loads := h.loads + 1, opened := h.loads :: h.opened, alive := h.loads :: h.alive }) ∧
        found.makes = true ∧ found.complete = true ∧ (loadPlugin found l h).1 = .ok () ∨
      (found.makes && found.complete) = false ∧ ∃ exp what, loadPlugin found l h = (.error what, ⟨exp, none⟩,
          { h with loads := h.loads + 1, alive := if found.refused then h.loads :: h.alive else h.alive }) ∧
        (exp = l.exp ∨ exp = {}) := by
  have hclose : ∀ alive : List ℕ, ({ h with
      loads := h.loads + 1, opened := h.loads :: h.opened, alive := alive } : Process).close (some h.loads) =
        { h with loads := h.loads + 1, alive := alive } := by
    intro alive
    simp [Process.close]
  obtain ⟨opens, dlerror, hasCreate, api, made, destroy, methods⟩ := found
  cases opens with
  | false => exact Or.inr ⟨rfl, l.exp, _, rfl, Or.inl rfl⟩
  | true =>
  cases hasCreate with
  | false => exact Or.inr ⟨rfl, l.exp, _, congrArg (fun x => (_, _, x)) (hclose _), Or.inl rfl⟩
  | true =>
  cases made with
  | false =>
    have hload : loadPlugin ⟨true, dlerror, true, api, false, destroy, methods⟩ l h = (_, {}, _) :=
      if_pos (Or.inr rfl)
    exact Or.inr ⟨rfl, {}, _, hload.trans (congrArg (fun x => (_, _, x)) (hclose _)), Or.inr rfl⟩
  | true =>
  have hmakes : NativeLibrary.makes ⟨true, dlerror, true, api, true, destroy, methods⟩ = true := rfl
  by_cases hcomplete : NativeLibrary.complete ⟨true, dlerror, true, api, true, destroy, methods⟩ = true
  · left
    refine ⟨?_, hmakes, hcomplete, ?_⟩
    all_goals
      simp only [NativeLibrary.complete, Bool.and_eq_true, decide_eq_true_eq] at hcomplete
      obtain ⟨⟨rfl, rfl⟩, hend⟩ := hcomplete
      simp [loadPlugin, NativeLibrary.vtable, hend]
  · rw [Bool.not_eq_true] at hcomplete
    right
    rw [hmakes, NativeLibrary.refused, hmakes, hcomplete]
    by_cases hapi : api = Manifest.pluginApiVersion
    · subst hapi
      have hmissing : destroy = false ∨ methods .onEnd = false := by
        rw [NativeLibrary.complete, decide_eq_true rfl, Bool.true_and] at hcomplete
        exact Bool.and_eq_false_iff.1 hcomplete
      refine ⟨rfl, {}, .runtimeError "Required vtable methods missing", ?_, Or.inr rfl⟩
      simp [loadPlugin, NativeLibrary.vtable, hmissing, hclose]
    · have hload : loadPlugin ⟨true, dlerror, true, api, true, destroy, methods⟩ l h = (_, {}, _) :=
        if_pos (Or.inl hapi)
      exact ⟨rfl, {}, _, hload.trans (congrArg (fun x => (_, _, x)) (hclose _)), Or.inr rfl⟩

theorem destroy_of_complete {found : NativeLibrary} (h : found.complete = true) : found.destroy = true := by
  simp only [NativeLibrary.complete, Bool.and_eq_true] at h
  exact h.1.2

theorem Sound.load {s : NativeLoader × Process} (h : Sound s) (found : NativeLibrary) :
    Sound (NativeLoader.step s (.load found)) := by
  show Sound (loadPlugin found s.1 s.2).2
  rcases loadPlugin_cases found s.1 s.2 with ⟨hs, -, hcomplete, -⟩ | ⟨-, exp, what, hs, hexp⟩
  · rw [hs]
    refine ⟨h.calm, fun _ => ?_⟩
    exact ⟨s.2.loads, found, rfl, destroy_of_complete hcomplete, List.mem_cons_self .., List.mem_cons_self ..⟩
  · rw [hs]
    refine ⟨h.calm, fun hapi => ?_⟩
    rcases hexp with rfl | rfl
    · obtain ⟨i, found', heq, hd, hi, hopened⟩ := h.owns hapi
      refine ⟨i, found', heq, hd, ?_, hopened⟩
      show i ∈ if found.refused then s.2.loads :: s.2.alive else s.2.alive
      split
      · exact List.mem_cons_of_mem _ hi
      · exact hi
    · exact absurd (show (0 : ℤ) = Manifest.pluginApiVersion from hapi) (by decide)

/-- Unloading destroys the instance that `exp_` has, if it has one. -/
theorem Sound.unload_cases {s : NativeLoader × Process} (h : Sound s) :
    s.1.exp.apiVersion ≠ Manifest.pluginApiVersion ∧ NativeLoader.step s .unload = s ∨
      ∃ i, s.1.exp.self = some i ∧ s.1.exp.apiVersion = Manifest.pluginApiVersion ∧
        NativeLoader.step s .unload = ({}, ({ s.2 with alive := s.2.alive.erase i } : Process).close s.1.lib) := by
  by_cases hapi : s.1.exp.apiVersion = Manifest.pluginApiVersion
  · obtain ⟨i, found, hexp, hd, hi, hopened⟩ := h.owns hapi
    refine Or.inr ⟨i, by rw [hexp], hapi, ?_⟩
    have hdestroy : s.2.destroy (.library i) i = { s.2 with alive := s.2.alive.erase i } := by
      rw [Process.destroy, Process.call_eq_self (fun k hk => Code.library.inj hk ▸ hopened) hi]
    show unloadPlugin s.1 s.2 = _
    rw [unloadPlugin, if_neg (not_not.2 hapi), hexp]
    simp only [NativeLibrary.vtable, hd, if_true, hdestroy]
  · exact Or.inl ⟨hapi, if_pos hapi⟩

theorem Sound.unload {s : NativeLoader × Process} (h : Sound s) : Sound (NativeLoader.step s .unload) := by
  rcases h.unload_cases with ⟨-, hs⟩ | ⟨i, -, -, hs⟩
  · rw [hs]
    exact h
  · rw [hs]
    refine ⟨?_, fun hapi => absurd (show (0 : ℤ) = Manifest.pluginApiVersion from hapi) (by decide)⟩
    cases s.1.lib <;> exact h.calm

theorem sound_run (calls : List (LoaderCall NativeLibrary)) : Sound (run calls) := by
  induction calls using List.reverseRecOn with
  | nil => exact ⟨rfl, fun h => absurd h (by decide)⟩
  | append_singleton calls c ih =>
    rw [run, List.foldl_concat]
    cases c with
    | load found => exact ih.load found
    | call m =>
      have hstep := ih.step_call m
      rw [run] at hstep
      rw [hstep]
      exact ih
    | unload => exact ih.unload

theorem exists_getElem?_concat {α : Type} {P : α → Prop} {xs : List α} {x : α} {i : ℕ} :
    (∃ y, (xs ++ [x])[i]? = some y ∧ P y) ↔ (∃ y, xs[i]? = some y ∧ P y) ∨ i = xs.length ∧ P x := by
  rcases lt_trichotomy i xs.length with hi | rfl | hi
  · simp [List.getElem?_append_left hi, hi.ne]
  · simp
  · have hout : (xs ++ [x])[i]? = none := List.getElem?_eq_none (by simp; omega)
    have hout' : xs[i]? = none := List.getElem?_eq_none hi.le
    simp [hout, hout', hi.ne']

/-- One use of a loader: a load, calls of the methods, and an unload. -/
structure Session where
  found : NativeLibrary
  methods : List Method

def Session.calls (s : Session) : List (LoaderCall NativeLibrary) := .load s.found :: s.methods.map .call ++ [.unload]

theorem Sound.foldl_methods {s : NativeLoader × Process} (h : Sound s) (methods : List Method) :
    (methods.map LoaderCall.call).foldl NativeLoader.step s = s := by
  induction methods with
  | nil => rfl
  | cons m methods ih => rw [List.map_cons, List.foldl_cons, h.step_call, ih]

/-- One session of a loader that holds nothing, in a process where nothing is open. -/
theorem foldl_session {h : Process} (hcalm : h.crashed = false) (s : Session) :
    s.calls.foldl step ({}, h) =
      ({}, { h with loads := h.loads + 1, alive := if s.found.refused then h.loads :: h.alive else h.alive }) := by
  have hapi : (0 : ℤ) ≠ Manifest.pluginApiVersion := by decide
  have hempty : Sound ({}, h) := ⟨hcalm, fun heq => absurd heq hapi⟩
  have hload := hempty.load s.found
  have hcalls : s.calls.foldl step ({}, h) = step (step ({}, h) (.load s.found)) .unload := by
    rw [Session.calls, List.cons_append, List.foldl_cons, List.foldl_append, hload.foldl_methods]
    rfl
  rw [hcalls]
  show unloadPlugin (loadPlugin s.found {} h).2.1 (loadPlugin s.found {} h).2.2 = _
  rcases loadPlugin_cases s.found {} h with ⟨hs, -, hcomplete, -⟩ | ⟨-, exp, what, hs, hexp⟩
  · rw [hs, NativeLibrary.refused, hcomplete]
    simp [unloadPlugin, NativeLibrary.vtable, destroy_of_complete hcomplete, Process.destroy,
      Process.call, Process.close]
  · have hexp : exp = {} := hexp.elim id id
    rw [hs, hexp]
    rfl

/-- Whatever a loader is asked, in whatever order, it does not call into a closed library or on a destroyed instance;
and its sessions leave nothing behind, apart from the instances that were made and refused. -/
theorem run_sessions (calls : List (LoaderCall NativeLibrary)) (sessions : List Session) :
    (run calls).2.crashed = false ∧
      (run (sessions.flatMap Session.calls)).2.opened = [] ∧
      ∀ i, i ∈ (run (sessions.flatMap Session.calls)).2.alive ↔
        ∃ s, sessions[i]? = some s ∧ s.found.refused = true := by
  have hsessions : ∃ alive, run (sessions.flatMap Session.calls) = ({}, ⟨sessions.length, alive, [], false⟩) ∧
      ∀ i, i ∈ alive ↔ ∃ s, sessions[i]? = some s ∧ s.found.refused = true := by
    induction sessions using List.reverseRecOn with
    | nil => exact ⟨[], rfl, by simp⟩
    | append_singleton sessions s ih =>
      obtain ⟨alive, hrun, halive⟩ := ih
      rw [run] at hrun
      refine ⟨if s.found.refused then sessions.length :: alive else alive, ?_, fun i => ?_⟩
      · rw [run, List.flatMap_append, List.foldl_append, hrun, List.flatMap_singleton, foldl_session rfl,
          List.length_append]
        rfl
      · rw [exists_getElem?_concat, ← halive]
        split
        · rename_i hs
          rw [List.mem_cons, and_iff_left hs, or_comm]
        · rename_i hs
          rw [or_iff_left (fun h => hs h.2)]
  obtain ⟨alive, hrun, halive⟩ := hsessions
  rw [hrun]
  exact ⟨(sound_run calls).calm, rfl, halive⟩

end NativeLoader

/-! ### `python_loader.cpp` -/

structure PythonLoader where
  exp : PluginExport := {}

namespace PythonLoader

/-- The functions of a Python plugin are the loader's own. -/
def vtable : PluginVTable := ⟨some .host, some .host, some .host, some .host, some .host, some .host⟩

/-- `PythonLoader::load_plugin`; `found` says whether the module and its `create_plugin` could be called.  A load that
fails is not reported. -/
def loadPlugin (found : Bool) (_ : PythonLoader) (h : Process) : PythonLoader × Process :=
  let k := h.loads
  let h := { h with loads := k + 1 }
  if found then (⟨⟨Manifest.pluginApiVersion, some k, vtable⟩⟩, { h with alive := k :: h.alive }) else ({}, h)

def onInit (l : PythonLoader) (h : Process) : Process := (l.exp.invoke .onInit h).2
def onStart (l : PythonLoader) (h : Process) : Option String × Process := l.exp.invoke .onStart h
def onBar (l : PythonLoader) (h : Process) : Option String × Process := l.exp.invoke .onBar h
def onEnd (l : PythonLoader) (h : Process) : Option String × Process := l.exp.invoke .onEnd h

/-- The loader's `free_string` does not look at the instance. -/
def freeString (_ : PythonLoader) (h : Process) : Process := h

/-- `PythonLoader::unload_plugin`; the version and the table stay. -/
def unloadPlugin (l : PythonLoader) (h : Process) : PythonLoader × Process :=
  if l.exp.apiVersion ≠ Manifest.pluginApiVersion then (l, h)
  else match l.exp.vtable.destroy, l.exp.self with
    | some code, some i => (⟨{ l.exp with self := none }⟩, h.destroy code i)
    | _, _ => (l, h)

def step (s : PythonLoader × Process) : LoaderCall Bool → PythonLoader × Process
  | .load found => s.1.loadPlugin found s.2
  | .call .onInit => (s.1, s.1.onInit s.2)
  | .call .onStart => (s.1, (s.1.onStart s.2).2)
  | .call .onBar => (s.1, (s.1.onBar s.2).2)
  | .call .onEnd => (s.1, (s.1.onEnd s.2).2)
  | .call .freeString => (s.1, s.1.freeString s.2)
  | .unload => s.1.unloadPlugin s.2

def run (calls : List (LoaderCall Bool)) : PythonLoader × Process := calls.foldl step ({}, {})

/-! ### When a Python plugin crashes -/

/-- `later` is what has been asked since the last load, and that load succeeded. -/
def Since (calls later : List (LoaderCall Bool)) : Prop :=
  ∃ before, calls = before ++ .load true :: later ∧ ∀ found, .load found ∉ later

theorem Since.unique {calls later later' : List (LoaderCall Bool)} (h : Since calls later) (h' : Since calls later') :
    later = later' := by
  obtain ⟨before, rfl, hno⟩ := h
  obtain ⟨before', heq, hno'⟩ := h'
  -- the later of the two loads would be among the calls since the other
  rcases List.append_eq_append_iff.1 heq with ⟨as, -, has⟩ | ⟨as, -, has⟩
  · rcases as with _ | ⟨c, as⟩
    · exact (List.cons.inj has).2
    · refine absurd ?_ (hno true)
      rw [(List.cons.inj has).2]
      exact List.mem_append_right _ List.mem_cons_self
  · rcases as with _ | ⟨c, as⟩
    · exact (List.cons.inj has).2.symm
    · refine absurd ?_ (hno' true)
      rw [(List.cons.inj has).2]
      exact List.mem_append_right _ List.mem_cons_self

theorem Since.concat {calls later : List (LoaderCall Bool)} (h : Since calls later) {c : LoaderCall Bool}
    (hc : ∀ found, c ≠ .load found) : Since (calls ++ [c]) (later ++ [c]) := by
  obtain ⟨before, rfl, hno⟩ := h
  refine ⟨before, by rw [List.append_assoc, List.cons_append], fun found hmem => ?_⟩
  rcases List.mem_append.1 hmem with hmem | hmem
  · exact hno found hmem
  · exact hc found (List.mem_singleton.1 hmem).symm

theorem Since.of_concat {calls later : List (LoaderCall Bool)} {c : LoaderCall Bool} (h : Since (calls ++ [c]) later)
    (hc : ∀ found, c ≠ .load found) : ∃ earlier, Since calls earlier := by
  obtain ⟨before, heq, hno⟩ := h
  rcases List.eq_nil_or_concat later with rfl | ⟨later, c', rfl⟩
  · exact absurd (List.append_inj' heq rfl).2 (by simpa using hc true)
  · rw [List.concat_eq_append, ← List.cons_append, ← List.append_assoc] at heq
    refine ⟨later, before, (List.append_inj' heq rfl).1, fun found hmem => hno found ?_⟩
    rw [List.concat_eq_append]
    exact List.mem_append_left _ hmem

theorem not_since_load_false (calls later : List (LoaderCall Bool)) : ¬Since (calls ++ [.load false]) later := by
  rintro ⟨before, heq, hno⟩
  rcases List.eq_nil_or_concat later with rfl | ⟨later, c, rfl⟩
  · exact absurd (List.append_inj' heq rfl).2 (by simp)
  · rw [List.concat_eq_append, ← List.cons_append, ← List.append_assoc] at heq
    have hc : [LoaderCall.load false] = [c] := (List.append_inj' heq rfl).2
    rw [List.concat_eq_append, ← hc] at hno
    exact hno false (List.mem_append_right _ (List.mem_singleton_self _))

theorem step_call (s : PythonLoader × Process) (m : Method) :
    step s (.call m) = (s.1, if m = .freeString then s.2 else (s.1.exp.invoke m s.2).2) := by
  cases m <;> rfl

theorem alive_invoke (exp : PluginExport) (m : Method) (h : Process) : (exp.invoke m h).2.alive = h.alive := by
  unfold PluginExport.invoke
  split
  · rfl
  · split <;> rfl

theorem get_vtable (m : Method) : vtable.get m = some .host := by
  cases m <;> rfl

theorem invoke_absent (m : Method) (h : Process) : (PluginExport.invoke {} m h).2 = h :=
  congrArg Prod.snd (if_pos (show (0 : ℤ) ≠ Manifest.pluginApiVersion by decide))

theorem invoke_vtable (i : Option ℕ) (m : Method) (h : Process) :
    (PluginExport.invoke ⟨Manifest.pluginApiVersion, i, vtable⟩ m h).2 = h.call .host i := by
  rw [PluginExport.invoke, if_neg (not_not.2 rfl)]
  simp only [get_vtable]

theorem host_mapped {h : Process} (k : ℕ) (hk : Code.host = .library k) : k ∈ h.opened :=
  nomatch hk

theorem unload_absent {s : PythonLoader × Process} (h : s.1.exp = {}) : step s .unload = s :=
  if_pos (by rw [h]; decide)

theorem unload_null {s : PythonLoader × Process} (h : s.1.exp = ⟨Manifest.pluginApiVersion, none, vtable⟩) :
    step s .unload = s := by
  show unloadPlugin s.1 s.2 = s
  rw [unloadPlugin, if_neg (not_not.2 (by rw [h]))]
  simp only [h, vtable]

theorem unload_vtable {s : PythonLoader × Process} {k : ℕ}
    (h : s.1.exp = ⟨Manifest.pluginApiVersion, some k, vtable⟩) :
    step s .unload = (⟨⟨Manifest.pluginApiVersion, none, vtable⟩⟩, s.2.destroy .host k) := by
  show unloadPlugin s.1 s.2 = _
  rw [unloadPlugin, if_neg (not_not.2 (by rw [h]))]
  simp only [h, vtable]

/-- After a load that did not succeed nothing is called; after one that did, the instance is alive until it is
unloaded, and null from then on. -/
theorem run_exp (calls : List (LoaderCall Bool)) :
    (∀ later, ¬Since calls later) ∧ (run calls).1.exp = {} ∨
      ∃ later, Since calls later ∧
        (.unload ∉ later ∧
            (∃ k ∈ (run calls).2.alive, (run calls).1.exp = ⟨Manifest.pluginApiVersion, some k, vtable⟩) ∨
          .unload ∈ later ∧ (run calls).1.exp = ⟨Manifest.pluginApiVersion, none, vtable⟩) := by
  induction calls using List.reverseRecOn with
  | nil => exact Or.inl ⟨by simp [Since], rfl⟩
  | append_singleton calls c ih =>
    have hrun : run (calls ++ [c]) = step (run calls) c := by
      rw [run, List.foldl_concat]
      rfl
    rw [hrun]
    cases c with
    | load found =>
      cases found with
      | false => exact Or.inl ⟨not_since_load_false calls, rfl⟩
      | true =>
        refine Or.inr ⟨[], ⟨calls, rfl, by simp⟩, Or.inl ⟨List.not_mem_nil, (run calls).2.loads, ?_, rfl⟩⟩
        exact List.mem_cons_self
    | call m =>
      have hc : ∀ found : Bool, LoaderCall.call m ≠ .load found := by simp
      have halive : (step (run calls) (.call m)).2.alive = (run calls).2.alive := by
        rw [step_call]
        split
        · rfl
        · exact alive_invoke _ m _
      rw [halive, step_call]
      rcases ih with ⟨hno, hexp⟩ | ⟨later, hsince, ih⟩
      · refine Or.inl ⟨fun later hsince => ?_, hexp⟩
        obtain ⟨earlier, h⟩ := hsince.of_concat hc
        exact hno earlier h
      · exact Or.inr ⟨later ++ [.call m], hsince.concat hc, by simpa using ih⟩
    | unload =>
      have hc : ∀ found : Bool, LoaderCall.unload ≠ .load found := by simp
      rcases ih with ⟨hno, hexp⟩ | ⟨later, hsince, ih⟩
      · refine Or.inl ⟨fun later hsince => ?_, ?_⟩
        · obtain ⟨earlier, h⟩ := hsince.of_concat hc
          exact hno earlier h
        · rw [unload_absent hexp]
          exact hexp
      · refine Or.inr ⟨later ++ [.unload], hsince.concat hc, Or.inr ⟨by simp, ?_⟩⟩
        rcases ih with ⟨-, k, -, hexp⟩ | ⟨-, hexp⟩
        · rw [unload_vtable hexp]
        · rw [unload_null hexp]
          exact hexp

theorem crashed_concat (calls : List (LoaderCall Bool)) (c : LoaderCall Bool) :
    (run (calls ++ [c])).2.crashed = true ↔ (run calls).2.crashed = true ∨
      ∃ m later, c = .call m ∧ m ≠ .freeString ∧ Since calls later ∧ .unload ∈ later := by
  have hrun : run (calls ++ [c]) = step (run calls) c := by
    rw [run, List.foldl_concat]
    rfl
  rw [hrun]
  cases c with
  | load found => cases found <;> simp [step, loadPlugin]
  | unload =>
    have hsame : (step (run calls) .unload).2.crashed = (run calls).2.crashed := by
      rcases run_exp calls with ⟨-, hexp⟩ | ⟨later, -, ⟨-, k, hk, hexp⟩ | ⟨-, hexp⟩⟩
      · rw [unload_absent hexp]
      · rw [unload_vtable hexp, Process.destroy, Process.call_eq_self host_mapped hk]
      · rw [unload_null hexp]
    simp [hsame]
  | call m =>
    rw [step_call]
    by_cases hm : m = .freeString
    · simp [hm]
    rw [if_neg hm]
    rcases run_exp calls with ⟨hno, hexp⟩ | ⟨later, hsince, ⟨hnot, k, hk, hexp⟩ | ⟨hunload, hexp⟩⟩
    · rw [hexp, invoke_absent]
      refine (or_iff_left ?_).symm
      rintro ⟨-, later, -, -, hsince, -⟩
      exact hno later hsince
    · rw [hexp, invoke_vtable, Process.call_eq_self host_mapped hk]
      refine (or_iff_left ?_).symm
      rintro ⟨-, later', -, -, hsince', hunload⟩
      exact hnot (hsince.unique hsince' ▸ hunload)
    · rw [hexp, invoke_vtable]
      refine iff_of_true ?_ (Or.inr ⟨m, later, rfl, hm, hsince, hunload⟩)
      simp [Process.call]

/-- A Python plugin crashes exactly when one of its methods is called after it has been unloaded. -/
theorem run_crashed_iff (calls : List (LoaderCall Bool)) :
    (run calls).2.crashed = true ↔ ∃ pre m post later, calls = pre ++ .call m :: post ∧ m ≠ .freeString ∧
      Since pre later ∧ .unload ∈ later := by
  induction calls using List.reverseRecOn with
  | nil => simp [run]
  | append_singleton calls c ih =>
    rw [crashed_concat, ih]
    constructor
    · rintro (⟨pre, m, post, later, rfl, h⟩ | ⟨m, later, rfl, h⟩)
      · exact ⟨pre, m, post ++ [c], later, by simp, h⟩
      · exact ⟨calls, m, [], later, rfl, h⟩
    · rintro ⟨pre, m, post, later, heq, h⟩
      rcases List.eq_nil_or_concat post with rfl | ⟨post, c', rfl⟩
      · obtain ⟨rfl, hc⟩ := List.append_inj' heq rfl
        exact Or.inr ⟨m, later, List.singleton_inj.1 hc, h⟩
      · rw [List.concat_eq_append, ← List.cons_append, ← List.append_assoc] at heq
        exact Or.inl ⟨pre, m, post, later, (List.append_inj' heq rfl).1, h⟩

end PythonLoader

end QuantForge
