import QuantForge.ExitTrigger
import QuantForge.GrowingVector
import QuantForge.HeapVectors
import QuantForge.OrderLedger
import QuantForge.PluginView

/-!
# What the arrays of a state are worth

`to_c_state` keeps the positions, fills, snapshots and exit orders in four vectors of the converter, and hands out
pointers to them.  The converter of a Python plugin is a member of its loader; that of a native plugin is a temporary,
destroyed before the plugin is called.  In the first call of a run there is nothing in the four arrays
(`first_call_empty`); since every later call has an equity curve, a native plugin can read the whole state in the
first call only (`native_reads_iff`).
-/

namespace QuantForge

/-- The vectors of an `ABIConverter`. -/
structure Caches (F : Type → Type) where
  positions : F CPosition
  fills : F CFill
  equity : F CEquitySnapshot
  exitOrders : F CExitOrder

namespace Caches

variable {F G H : Type → Type}

def map (f : ∀ {α}, F α → G α) (c : Caches F) : Caches G := ⟨f c.positions, f c.fills, f c.equity, f c.exitOrders⟩

def map₂ (f : ∀ {α}, F α → G α → H α) (c : Caches F) (d : Caches G) : Caches H :=
  ⟨f c.positions d.positions, f c.fills d.fills, f c.equity d.equity, f c.exitOrders d.exitOrders⟩

/-- The vectors have the entries. -/
structure Holds (c : Caches HeapVector) (entries : Caches List) : Prop where
  positions : c.positions.Holds entries.positions
  fills : c.fills.Holds entries.fills
  equity : c.equity.Holds entries.equity
  exitOrders : c.exitOrders.Holds entries.exitOrders

end Caches

namespace CState

def arrays (s : CState) : Caches List := ⟨s.positions, s.newFills, s.equityCurve, s.newExitOrders⟩

/-- What a plugin reads of a state it is handed: of each array its entries, or nothing. -/
structure Reading where
  cash : ℤ
  arrays : Caches fun α => Option (List α)

/-- All of it can be read. -/
def whole (s : CState) : Reading := ⟨s.cash, s.arrays.map some⟩

/-- What the plugin reads in one call after the other, when `store` puts the entries of a state into the vectors. -/
def readings (store : ∀ {α}, HeapVector α → List α → HeapVector α) : Caches HeapVector → List CState → List Reading
  | _, [] => []
  | c, s :: later =>
    let c' := c.map₂ store s.arrays
    ⟨s.cash, c'.map HeapVector.read⟩ :: readings store c' later

end CState

/-- `PythonLoader::on_bar`: the member `abi_converter_` keeps the vectors from call to call. -/
def PythonLoader.store {α : Type} (v : HeapVector α) (xs : List α) : HeapVector α := v.assign xs

/-- `NativeLoader::on_bar`: a converter is made for the call and destroyed at the end of the expression, before the
plugin is called. -/
def NativeLoader.store {α : Type} (v : HeapVector α) (xs : List α) : HeapVector α := (v.declare.assign xs).destroy

namespace CState

/-- A Python plugin reads what it is handed, whatever it was handed before. -/
theorem readings_python {c : Caches HeapVector} {entries : Caches List} (hc : c.Holds entries)
    (states : List CState) :
    readings PythonLoader.store c states = states.map whole := by
  induction states generalizing c entries with
  | nil => rfl
  | cons s states ih =>
    have hc' : (c.map₂ PythonLoader.store s.arrays).Holds s.arrays :=
      ⟨hc.positions.assign _, hc.fills.assign _, hc.equity.assign _, hc.exitOrders.assign _⟩
    have hread : (c.map₂ PythonLoader.store s.arrays).map HeapVector.read = s.arrays.map some := by
      simp only [Caches.map, hc'.positions.read, hc'.fills.read, hc'.equity.read, hc'.exitOrders.read]
    rw [readings, List.map_cons, ih hc', hread]
    rfl

/-- What is left to a reader of a vector that is gone. -/
def leftOver {α : Type} (xs : List α) : Option (List α) := if xs.isEmpty then some [] else none

theorem read_store {α : Type} (v : HeapVector α) (xs : List α) : (NativeLoader.store v xs).read = leftOver xs := by
  have h := ((HeapVector.holds_declare v).assign xs).read_destroy
  rw [NativeLoader.store, h, leftOver]
  cases xs <;> rfl

theorem leftOver_eq_some {α : Type} {xs : List α} : leftOver xs = some xs ↔ xs = [] := by
  cases xs <;> simp [leftOver]

/-- A native plugin reads of each array the entries if there are none. -/
theorem readings_native (c : Caches HeapVector) (states : List CState) :
    readings NativeLoader.store c states = states.map fun s => ⟨s.cash, s.arrays.map leftOver⟩ := by
  induction states generalizing c with
  | nil => rfl
  | cons s states ih =>
    have hread : (c.map₂ NativeLoader.store s.arrays).map HeapVector.read = s.arrays.map leftOver := by
      simp only [Caches.map, Caches.map₂, read_store]
    rw [readings, List.map_cons, ih, hread]

end CState

namespace BackTestEngine

open ABIConverter

variable {createUuid : ℕ → Uuid} {hp : HostParams} {feed : List FeedItem} {c c' : Config}

/-! ### The arrays of a run -/

/-- Nothing has been ordered yet. -/
structure Untouched (c : Config) : Prop where
  pending : pending c.engine = 0
  executions : c.engine.executions = []
  positions : c.engine.state.positions = ∅
  newFills : c.engine.state.newFills = []
  newExitOrders : c.engine.state.newExitOrders = []
  equityCurve : c.engine.state.equityCurve = []

theorem Untouched.start : Untouched (start hp feed) := ⟨rfl, rfl, rfl, rfl, rfl, rfl⟩

/-- There is nothing to execute before anything has been ordered. -/
theorem Untouched.nextExecution (h : Untouched c) (hr : Reachable createUuid hp feed c) :
    nextExecution c = none := by
  by_contra hne
  obtain ⟨⟨o, e⟩, hn⟩ := Option.ne_none_iff_exists'.1 hne
  cases nextExecution_cases hn with
  | orderBook bar x _ htop _ _ _ =>
    have hcons := pending_popOrder htop
    rw [h.pending] at hcons
    exact Multiset.zero_ne_cons hcons
  | limit side symbol symbols x _ _ htop _ _ _ =>
    have hcons := pending_popLimit htop
    rw [h.pending] at hcons
    exact Multiset.zero_ne_cons hcons
  | exit kind l x _ htop _ _ _ _ _ =>
    have hmem : x ∈ exitOrders c kind := List.mem_append_left _ (BinaryHeap.top_mem htop)
    obtain ⟨y, hy, -⟩ := exitOrders_createdBy hr kind x hmem
    rw [h.executions] at hy
    cases hy

/-- Until the plugin is called nothing is ordered. -/
private theorem Untouched.step (h : Untouched c) (hr : Reachable createUuid hp feed c)
    (hs : step createUuid hp c = some c') (hphase : c.phase ≠ .onBar) : Untouched c' := by
  cases step_kinds hs with
  | execute o e hn _ _ _ _ =>
    rw [h.nextExecution hr] at hn
    cases hn
  | closed item _ _ hc =>
    exact hc ▸ ⟨h.pending, h.executions, h.positions, h.newFills, h.newExitOrders, h.equityCurve⟩
  | bar item _ _ hc => exact hc ▸ ⟨h.pending, h.executions, h.positions, h.newFills, h.newExitOrders, h.equityCurve⟩
  | finish e hon _ _ => exact absurd hon hphase
  | throw t hon _ _ => exact absurd hon hphase
  | move _ _ _ hsame horders hlimits =>
    refine ⟨?_, ?_, ?_, ?_, ?_, ?_⟩
    · rw [pending_congr horders hlimits, h.pending]
    · rw [hsame.executions, h.executions]
    · rw [hsame.state, h.positions]
    · rw [hsame.state, h.newFills]
    · rw [hsame.state, h.newExitOrders]
    · rw [hsame.state, h.equityCurve]

theorem finishBar_equityCurve (e : BackTestEngine) (hp : HostParams) : (e.finishBar hp).state.equityCurve ≠ [] := by
  show (e.state.recordBarEquitySnapshot hp).equityCurve ≠ []
  rw [State.recordBarEquitySnapshot_eq]
  split <;> simp

/-- Once a bar is closed there is an equity curve. -/
private theorem equityCurve_step (hs : step createUuid hp c = some c')
    (h : c.engine.state.equityCurve ≠ []) : c'.engine.state.equityCurve ≠ [] := by
  rcases step_account hs with hsame | ⟨item, -, -, he⟩ | ⟨o, e, hn, he⟩ | ⟨e, -, he⟩
  · rw [hsame.state]
    exact h
  · rw [he]
    exact h
  · rw [he, (execute_curve createUuid hp e o).1, (nextExecution_sameAccount hn).state]
    exact h
  · rw [he]
    exact finishBar_equityCurve e hp

/-- After a call of the plugin there is an equity curve, or no step. -/
private theorem onBar_step (hs : step createUuid hp c = some c') (hphase : c.phase = .onBar) :
    c'.engine.state.equityCurve ≠ [] ∨ step createUuid hp c' = none := by
  simp only [step, hphase] at hs
  split at hs
  · cases hs
    exact Or.inr rfl
  · split at hs
    · cases hs
      exact Or.inr rfl
    · cases hs
      exact Or.inl (finishBar_equityCurve _ hp)

/-- Until the first call nothing is ordered; after it there is an equity curve, or no further step. -/
private theorem first_or_curve {seen : List (CBar × CState)}
    (h : Loop.Trace (step createUuid hp) handed (start hp feed) seen c) :
    seen = [] ∧ Untouched c ∨
      seen ≠ [] ∧ (c.engine.state.equityCurve ≠ [] ∨ step createUuid hp c = none) := by
  refine Loop.trace_invariant (P := fun seen c => seen = [] ∧ Untouched c ∨
    seen ≠ [] ∧ (c.engine.state.equityCurve ≠ [] ∨ step createUuid hp c = none)) (Or.inl ⟨rfl, Untouched.start⟩) ?_ h
  intro seen c c' hr hI hs
  by_cases hphase : c.phase = .onBar
  · obtain ⟨bar, hhanded⟩ := handed_of_onBar hr hphase
    have hne : seen ++ handed c ≠ [] := by simp [hhanded]
    exact Or.inr ⟨hne, onBar_step hs hphase⟩
  · have hsilent : seen ++ handed c = seen := by simp [handed, hphase]
    rw [hsilent]
    rcases hI with ⟨hnil, huntouched⟩ | ⟨hne, hcurve | hnone⟩
    · exact Or.inl ⟨hnil, huntouched.step hr hs hphase⟩
    · exact Or.inr ⟨hne, Or.inl (equityCurve_step hs hcurve)⟩
    · rw [hnone] at hs
      cases hs

theorem Untouched.arrays (h : Untouched c) : (toCState c.engine.state).arrays = ⟨[], [], [], []⟩ := by
  have hpositions : toCPositions c.engine.state.positions = [] := by rw [h.positions]; rfl
  simp [CState.arrays, toCState, toCFills, toCEquitySnapshots, toCExitOrders, hpositions, h.newFills, h.newExitOrders,
    h.equityCurve]

/-- The first call is handed four empty arrays, a later one an equity curve. -/
private theorem handed_arrays {seen : List (CBar × CState)}
    (h : Loop.Trace (step createUuid hp) handed (start hp feed) seen c) {i : ℕ} {v : CBar × CState}
    (hv : seen[i]? = some v) :
    i = 0 ∧ v.2.arrays = ⟨[], [], [], []⟩ ∨ 0 < i ∧ v.2.equityCurve ≠ [] := by
  induction h generalizing i v with
  | refl => cases hv
  | @tail seen c c' h hs ih =>
    by_cases hphase : c.phase = .onBar
    · obtain ⟨bar, hhanded⟩ := handed_of_onBar h.reaches hphase
      rw [hhanded] at hv
      rcases GrowingVector.getElem?_concat.1 hv with hv | ⟨hi, hv⟩
      · exact ih hv
      · -- the call being made
        rcases first_or_curve h with ⟨hnil, huntouched⟩ | ⟨hne, hcurve⟩
        · left
          rw [hnil] at hi
          exact ⟨hi, hv ▸ huntouched.arrays⟩
        · right
          have hpos : 0 < seen.length := List.length_pos_iff.2 hne
          have hcurve : c.engine.state.equityCurve ≠ [] := by
            rcases hcurve with hcurve | hnone
            · exact hcurve
            · rw [hnone] at hs
              cases hs
          refine ⟨by omega, ?_⟩
          rw [← hv]
          simpa [toCState, toCEquitySnapshots] using hcurve
    · have hsilent : seen ++ handed c = seen := by simp [handed, hphase]
      rw [hsilent] at hv
      exact ih hv

/-- In every run a Python plugin can read all of every state it is handed, while a native plugin can read the first
one only: whatever arrays it is handed later have been freed, the equity curve always among them. -/
theorem native_reads_iff {seen : List (CBar × CState)}
    (h : Loop.Trace (step createUuid hp) handed (start hp feed) seen c) :
    CState.readings PythonLoader.store ⟨{}, {}, {}, {}⟩ (seen.map Prod.snd) = seen.map (fun v => v.2.whole) ∧
      ∀ i v, seen[i]? = some v → ∃ reading : CState.Reading,
        (CState.readings NativeLoader.store ⟨{}, {}, {}, {}⟩ (seen.map Prod.snd))[i]? = some reading ∧
          (reading = v.2.whole ↔ i = 0) ∧ (reading.arrays.equity.isSome ↔ i = 0) := by
  refine ⟨?_, fun i v hv => ?_⟩
  · have hempty : Caches.Holds ⟨{}, {}, {}, {}⟩ ⟨[], [], [], []⟩ := ⟨⟨rfl, rfl⟩, ⟨rfl, rfl⟩, ⟨rfl, rfl⟩, ⟨rfl, rfl⟩⟩
    rw [CState.readings_python hempty, List.map_map]
    rfl
  · refine ⟨⟨v.2.cash, v.2.arrays.map CState.leftOver⟩, ?_, ?_⟩
    · rw [CState.readings_native, List.map_map, List.getElem?_map, hv]
      rfl
    · rcases handed_arrays h hv with ⟨rfl, harrays⟩ | ⟨hi, hcurve⟩
      · simp [CState.whole, harrays, Caches.map, CState.leftOver]
      · have hgone : CState.leftOver v.2.equityCurve = none := by simp [CState.leftOver, hcurve]
        have hi0 : i ≠ 0 := by omega
        have hwhole : (⟨v.2.cash, v.2.arrays.map CState.leftOver⟩ : CState.Reading) ≠ v.2.whole := by
          intro heq
          have hequity := congrArg (fun r : CState.Reading => r.arrays.equity) heq
          exact hcurve (CState.leftOver_eq_some.1 hequity)
        exact ⟨iff_of_false hwhole hi0, iff_of_false (by simp [Caches.map, CState.arrays, hgone]) hi0⟩

/-- Three calls, with one snapshot of the equity more in each. -/
theorem native_reads_iff_sample :
    let seen := Loop.events (step sampleUuid sampleParams) handed 40 (start sampleParams reportedFeed)
    let native := CState.readings NativeLoader.store ⟨{}, {}, {}, {}⟩ (seen.map Prod.snd)
    seen.map (fun v => v.2.equityCurve.length) = [0, 1, 2] ∧
      native.map (fun r => r.arrays.equity.map List.length) = [some 0, none, none] ∧
      ∀ v, seen[2]? = some v → native[2]? ≠ some v.2.whole := by
  intro seen native
  refine ⟨by decide +kernel, by decide +kernel, fun v hv heq => ?_⟩
  obtain ⟨reading, hreading, hwhole, -⟩ := (native_reads_iff (Loop.trace_iter _ _ 40 _)).2 2 v hv
  have heq' : reading = v.2.whole := Option.some.inj (hreading.symm.trans heq)
  exact absurd (hwhole.1 heq') (by decide)

end BackTestEngine

end QuantForge
