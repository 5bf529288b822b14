import QuantForge.GrowingVector
import QuantForge.Strings
import QuantForge.Models

/-!
# What a Python plugin answers and what the host reads

`PythonLoader::to_plugin_result` (`python_loader.cpp`): the object a Python method returned becomes a `PluginResult`
whose strings are `c_str()` pointers into `instruction_strings_`, taken while that vector is still growing.  The casts
of the objects (`Pybind`) and the implementation of `std::string` and `std::vector` (`Allocator`) are parameters.  The
host reads the result before the next call of the plugin.
-/

namespace QuantForge

/-! ### Casts -/

/-- What `to_plugin_result` uses of pybind11, over the Python objects `Obj` and the exceptions `Err`: any conversions
whatever, as long as each is a function of the object. -/
structure Pybind (Obj Err : Type) where
  castTuple : Obj → Except Err Obj
  castList : Obj → Except Err Obj
  castDict : Obj → Except Err Obj
  castString : Obj → Except Err String
  castInt : Obj → Except Err ℤ
  castInt64 : Obj → Except Err ℤ
  castDouble : Obj → Except Err ℚ
  /-- `tuple[i]`. -/
  tupleItem : Obj → ℕ → Except Err Obj
  /-- What a loop over a list goes through. -/
  listItems : Obj → List Obj
  /-- `dict[key]`. -/
  dictItem : Obj → String → Except Err Obj
  dictContains : Obj → String → Except Err Bool

namespace Pybind

variable {Obj Err : Type} (py : Pybind Obj Err)

/-- `dict[key].cast<T>()`. -/
def castItem {T : Type} (dict : Obj) (key : String) (cast : Obj → Except Err T) : Except Err T :=
  py.dictItem dict key >>= cast

/-- `dict.contains(key) ? dict[key].cast<T>() : fallback`. -/
def itemOr {T : Type} (dict : Obj) (key : String) (cast : Obj → Except Err T) (fallback : T) : Except Err T := do
  if ← py.dictContains dict key then py.castItem dict key cast else return fallback

end Pybind

/-! ### `to_plugin_result` -/

/-- A `COrder` whose strings are of type `P`. -/
structure COrderOf (P : Type) where
  symbol : P
  action : P
  quantity : ℚ
  leverage : ℚ
  limitPrice : ℤ
  stopLossPrice : ℤ
  takeProfitPrice : ℤ
  orderType : P
  deriving DecidableEq

inductive CInstructionOf (P : Type)
  | signal (symbol action : P)
  | order (order : COrderOf P)
  deriving DecidableEq

structure PluginResultOf (P : Type) where
  code : ℤ
  message : Option String
  instructions : List (CInstructionOf P)
  deriving DecidableEq

/-! ### Strings and the rest -/

section Strings

variable {P Q R : Type}

/-- The strings in the order in which they are stored. -/
def CInstructionOf.strings : CInstructionOf P → List P
  | .signal symbol action => [symbol, action]
  | .order o => [o.symbol, o.action, o.orderType]

def CInstructionOf.map (f : P → Q) : CInstructionOf P → CInstructionOf Q
  | .signal symbol action => .signal (f symbol) (f action)
  | .order o => .order { o with symbol := f o.symbol, action := f o.action, orderType := f o.orderType }

/-- Everything but the strings. -/
def CInstructionOf.shape (inst : CInstructionOf P) : CInstructionOf Unit := inst.map fun _ => ()

def PluginResultOf.strings (r : PluginResultOf P) : List P := r.instructions.flatMap CInstructionOf.strings

def PluginResultOf.map (f : P → Q) (r : PluginResultOf P) : PluginResultOf Q :=
  { r with instructions := r.instructions.map (CInstructionOf.map f) }

def PluginResultOf.shape (r : PluginResultOf P) : PluginResultOf Unit := r.map fun _ => ()

theorem CInstructionOf.length_strings {a : CInstructionOf P} {b : CInstructionOf Q} (h : a.shape = b.shape) :
    a.strings.length = b.strings.length := by
  rcases a with _ | _ <;> rcases b with _ | _ <;> first | rfl | cases h

theorem CInstructionOf.map_eq_map_iff {a : CInstructionOf P} {b : CInstructionOf Q} (h : a.shape = b.shape)
    (f : P → R) (g : Q → R) : a.map f = b.map g ↔ a.strings.map f = b.strings.map g := by
  rcases a with ⟨sa, aa⟩ | ⟨sa, aa, _, _, _, _, _, ta⟩ <;> rcases b with ⟨sb, ab⟩ | ⟨sb, ab, _, _, _, _, _, tb⟩
  · simp [CInstructionOf.map, CInstructionOf.strings]
  · cases h
  · cases h
  · simp only [CInstructionOf.shape, CInstructionOf.map, CInstructionOf.order.injEq, COrderOf.mk.injEq] at h
    simp only [CInstructionOf.map, CInstructionOf.strings, CInstructionOf.order.injEq, COrderOf.mk.injEq, h]
    simp

theorem CInstructionOf.map_eq_map_all {as : List (CInstructionOf P)} {bs : List (CInstructionOf Q)}
    (h : as.map CInstructionOf.shape = bs.map CInstructionOf.shape) (f : P → R) (g : Q → R) :
    as.map (CInstructionOf.map f) = bs.map (CInstructionOf.map g) ↔
      (as.flatMap CInstructionOf.strings).map f = (bs.flatMap CInstructionOf.strings).map g := by
  induction as generalizing bs with
  | nil =>
    rcases bs with _ | ⟨b, bs⟩
    · simp
    · cases h
  | cons a as ih =>
    rcases bs with _ | ⟨b, bs⟩
    · cases h
    · simp only [List.map_cons, List.cons.injEq] at h
      rw [List.map_cons, List.map_cons, List.cons.injEq, CInstructionOf.map_eq_map_iff h.1, ih h.2, List.flatMap_cons,
        List.flatMap_cons, List.map_append, List.map_append]
      constructor
      · rintro ⟨hhead, htail⟩
        rw [hhead, htail]
      · exact fun heq => List.append_inj heq (by simpa using CInstructionOf.length_strings h.1)

theorem PluginResultOf.map_eq_map_iff {a : PluginResultOf P} {b : PluginResultOf Q} (h : a.shape = b.shape)
    (f : P → R) (g : Q → R) : a.map f = b.map g ↔ a.strings.map f = b.strings.map g := by
  obtain ⟨code, message, as⟩ := a
  obtain ⟨code', message', bs⟩ := b
  simp only [PluginResultOf.shape, PluginResultOf.map, PluginResultOf.mk.injEq] at h
  obtain ⟨rfl, rfl, hshape⟩ := h
  simpa [PluginResultOf.map, PluginResultOf.strings] using CInstructionOf.map_eq_map_all hshape f g

end Strings

namespace PyPlugin

variable {Obj Err σ P Q : Type}

/-- A conversion that keeps strings in a `σ` and may throw. -/
abbrev Conversion (Err σ : Type) := ExceptT Err (StateM σ)

/-- `instruction_strings_.push_back(s)` and `back().c_str()`, as `store` has them. -/
def keep (store : σ → String → P × σ) (s : String) : Conversion Err σ P := fun v => (.ok (store v s).1, (store v s).2)

variable (py : Pybind Obj Err) (store : σ → String → P × σ)

/-- The numbers of an order, in an order without strings. -/
def castOrder (instDict : Obj) : Except Err (COrderOf Unit) := do
  let quantity ← py.castItem instDict "quantity" py.castDouble
  let limitPrice ← py.itemOr instDict "limit_price" py.castInt64 nullMarketTriggerPrice
  let stopLossPrice ← py.itemOr instDict "stop_loss_price" py.castInt64 nullMarketTriggerPrice
  let takeProfitPrice ← py.itemOr instDict "take_profit_price" py.castInt64 nullMarketTriggerPrice
  let leverage ← py.itemOr instDict "leverage" py.castDouble 1
  return { symbol := (), action := (), quantity, leverage, limitPrice, stopLossPrice, takeProfitPrice,
           orderType := () }

/-- One round of the loop over the instructions. -/
def toCInstruction (item : Obj) : Conversion Err σ (CInstructionOf P) := do
  let instDict ← py.castDict item
  let symbol ← keep store (← py.castItem instDict "symbol" py.castString)
  let action ← keep store (← py.castItem instDict "action" py.castString)
  if ← py.dictContains instDict "quantity" then
    let orderType ← keep store (← py.itemOr instDict "order_type" py.castString "market")
    let order ← castOrder py instDict
    return .order { order with symbol, action, orderType }
  else
    return .signal symbol action

def toCInstructions : List Obj → Conversion Err σ (List (CInstructionOf P))
  | [] => return []
  | item :: items => do
    let inst ← toCInstruction py store item
    let rest ← toCInstructions items
    return inst :: rest

/-- The status code and the list of instructions: what a tuple begins with, or else a bare code. -/
def statusAndList (result : Obj) : Except Err (ℤ × List Obj) :=
  let pair : Except Err (ℤ × List Obj) := do
    let resultTuple ← py.castTuple result
    let code ← py.tupleItem resultTuple 0 >>= py.castInt
    let list ← py.tupleItem resultTuple 1 >>= py.castList
    return (code, py.listItems list)
  match pair with
  | .ok p => .ok p
  | .error _ => (py.castInt result).map fun code => (code, [])

/-- `to_plugin_result`, from the point where the vectors are cleared. -/
def toPluginResult (result : Obj) : Conversion Err σ (PluginResultOf P) := do
  let (code, list) ← statusAndList py result
  let instructions ← toCInstructions py store list
  return { code, message := if code = 0 then none else some "on_bar failed", instructions }

/-! ### What a conversion does, whatever keeps the strings -/

/-- Keeping strings one after the other. -/
def keepAll : σ → List String → List P × σ
  | v, [] => ([], v)
  | v, s :: ss => ((store v s).1 :: (keepAll (store v s).2 ss).1, (keepAll (store v s).2 ss).2)

theorem keepAll_append (v : σ) (ss ss' : List String) :
    keepAll store v (ss ++ ss') =
      ((keepAll store v ss).1 ++ (keepAll store (keepAll store v ss).2 ss').1,
        (keepAll store (keepAll store v ss).2 ss').2) := by
  induction ss generalizing v with
  | nil => simp [keepAll]
  | cons s ss ih => simp [keepAll, ih]

/-- With any store the conversion keeps these strings, in this order, and throws as it does or builds a value of this
shape around the pointers to them. -/
structure Converts {F : Type → Type} (strings : ∀ P, F P → List P) (shape : ∀ P, F P → F Unit)
    (m : ∀ σ P : Type, (σ → String → P × σ) → Conversion Err σ (F P)) (texts : List String)
    (outcome : Except Err (F Unit)) : Prop where
  run : ∀ (σ P : Type) (store : σ → String → P × σ) (v : σ), ∃ x, m σ P store v = (x, (keepAll store v texts).2) ∧
    x.map (shape P) = outcome ∧ ∀ a, x = .ok a → strings P a = (keepAll store v texts).1

theorem Converts.of_error {F : Type → Type} {strings : ∀ P, F P → List P} {shape : ∀ P, F P → F Unit}
    {m : ∀ σ P : Type, (σ → String → P × σ) → Conversion Err σ (F P)} {texts : List String} {e : Err}
    (h : ∀ (σ P : Type) (store : σ → String → P × σ) (v : σ), m σ P store v = (.error e, (keepAll store v texts).2)) :
    Converts strings shape m texts (.error e) :=
  ⟨fun σ P store v => ⟨_, h σ P store v, rfl, fun _ ha => by cases ha⟩⟩

theorem Converts.error {F : Type → Type} {strings : ∀ P, F P → List P} {shape : ∀ P, F P → F Unit}
    {m : ∀ σ P : Type, (σ → String → P × σ) → Conversion Err σ (F P)} {texts : List String} {e : Err}
    (h : Converts strings shape m texts (.error e)) (store : σ → String → P × σ) (v : σ) :
    m σ P store v = (.error e, (keepAll store v texts).2) := by
  obtain ⟨x, hx, hshape, -⟩ := h.run σ P store v
  rcases x with e' | a
  · cases hshape
    exact hx
  · cases hshape

theorem Converts.ok {F : Type → Type} {strings : ∀ P, F P → List P} {shape : ∀ P, F P → F Unit}
    {m : ∀ σ P : Type, (σ → String → P × σ) → Conversion Err σ (F P)} {texts : List String} {s : F Unit}
    (h : Converts strings shape m texts (.ok s)) (store : σ → String → P × σ) (v : σ) :
    ∃ a, m σ P store v = (.ok a, (keepAll store v texts).2) ∧ shape P a = s ∧
      strings P a = (keepAll store v texts).1 := by
  obtain ⟨x, hx, hshape, hstrings⟩ := h.run σ P store v
  rcases x with e | a
  · cases hshape
  · exact ⟨a, hx, Except.ok.inj hshape, hstrings a rfl⟩

theorem bind_of_ok {A B : Type} {x : Conversion Err σ A} {f : A → Conversion Err σ B} {v v' : σ} {a : A}
    (h : x v = (.ok a, v')) : (x >>= f) v = f a v' := by
  show (ExceptT.bindCont f (x v).1) (x v).2 = f a v'
  rw [h]
  rfl

theorem bind_of_error {A B : Type} {x : Conversion Err σ A} {f : A → Conversion Err σ B} {v v' : σ} {e : Err}
    (h : x v = (.error e, v')) : (x >>= f) v = (.error e, v') := by
  show (ExceptT.bindCont f (x v).1) (x v).2 = (.error e, v')
  rw [h]
  rfl

/-- A cast, and what follows it. -/
theorem lift_bind {A B : Type} (x : Except Err A) (f : A → Conversion Err σ B) (v : σ) :
    ((liftM x : Conversion Err σ A) >>= f) v = match x with
      | .ok a => f a v
      | .error e => (.error e, v) := by
  rcases x with e | a <;> rfl

theorem keep_bind {B : Type} (s : String) (f : P → Conversion Err σ B) (v : σ) :
    (keep store s >>= f) v = f (store v s).1 (store v s).2 := rfl

theorem toCInstruction_converts (item : Obj) :
    ∃ texts outcome, Converts (fun _ => CInstructionOf.strings) (fun _ => CInstructionOf.shape)
      (fun _ _ store => toCInstruction py store item) texts outcome := by
  unfold toCInstruction
  rcases hdict : py.castDict item with e | dict
  · exact ⟨[], _, Converts.of_error fun σ P store v => by rw [lift_bind]; rfl⟩
  rcases hsymbol : py.castItem dict "symbol" py.castString with e | symbol
  · exact ⟨[], _, Converts.of_error fun σ P store v => by simp only [lift_bind, hsymbol]; rfl⟩
  rcases haction : py.castItem dict "action" py.castString with e | action
  · exact ⟨[symbol], _, Converts.of_error fun σ P store v => by
      simp only [lift_bind, keep_bind, hsymbol, haction]
      rfl⟩
  rcases hquantity : py.dictContains dict "quantity" with e | quantity
  · exact ⟨[symbol, action], _, Converts.of_error fun σ P store v => by
      simp only [lift_bind, keep_bind, hsymbol, haction, hquantity]
      rfl⟩
  rcases quantity with _ | _
  · refine ⟨[symbol, action], .ok (.signal () ()), ⟨fun σ P store v => ?_⟩⟩
    refine ⟨.ok (.signal (store v symbol).1 (store (store v symbol).2 action).1), ?_, rfl, ?_⟩
    · simp only [lift_bind, keep_bind, hsymbol, haction, hquantity]
      rfl
    · rintro _ ⟨⟩
      rfl
  · rcases htype : py.itemOr dict "order_type" py.castString "market" with e | orderType
    · exact ⟨[symbol, action], _, Converts.of_error fun σ P store v => by
        simp only [lift_bind, keep_bind, hsymbol, haction, hquantity, ↓reduceIte, htype]
        rfl⟩
    rcases horder : castOrder py dict with e | order
    · exact ⟨[symbol, action, orderType], _, Converts.of_error fun σ P store v => by
        simp only [lift_bind, keep_bind, hsymbol, haction, hquantity, ↓reduceIte, htype, horder]
        rfl⟩
    refine ⟨[symbol, action, orderType], .ok (.order order), ⟨fun σ P store v => ?_⟩⟩
    refine ⟨.ok (.order { order with
      symbol := (store v symbol).1
      action := (store (store v symbol).2 action).1
      orderType := (store (store (store v symbol).2 action).2 orderType).1 }), ?_, rfl, ?_⟩
    · simp only [lift_bind, keep_bind, hsymbol, haction, hquantity, ↓reduceIte, htype, horder]
      rfl
    · rintro _ ⟨⟩
      rfl

theorem toCInstructions_converts (items : List Obj) :
    ∃ texts outcome, Converts (fun _ l => l.flatMap CInstructionOf.strings) (fun _ l => l.map CInstructionOf.shape)
      (fun _ _ store => toCInstructions py store items) texts outcome := by
  induction items with
  | nil => exact ⟨[], .ok [], ⟨fun σ P store v => ⟨.ok [], rfl, rfl, by rintro _ ⟨⟩; rfl⟩⟩⟩
  | cons item items ih =>
    obtain ⟨texts, outcome, hitem⟩ := toCInstruction_converts py item
    obtain ⟨texts', outcome', hitems⟩ := ih
    rcases outcome with e | shape
    · exact ⟨texts, _, Converts.of_error fun σ P store v => bind_of_error (hitem.error store v)⟩
    rcases outcome' with e | shapes
    · refine ⟨texts ++ texts', _, Converts.of_error (e := e) fun σ P store v => ?_⟩
      obtain ⟨inst, hinst, -, -⟩ := hitem.ok store v
      rw [toCInstructions, bind_of_ok hinst, keepAll_append]
      exact bind_of_error (hitems.error store _)
    · refine ⟨texts ++ texts', .ok (shape :: shapes), ⟨fun σ P store v => ?_⟩⟩
      obtain ⟨inst, hinst, rfl, hstrings⟩ := hitem.ok store v
      obtain ⟨rest, hrest, rfl, hstrings'⟩ := hitems.ok store (keepAll store v texts).2
      refine ⟨.ok (inst :: rest), ?_, rfl, ?_⟩
      · rw [toCInstructions, bind_of_ok hinst, bind_of_ok hrest, keepAll_append]
        rfl
      · rintro _ ⟨⟩
        rw [List.flatMap_cons, keepAll_append, hstrings, hstrings']

/-- What `to_plugin_result` stores and builds does not depend on where it stores it. -/
theorem toPluginResult_converts (result : Obj) :
    ∃ texts outcome, Converts (fun _ => PluginResultOf.strings) (fun _ => PluginResultOf.shape)
      (fun _ _ store => toPluginResult py store result) texts outcome := by
  unfold toPluginResult
  rcases statusAndList py result with e | ⟨code, list⟩
  · exact ⟨[], _, Converts.of_error fun σ P store v => by rw [lift_bind]; rfl⟩
  obtain ⟨texts, outcome, hlist⟩ := toCInstructions_converts py list
  rcases outcome with e | shapes
  · exact ⟨texts, _, Converts.of_error fun σ P store v => by
      rw [lift_bind]
      exact bind_of_error (hlist.error store v)⟩
  · refine ⟨texts, .ok ⟨code, if code = 0 then none else some "on_bar failed", shapes⟩, ⟨fun σ P store v => ?_⟩⟩
    obtain ⟨instructions, hinst, rfl, hstrings⟩ := hlist.ok store v
    refine ⟨.ok ⟨code, _, instructions⟩, ?_, rfl, ?_⟩
    · rw [lift_bind]
      exact bind_of_ok hinst
    · rintro _ ⟨⟩
      exact hstrings

/-! ### The answer by value -/

/-- Keeping the strings themselves, and a list of them. -/
def record (l : List String) (s : String) : String × List String := (s, l ++ [s])

theorem keepAll_record (l ss : List String) : keepAll record l ss = (ss, l ++ ss) := by
  induction ss generalizing l with
  | nil => simp [keepAll]
  | cons s ss ih => simp [keepAll, record, ih]

/-- What the object says. -/
def answerOf (result : Obj) : Except Err (PluginResultOf String) := (toPluginResult py record result []).1

/-- The strings stored for it, up to where the conversion ends or throws. -/
def storedStrings (result : Obj) : List String := (toPluginResult py record result []).2

/-- `std::string(p)` for the contents of a string. -/
def cString (s : String) : String := String.ofList (Strings.cStr s.toList)

/-- The answer as a host reads it that finds every string where it was. -/
def expected (result : Obj) : Except Err (PluginResultOf (Option String)) :=
  (answerOf py result).map (PluginResultOf.map fun s => some (cString s))

/-! ### Calls -/

variable (A : Allocator String)

/-- A call of a method that returns the object: `to_plugin_result` on `instruction_strings_`. -/
def call (v : GrowingVector String) (result : Obj) :
    Except Err (PluginResultOf Pointer) × GrowingVector String :=
  toPluginResult py (GrowingVector.store A) result v.clear

/-- `instruction_strings_` after calls that returned these objects. -/
def after (results : List Obj) : GrowingVector String := results.foldl (fun v r => (call py A v r).2) .empty

/-- What the host reads of the result of a call that follows others; nothing where a pointer dangles. -/
def hostReads (earlier : List Obj) (result : Obj) : Except Err (PluginResultOf (Option String)) :=
  let c := call py A (after py A earlier) result
  c.1.map (PluginResultOf.map fun p => (c.2.read A p).map cString)

/-- The capacity of `instruction_strings_` after the calls. -/
def roomAfter (results : List Obj) : ℕ :=
  results.foldl (fun c r => GrowingVector.room A c (storedStrings py r).length) 0

theorem keepAll_store (v : GrowingVector String) (ss : List String) :
    keepAll (GrowingVector.store A) v ss = v.storeAll A ss := by
  induction ss generalizing v with
  | nil => rfl
  | cons s ss ih => simp [keepAll, GrowingVector.storeAll, ih]

/-- A call stores the strings of the object one after the other, and what it returns differs from the answer in the
strings only. -/
theorem call_spec (v : GrowingVector String) (result : Obj) :
    (call py A v result).2 = (v.clear.storeAll A (storedStrings py result)).2 ∧
      (∀ e, answerOf py result = .error e → (call py A v result).1 = .error e) ∧
      ∀ answer, answerOf py result = .ok answer → ∃ r, (call py A v result).1 = .ok r ∧ r.shape = answer.shape ∧
        answer.strings = storedStrings py result ∧ r.strings = (v.clear.storeAll A (storedStrings py result)).1 := by
  obtain ⟨texts, outcome, h⟩ := toPluginResult_converts py result
  unfold call answerOf storedStrings
  rcases outcome with e | shape
  · have hrecord := h.error record []
    have hstore := h.error (GrowingVector.store A) v.clear
    rw [keepAll_record] at hrecord
    rw [keepAll_store] at hstore
    simp only at hrecord hstore
    rw [hrecord, hstore]
    refine ⟨rfl, ?_, fun _ ha => by cases ha⟩
    rintro _ ⟨⟩
    rfl
  · obtain ⟨answer, hrecord, hshape, hstrings⟩ := h.ok record []
    obtain ⟨r, hstore, hshape', hstrings'⟩ := h.ok (GrowingVector.store A) v.clear
    rw [keepAll_record] at hrecord hstrings
    rw [keepAll_store] at hstore hstrings'
    simp only at hrecord hstore
    rw [hrecord, hstore]
    refine ⟨rfl, fun _ he => (by cases he), fun a ha => ?_⟩
    obtain rfl := Except.ok.inj ha
    exact ⟨r, rfl, hshape'.trans hshape.symm, hstrings, hstrings'⟩

theorem capacity_after (results : List Obj) : (after py A results).capacity = roomAfter py A results := by
  induction results using List.reverseRecOn with
  | nil => rfl
  | append_singleton results r ih =>
    unfold after roomAfter at ih ⊢
    rw [List.foldl_concat, List.foldl_concat, (call_spec py A _ r).1, GrowingVector.capacity_storeAll rfl, ← ih]
    rfl

/-- The host reads the answer exactly when none of its short strings is stored before the vector moves for the last
time. -/
theorem hostReads_eq_expected_iff (earlier : List Obj) (result : Obj) :
    hostReads py A earlier result = expected py result ↔
      ∀ answer, answerOf py result = .ok answer →
        GrowingVector.Readable A (roomAfter py A earlier) answer.strings := by
  obtain ⟨hv, herror, hok⟩ := call_spec py A (after py A earlier) result
  unfold hostReads expected
  dsimp only
  rw [← capacity_after]
  rcases hanswer : answerOf py result with e | answer
  · rw [herror e hanswer]
    exact iff_of_true rfl fun _ ha => by cases ha
  · obtain ⟨r, hr, hshape, hstrings, hpointers⟩ := hok answer hanswer
    rw [hr, hv]
    simp only [Except.map, Except.ok.injEq, forall_eq']
    rw [PluginResultOf.map_eq_map_iff hshape, hpointers, hstrings]
    exact GrowingVector.map_read_storeAll cString rfl _

theorem roomAfter_concat (earlier : List Obj) (r : Obj) :
    roomAfter py A (earlier ++ [r]) = GrowingVector.room A (roomAfter py A earlier) (storedStrings py r).length := by
  rw [roomAfter, List.foldl_concat]
  rfl

/-- A result is read as it was answered once an earlier call has stored as many strings. -/
theorem hostReads_eq_expected {earlier : List Obj} {result : Obj}
    (h : (storedStrings py result).length ≤ roomAfter py A earlier) :
    hostReads py A earlier result = expected py result := by
  refine (hostReads_eq_expected_iff py A earlier result).2 fun answer ha i x _ _ => ?_
  obtain ⟨_, -, -, hstrings, -⟩ := (call_spec py A .empty result).2.2 answer ha
  rw [hstrings]
  exact h.trans (GrowingVector.le_room_self A _ _)

/-! ### How often a result is misread -/

variable [DecidableEq Err]

/-- The number of results the host reads otherwise than they were answered, in calls that follow others. -/
def misread (earlier : List Obj) : List Obj → ℕ
  | [] => 0
  | r :: rs => (if hostReads py A earlier r = expected py r then 0 else 1) + misread (earlier ++ [r]) rs

variable {py A}

/-- In a run of calls the host reads every result as it was answered exactly when in none of them a short string is
stored before the vector moves for the last time, with the capacity the calls before it have left. -/
theorem misread_eq_zero_iff (results : List Obj) :
    misread py A [] results = 0 ↔ ∀ (k : ℕ) (r : Obj), results[k]? = some r → ∀ answer, answerOf py r = .ok answer →
      GrowingVector.Readable A (roomAfter py A (results.take k)) answer.strings := by
  have hrun : ∀ results earlier : List Obj, misread py A earlier results = 0 ↔ ∀ (k : ℕ) (r : Obj),
      results[k]? = some r → ∀ answer, answerOf py r = .ok answer →
        GrowingVector.Readable A (roomAfter py A (earlier ++ results.take k)) answer.strings := by
    intro results
    induction results with
    | nil => simp [misread]
    | cons r rs ih =>
      intro earlier
      rw [misread, Nat.add_eq_zero_iff, ih (earlier ++ [r]), ite_eq_left_iff,
        imp_iff_not (b := 1 = 0) (by decide), not_not, hostReads_eq_expected_iff]
      constructor
      · rintro ⟨hhead, htail⟩ (_ | k) r' hr'
        · obtain rfl := Option.some.inj hr'
          simpa using hhead
        · simpa using htail k r' (by simpa using hr')
      · intro hall
        refine ⟨by simpa using hall 0 r rfl, fun k r' hr' => ?_⟩
        simpa using hall (k + 1) r' (by simpa using hr')
  simpa using hrun results []

/-- Where the room doubles, the host misreads at most logarithmically many of a run's results, however long the
run. -/
theorem misread_le (hgrow : ∀ n, A.grow n = max 1 (2 * n)) {results : List Obj} {k : ℕ}
    (hk : ∀ r ∈ results, (storedStrings py r).length ≤ 2 ^ k) : misread py A [] results ≤ k + 1 := by
  have hrun : ∀ (results earlier : List Obj), (∀ r ∈ results, (storedStrings py r).length ≤ 2 ^ k) →
      (roomAfter py A earlier = 0 ∨ ∃ j ≤ k, roomAfter py A earlier = 2 ^ j) →
      misread py A earlier results + Nat.size (roomAfter py A earlier) ≤ k + 1 := by
    intro results
    induction results with
    | nil =>
      rintro earlier - (h0 | ⟨j, hj, h2⟩)
      · simp [misread, h0]
      · rw [misread, h2, Nat.size_pow]
        omega
    | cons r rs ih =>
      intro earlier hr hc
      obtain ⟨hsize, hpow⟩ := GrowingVector.room_doubling A hgrow (hr r (List.mem_cons_self ..)) hc
      have hrest := ih (earlier ++ [r]) (fun r' h => hr r' (List.mem_cons_of_mem _ h)) (by
        rw [roomAfter_concat]
        exact hpow)
      rw [roomAfter_concat] at hrest
      rw [misread]
      rcases hsize with hsame | hlt
      · -- the vector had room for all strings
        have hread : hostReads py A earlier r = expected py r :=
          hostReads_eq_expected py A (by rw [← hsame]; exact GrowingVector.le_room A _ _)
        rw [hsame] at hrest
        rw [if_pos hread]
        omega
      · split <;> omega
  have hall := hrun results [] hk (Or.inl rfl)
  rw [show roomAfter py A [] = 0 from rfl, Nat.size_zero] at hall
  exact hall

/-- `std::string` of the GNU library. -/
def gnuStrings : Allocator String := gnuAllocator fun s => Strings.byteLength s.toList

/-- Python's numbers, strings and containers. -/
inductive PyValue
  | int (n : ℤ)
  | str (s : String)
  | list (items : List PyValue)
  | tuple (items : List PyValue)
  | dict (entries : List (String × PyValue))

inductive PyError
  | castError
  | keyError
  | indexError
  deriving DecidableEq

/-- What an object yields when it is iterated over. -/
def PyValue.items : PyValue → Except PyError (List PyValue)
  | .int _ => .error .castError
  | .str s => .ok (s.toList.map fun c => .str (String.ofList [c]))
  | .list items | .tuple items => .ok items
  | .dict entries => .ok (entries.map fun e => .str e.1)

def PyValue.castInteger (lower upper : ℤ) : PyValue → Except PyError ℤ
  | .int n => if lower ≤ n ∧ n ≤ upper then .ok n else .error .castError
  | _ => .error .castError

/-- The casts of these objects: whatever can be iterated over becomes a tuple or a list, integers are checked for
their range.  Of the objects that `dict` converts only the dictionaries are told. -/
def pyCasts : Pybind PyValue PyError where
  castTuple v := v.items.map .tuple
  castList v := v.items.map .list
  castDict
    | .dict entries => .ok (.dict entries)
    | _ => .error .castError
  castString
    | .str s => .ok s
    | _ => .error .castError
  castInt := PyValue.castInteger (-2147483648) 2147483647
  castInt64 := PyValue.castInteger Strings.int64Min Strings.int64Max
  castDouble
    | .int n => .ok n
    | _ => .error .castError
  tupleItem
    | .tuple items, i => items[i]?.elim (.error .indexError) .ok
    | _, _ => .error .indexError
  listItems
    | .list items => items
    | _ => []
  dictItem
    | .dict entries, key => (entries.lookup key).elim (.error .keyError) .ok
    | _, _ => .error .keyError
  dictContains
    | .dict entries, key => .ok (entries.lookup key).isSome
    | _, _ => .error .keyError

/-- `[0, ({"symbol": "AAPL", "action": "buy"},)]`: a list where a tuple is asked for, and a tuple for a list. -/
def buySignal : PyValue := .list [.int 0, .tuple [.dict [("symbol", .str "AAPL"), ("action", .str "buy")]]]

/-- Of three buy signals in a row the first is misread: its symbol moves when its action is stored. -/
theorem misread_le_buySignals :
    hostReads pyCasts gnuStrings [] buySignal = .ok ⟨0, none, [.signal none (some "buy")]⟩ ∧
      hostReads pyCasts gnuStrings [buySignal] buySignal = .ok ⟨0, none, [.signal (some "AAPL") (some "buy")]⟩ ∧
      misread pyCasts gnuStrings [] [buySignal, buySignal, buySignal] ≤ 1 + 1 := by
  refine ⟨by decide +kernel, by decide +kernel, misread_le (fun _ => rfl) fun r hr => ?_⟩
  obtain rfl : r = buySignal := by simpa using hr
  decide +kernel

end PyPlugin

end QuantForge
