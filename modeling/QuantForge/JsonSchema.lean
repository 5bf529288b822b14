import Mathlib.Algebra.Order.Ring.Rat
import Mathlib.Data.List.Basic

/-!
# JSON documents and schemas

A JSON document with the lookups and typed getters of a parser, and the part of JSON Schema (draft 07) made of types,
enumerations, patterns, bounds, required fields and nested objects and arrays.  A number literal without fraction and
exponent is an `int`, any other one a `float`; `format`, `default` and `description` are annotations and check
nothing.
-/

/-- A JSON document.  A repeated key of an object is read at its first place. -/
inductive Json
  | null
  | bool (b : Bool)
  | int (n : ℤ)
  | float (q : ℚ)
  | str (s : String)
  | arr (items : List Json)
  | obj (fields : List (String × Json))

namespace Json

/-- `value[key]`: fails on a value that is no object and on a missing key. -/
def field (key : String) : Json → Option Json
  | obj fields => fields.lookup key
  | _ => none

def getObject : Json → Option Json
  | obj fields => some (obj fields)
  | _ => none

def getArray : Json → Option (List Json)
  | arr items => some items
  | _ => none

def getString : Json → Option String
  | str s => some s
  | _ => none

def getBool : Json → Option Bool
  | bool b => some b
  | _ => none

/-- Only literals without fraction and exponent, in the range of `int64_t`. -/
def getInt64 : Json → Option ℤ
  | int n => if -2 ^ 63 ≤ n ∧ n < 2 ^ 63 then some n else none
  | _ => none

def getDouble : Json → Option ℚ
  | int n => some n
  | float q => some q
  | _ => none

/-- The value of a number that is whole, however it is written. -/
def integer? : Json → Option ℤ
  | int n => some n
  | float q => if q.den = 1 then some q.num else none
  | _ => none

end Json

/-! ### Schemas -/

/-- A schema; `value` stands for any check of the value alone. -/
inductive Schema
  | string
  | pattern (accepts : List Char → Bool)
  | value (accepts : Json → Bool)
  | enum (values : List String)
  | const (c : ℤ)
  | boolean
  | integer (minimum : Option ℤ)
  | integerOrNull
  | number (minimum maximum : ℚ)
  | array (minItems : ℕ) (items : Schema)
  | object (properties : List (String × Schema)) (required : List String) (additionalProperties : Bool)

namespace Schema

mutual

/-- `check` holds at every place of the document the schema describes. -/
def everywhere (check : Schema → Json → Bool) : Schema → Json → Bool
  | .array minItems items, j =>
    check (.array minItems items) j &&
      match j with
      | .arr l => l.all fun item => everywhere check items item
      | _ => true
  | .object properties required additional, j =>
    check (.object properties required additional) j && everywhereIn check properties j
  | s, j => check s j

/-- `check` holds everywhere below the properties the document supplies. -/
def everywhereIn (check : Schema → Json → Bool) : List (String × Schema) → Json → Bool
  | [], _ => true
  | (key, s) :: properties, j =>
    (match j.field key with
      | some v => everywhere check s v
      | none => true) && everywhereIn check properties j

end

/-- What the schema asks of the value at its own place. -/
def admits : Schema → Json → Bool
  | .string, j => j.getString.isSome
  | .pattern accepts, j => (j.getString.map fun s => accepts s.toList).getD false
  | .value accepts, j => accepts j
  | .enum values, j => (j.getString.map fun s => decide (s ∈ values)).getD false
  | .const c, j => decide (j.integer? = some c)
  | .boolean, j => j.getBool.isSome
  | .integer minimum, j => (j.integer?.map fun n => minimum.all fun m => decide (m ≤ n)).getD false
  | .integerOrNull, .null => true
  | .integerOrNull, j => j.integer?.isSome
  | .number lo hi, j => (j.getDouble.map fun q => decide (lo ≤ q) && decide (q ≤ hi)).getD false
  | .array minItems _, j => (j.getArray.map fun l => decide (minItems ≤ l.length)).getD false
  | .object properties required additional, .obj fields =>
    required.all (fun key => (fields.lookup key).isSome) &&
      (additional || fields.all fun f => (properties.lookup f.1).isSome)
  | .object .., _ => false

/-- A value read where the schema lists values is one of them. -/
def listed : Schema → Json → Bool
  | .enum values, .str s => decide (s ∈ values)
  | .const c, .int n => decide (n = c)
  | _, _ => true

section Listed

variable (j : Json)

@[simp] theorem listed_string : listed .string j = true := rfl

@[simp] theorem listed_pattern (accepts : List Char → Bool) : listed (.pattern accepts) j = true := rfl

@[simp] theorem listed_boolean : listed .boolean j = true := rfl

@[simp] theorem listed_integer (minimum : Option ℤ) : listed (.integer minimum) j = true := rfl

@[simp] theorem listed_integerOrNull : listed .integerOrNull j = true := rfl

@[simp] theorem listed_number (lo hi : ℚ) : listed (.number lo hi) j = true := rfl

@[simp] theorem listed_array (minItems : ℕ) (items : Schema) : listed (.array minItems items) j = true := rfl

@[simp] theorem listed_object (properties : List (String × Schema)) (required : List String) (additional : Bool) :
    listed (.object properties required additional) j = true := rfl

end Listed

/-! ### Objects, property by property -/

section Objects

variable {check : Schema → Json → Bool} {properties : List (String × Schema)}

theorem everywhereIn_iff (j : Json) :
    everywhereIn check properties j = true ↔
      ∀ p ∈ properties, ∀ v, j.field p.1 = some v → everywhere check p.2 v = true := by
  induction properties with
  | nil => simp [everywhereIn]
  | cons p properties ih =>
    obtain ⟨key, s⟩ := p
    rw [everywhereIn, Bool.and_eq_true, ih, List.forall_mem_cons]
    rcases hf : j.field key with _ | v <;> simp

theorem everywhere_object {required : List String} {additional : Bool} (j : Json) :
    everywhere check (.object properties required additional) j = true ↔
      check (.object properties required additional) j = true ∧
        ∀ p ∈ properties, ∀ v, j.field p.1 = some v → everywhere check p.2 v = true := by
  rw [everywhere, Bool.and_eq_true, everywhereIn_iff]

theorem everywhere_array {minItems : ℕ} {items : Schema} (l : List Json) :
    everywhere check (.array minItems items) (.arr l) = true ↔
      check (.array minItems items) (.arr l) = true ∧ ∀ j ∈ l, everywhere check items j = true := by
  rw [everywhere, Bool.and_eq_true, List.all_eq_true]

end Objects

/-- The document satisfies the schema. -/
def Satisfies (s : Schema) (doc : Json) : Prop := everywhere admits s doc = true

/-- Wherever the schema lists the admitted values, the document has one of them. -/
def UsesListed (s : Schema) (doc : Json) : Prop := everywhere listed s doc = true

instance (s : Schema) (doc : Json) : Decidable (s.Satisfies doc) :=
  inferInstanceAs (Decidable (everywhere admits s doc = true))

instance (s : Schema) (doc : Json) : Decidable (s.UsesListed doc) :=
  inferInstanceAs (Decidable (everywhere listed s doc = true))

/-! ### Records -/

/-- An object with all of the given properties, and possibly others. -/
def record (properties : List (String × Schema)) : Schema := .object properties (properties.map Prod.fst) true

/-- The lookup succeeds, with a value that satisfies the schema. -/
def HasField (obj : Option Json) (key : String) (s : Schema) : Prop :=
  ∃ v, obj.bind (Json.field key) = some v ∧ s.Satisfies v

theorem satisfies_record {properties : List (String × Schema)} (hne : properties ≠ []) (j : Json) :
    (record properties).Satisfies j ↔ ∀ p ∈ properties, HasField (some j) p.1 p.2 := by
  unfold record Satisfies
  rw [everywhere_object]
  constructor
  · rintro ⟨hadmits, hall⟩ p hp
    rcases j with _ | _ | _ | _ | _ | _ | fields <;> try cases hadmits
    simp only [admits, List.all_map, Bool.true_or, Bool.and_true, List.all_eq_true] at hadmits
    obtain ⟨v, hv⟩ := Option.isSome_iff_exists.1 (hadmits p hp)
    exact ⟨v, hv, hall p hp v hv⟩
  · intro h
    refine ⟨?_, ?_⟩
    · obtain ⟨p, hp⟩ := List.exists_mem_of_ne_nil _ hne
      obtain ⟨v, hv, -⟩ := h p hp
      rcases j with _ | _ | _ | _ | _ | _ | fields <;> try cases hv
      simp only [admits, List.all_map, Bool.true_or, Bool.and_true, List.all_eq_true]
      intro q hq
      obtain ⟨w, hw, -⟩ := h q hq
      exact Option.isSome_iff_exists.2 ⟨w, hw⟩
    · intro p hp v hv
      obtain ⟨w, hw, hs⟩ := h p hp
      have hvw : v = w := Option.some.inj (hv.symm.trans hw)
      rw [hvw]
      exact hs

/-- A property that is there satisfies its schema. -/
theorem Satisfies.field {properties : List (String × Schema)} {required : List String} {additional : Bool}
    {j v : Json} (h : (object properties required additional).Satisfies j) {key : String} {s : Schema}
    (hs : (key, s) ∈ properties) (hv : j.field key = some v) : s.Satisfies v := by
  unfold Satisfies at h
  rw [everywhere_object] at h
  exact h.2 _ hs v hv

end Schema
