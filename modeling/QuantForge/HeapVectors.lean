import Mathlib.Data.List.Basic
import Mathlib.Tactic.Common

/-!
# The array of a vector

A vector owns the array with its entries: it frees the array when it takes over another one and when it is destroyed.
A reader with a pointer and a count gets the entries as long as the vector holds them (`Holds.read`), also after any
number of assignments (`Holds.assign`), and nothing but the empty array once it is destroyed (`Holds.read_destroy`).
-/

namespace QuantForge

/-- What `data()` and `size()` of a vector return, with the arrays allocated so far; a freed array is `none`. -/
structure HeapVector (α : Type) where
  arrays : List (Option (List α)) := []
  data : Option ℕ := none
  count : ℕ := 0

namespace HeapVector

variable {α : Type}

/-- A vector of its own, in the same memory. -/
def declare (v : HeapVector α) : HeapVector α := { arrays := v.arrays }

def free (arrays : List (Option (List α))) : Option ℕ → List (Option (List α))
  | none => arrays
  | some i => arrays.set i none

/-- A vector with the entries is built and moved into this one; no memory is allocated for no entries. -/
def assign (v : HeapVector α) : List α → HeapVector α
  | [] => { arrays := free v.arrays v.data }
  | x :: xs => ⟨free (v.arrays ++ [some (x :: xs)]) v.data, some v.arrays.length, (x :: xs).length⟩

/-- The destructor; whoever has asked for `data()` and `size()` keeps them. -/
def destroy (v : HeapVector α) : HeapVector α := { v with arrays := free v.arrays v.data }

/-- What a loop over the entries reads, unless they are gone. -/
def read (v : HeapVector α) : Option (List α) :=
  if v.count = 0 then some [] else (v.data.bind fun i => v.arrays[i]?).join

/-- The vector has the entries. -/
def Holds (v : HeapVector α) : List α → Prop
  | [] => v.data = none ∧ v.count = 0
  | x :: xs => ∃ i, v.data = some i ∧ v.count = (x :: xs).length ∧ v.arrays[i]? = some (some (x :: xs))

theorem holds_declare (v : HeapVector α) : v.declare.Holds [] := ⟨rfl, rfl⟩

variable {v : HeapVector α} {xs : List α}

/-- The array of a vector is among those allocated so far. -/
theorem Holds.data_lt (h : v.Holds xs) {i : ℕ} (hi : v.data = some i) : i < v.arrays.length := by
  cases xs with
  | nil =>
    have hnone : v.data = none := h.1
    rw [hnone] at hi
    cases hi
  | cons x xs =>
    obtain ⟨j, hdata, -, hj⟩ := h
    have hij : j = i := Option.some.inj (hdata.symm.trans hi)
    have hlt : j < v.arrays.length := (List.getElem?_eq_some_iff.1 hj).1
    omega

theorem Holds.assign (h : v.Holds xs) (ys : List α) : (v.assign ys).Holds ys := by
  cases ys with
  | nil => exact ⟨rfl, rfl⟩
  | cons y ys =>
    refine ⟨v.arrays.length, rfl, rfl, ?_⟩
    have hnew : (v.arrays ++ [some (y :: ys)])[v.arrays.length]? = some (some (y :: ys)) := by simp
    -- the array that is freed is another one than the new one
    show (free (v.arrays ++ [some (y :: ys)]) v.data)[v.arrays.length]? = _
    rcases hdata : v.data with _ | i
    · exact hnew
    · have hlt := h.data_lt hdata
      have hne : i ≠ v.arrays.length := by omega
      show ((v.arrays ++ [some (y :: ys)]).set i none)[v.arrays.length]? = _
      rw [List.getElem?_set_ne hne, hnew]

theorem Holds.read (h : v.Holds xs) : v.read = some xs := by
  cases xs with
  | nil =>
    have hcount : v.count = 0 := h.2
    simp [HeapVector.read, hcount]
  | cons x xs =>
    obtain ⟨i, hdata, hcount, hi⟩ := h
    simp [HeapVector.read, hdata, hcount, hi]

/-- Nothing can be read once the vector is destroyed, unless there was nothing to read. -/
theorem Holds.read_destroy (h : v.Holds xs) : v.destroy.read = if xs = [] then some [] else none := by
  cases xs with
  | nil =>
    have hcount : v.count = 0 := h.2
    simp [HeapVector.read, destroy, hcount]
  | cons x xs =>
    have hlt : ∀ i, v.data = some i → i < v.arrays.length := fun i => h.data_lt
    obtain ⟨i, hdata, hcount, -⟩ := h
    simp [HeapVector.read, destroy, free, hdata, hcount, hlt i hdata]

end HeapVector

end QuantForge
