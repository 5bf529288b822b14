import Mathlib.Algebra.Order.Ring.Int
import Mathlib.Data.List.DropRight

/-!
# Strings

The string helpers of `string_utils.cpp` and the conversions of the C and C++ libraries the program calls.  A
`std::string` is a list of characters; a C string ends at its first `'\0'`.
-/

namespace QuantForge

/-- The exceptions thrown in the modelled code, with the text `what()` returns where the program chooses it. -/
inductive Exception
  | runtimeError (what : String)
  | invalidArgument
  | outOfRange
  | lengthError
  deriving DecidableEq

namespace Strings

/-- `std::isspace` in the C locale. -/
def isSpace (c : Char) : Bool := c = ' ' || c = '\t' || c = '\n' || c = '\x0b' || c = '\x0c' || c = '\r'

/-- `c_str()` as the C functions read it. -/
def cStr (s : List Char) : List Char := s.takeWhile (· ≠ '\x00')

/-! ### `string_utils.cpp` -/

def isBlank (c : Char) : Bool := c = ' ' || c = '\t'

/-- `ieq_prefix`: the buffer starts with the key, in any case.  An empty key is no prefix. -/
def ieqPrefix : List Char → List Char → Bool
  | b :: buf, k :: key => b.toLower = k.toLower && (key = [] || ieqPrefix buf key)
  | _, _ => false

def trim (s : List Char) : List Char := (s.dropWhile isSpace).rdropWhile isSpace

/-- The nonempty tokens between the commas, without the blanks around them. -/
def splitCommaDelimitedString (s : List Char) : List (List Char) :=
  ((s.splitOn ',').map fun token => (token.dropWhile isBlank).rdropWhile isBlank).filter (· ≠ [])

/-! ### Reading numbers -/

def digitsValue (ds : List Char) : ℕ := ds.foldl (fun n d => 10 * n + (d.toNat - '0'.toNat)) 0

/-- The sign, the digits and the rest behind the leading blanks. -/
def scanInteger (s : List Char) : Bool × List Char × List Char :=
  match s.dropWhile isSpace with
  | '-' :: rest => (true, rest.span Char.isDigit)
  | '+' :: rest => (false, rest.span Char.isDigit)
  | rest => (false, rest.span Char.isDigit)

/-- The number a scanned sign and digits stand for. -/
def scannedValue (negative : Bool) (digits : List Char) : ℤ :=
  if negative then -(digitsValue digits : ℤ) else digitsValue digits

def int64Min : ℤ := -9223372036854775808
def int64Max : ℤ := 9223372036854775807

/-- `std::strtol` and `std::strtoll` in base 10: the number, cut to 64 bits, and what `end` points to. -/
def strtol (s : List Char) : ℤ × List Char :=
  match scanInteger (cStr s) with
  | (_, [], _) => (0, cStr s)
  | (negative, digits, rest) => (max int64Min (min int64Max (scannedValue negative digits)), rest)

/-- `std::stoll`. -/
def stoll (s : List Char) : Except Exception ℤ :=
  match scanInteger (cStr s) with
  | (_, [], _) => .error .invalidArgument
  | (negative, digits, _) =>
    let n := scannedValue negative digits
    if int64Min ≤ n ∧ n ≤ int64Max then .ok n else .error .outOfRange

/-! ### `std::string::append` -/

/-- `length()`, in bytes. -/
def byteLength (s : List Char) : ℕ := (s.map Char.utf8Size).sum

/-- The longest `std::string`. -/
def maxSize : ℕ := 2 ^ 63 - 1

/-- `s.append(count, c)`. -/
def append (s : List Char) (count : ℕ) (c : Char) : Except Exception (List Char) :=
  if byteLength s + count ≤ maxSize then .ok (s ++ List.replicate count c) else .error .lengthError

/-! ### Trimming -/

section Trim

variable {s u : List Char}

theorem trim_append_left (hu : ∀ c ∈ u, isSpace c = true) : trim (u ++ s) = trim s := by
  unfold trim
  rw [List.dropWhile_append_of_pos hu]

theorem trim_append_right (hu : ∀ c ∈ u, isSpace c = true) : trim (s ++ u) = trim s := by
  have hdrop : ∀ t, (t ++ u).rdropWhile isSpace = t.rdropWhile isSpace := by
    intro t
    unfold List.rdropWhile
    rw [List.reverse_append, List.dropWhile_append_of_pos (by simpa using hu)]
  unfold trim
  rw [List.dropWhile_append]
  split
  · rename_i hs
    rw [List.isEmpty_iff.1 hs, List.dropWhile_eq_nil_iff.2 hu]
  · rw [hdrop]

/-- A text that neither begins nor ends with a space stays as it is. -/
theorem trim_eq_self (hfirst : ∀ c ∈ s.head?, isSpace c = false) (hlast : ∀ c ∈ s.getLast?, isSpace c = false) :
    trim s = s := by
  have hdrop : s.dropWhile isSpace = s := by
    rcases s with _ | ⟨c, s⟩
    · rfl
    · exact List.dropWhile_cons_of_neg (by simp [hfirst c rfl])
  unfold trim
  rw [hdrop, List.rdropWhile_eq_self_iff]
  intro hne
  simp [hlast _ (List.getLast?_eq_some_getLast hne)]

theorem isSpace_of_isBlank {c : Char} (h : isBlank c = true) : isSpace c = true := by
  unfold isBlank at h
  rw [Bool.or_eq_true, decide_eq_true_eq, decide_eq_true_eq] at h
  rcases h with rfl | rfl <;> decide

/-- Blanks around a text do not matter for `trim`. -/
theorem trim_blanks (s : List Char) : trim ((s.dropWhile isBlank).rdropWhile isBlank) = trim s := by
  have hleft : trim (s.dropWhile isBlank) = trim s := by
    conv_rhs => rw [← List.takeWhile_append_dropWhile (p := isBlank) (l := s)]
    rw [trim_append_left fun c hc => isSpace_of_isBlank (List.mem_takeWhile_imp hc)]
  rw [← hleft]
  conv_rhs => rw [← List.rdropWhile_append_rtakeWhile (p := isBlank) (l := s.dropWhile isBlank)]
  rw [trim_append_right fun c hc => isSpace_of_isBlank (List.mem_rtakeWhile_imp hc)]

end Trim

end Strings

end QuantForge
