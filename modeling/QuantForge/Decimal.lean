import Mathlib.Data.List.TakeDrop
import QuantForge.Strings

/-!
# Decimal numbers as text

A text of digits is read as its value by `stoll` (`stoll_digits`) and by `strtol`, with nothing left behind it, and
`strtol` reads back every `long` that a stream has printed (`strtol_printLong`).
-/

namespace QuantForge

namespace Strings

section Scan

variable {s t : List Char} {c : Char}

theorem scanInteger_nil (hs : s.dropWhile isSpace = []) : scanInteger s = (false, [], []) := by
  unfold scanInteger
  rw [hs]
  rfl

theorem scanInteger_minus (hs : s.dropWhile isSpace = '-' :: t) : scanInteger s = (true, t.span Char.isDigit) := by
  unfold scanInteger
  rw [hs]
  rfl

theorem scanInteger_plus (hs : s.dropWhile isSpace = '+' :: t) : scanInteger s = (false, t.span Char.isDigit) := by
  unfold scanInteger
  rw [hs]
  rfl

theorem scanInteger_unsigned (hs : s.dropWhile isSpace = c :: t) (hminus : c ≠ '-') (hplus : c ≠ '+') :
    scanInteger s = (false, (c :: t).span Char.isDigit) := by
  unfold scanInteger
  rw [hs]
  split
  · rename_i heq
    exact absurd (List.cons.inj heq).1 hminus
  · rename_i heq
    exact absurd (List.cons.inj heq).1 hplus
  · rfl

end Scan

section Digit

variable {c : Char} (h : c.isDigit = true)
include h

theorem isSpace_of_isDigit : isSpace c = false := by
  unfold isSpace
  by_contra hc
  simp only [Bool.not_eq_false, Bool.or_eq_true, decide_eq_true_eq] at hc
  rcases hc with ((((rfl | rfl) | rfl) | rfl) | rfl) | rfl <;> exact absurd h (by decide)

theorem ne_of_isDigit {d : Char} (hd : d.isDigit = false) : c ≠ d := by
  rintro rfl
  rw [h] at hd
  cases hd

theorem utf8Size_of_isDigit : c.utf8Size = 1 := by
  have hle : c.val ≤ 57 := by
    simp only [Char.isDigit, Bool.and_eq_true, decide_eq_true_eq] at h
    exact h.2
  have hlt : c.val ≤ 127 := UInt32.le_trans hle (by decide)
  simp [Char.utf8Size, hlt]

end Digit

section Digits

variable {ds : List Char} (hd : ∀ c ∈ ds, c.isDigit = true)
include hd

theorem cStr_digits : cStr ds = ds := by
  refine List.takeWhile_eq_self_iff.2 fun c hc => ?_
  simpa using ne_of_isDigit (hd c hc) (by decide)

theorem byteLength_digits : byteLength ds = ds.length := by
  unfold byteLength
  rw [List.map_congr_left fun c hc => utf8Size_of_isDigit (hd c hc)]
  simp

theorem span_digits : ds.span Char.isDigit = (ds, []) := by
  rw [List.span_eq_takeWhile_dropWhile, List.takeWhile_eq_self_iff.2 hd, List.dropWhile_eq_nil_iff.2 hd]

/-- Digits are scanned as they are. -/
theorem scanInteger_digits : scanInteger ds = (false, ds, []) := by
  have hspace : ds.dropWhile isSpace = ds := by
    refine List.dropWhile_eq_self_iff.2 fun hlen => ?_
    rw [isSpace_of_isDigit (hd _ (List.getElem_mem hlen))]
    simp
  rcases ds with _ | ⟨c, ds⟩
  · exact scanInteger_nil hspace
  · have hc := hd c List.mem_cons_self
    rw [scanInteger_unsigned hspace (ne_of_isDigit hc (by decide)) (ne_of_isDigit hc (by decide)), span_digits hd]

theorem stoll_digits (hne : ds ≠ []) (hle : (digitsValue ds : ℤ) ≤ int64Max) :
    stoll ds = .ok (digitsValue ds) := by
  unfold stoll
  rw [cStr_digits hd, scanInteger_digits hd]
  split
  · rename_i heq
    simp only [Prod.mk.injEq] at heq
    exact absurd heq.2.1 hne
  · rename_i heq
    simp only [Prod.mk.injEq] at heq
    obtain ⟨rfl, rfl, rfl⟩ := heq
    have hmin : int64Min ≤ (digitsValue ds : ℤ) := le_trans (by decide) (Int.natCast_nonneg _)
    simp [scannedValue, hmin, hle]

end Digits

/-! ### Printing -/

/-- `operator<<` of a stream for a `long`. -/
def printLong (n : ℤ) : List Char :=
  if n < 0 then '-' :: Nat.toDigits 10 n.natAbs else Nat.toDigits 10 n.natAbs

theorem digitsValue_toDigits (n : ℕ) : digitsValue (Nat.toDigits 10 n) = n :=
  Nat.ofDigitChars_ten_toDigits

theorem isDigit_toDigits (n : ℕ) : ∀ c ∈ Nat.toDigits 10 n, c.isDigit = true :=
  fun _ => Nat.isDigit_of_mem_toDigits (by decide) (by decide)

/-- What is printed is a digit or the sign. -/
theorem mem_printLong {n : ℤ} {c : Char} (h : c ∈ printLong n) : c = '-' ∨ c.isDigit = true := by
  unfold printLong at h
  split at h
  · rcases List.mem_cons.1 h with rfl | h
    · exact Or.inl rfl
    · exact Or.inr (isDigit_toDigits _ c h)
  · exact Or.inr (isDigit_toDigits _ c h)

theorem isSpace_of_mem_printLong {n : ℤ} {c : Char} (h : c ∈ printLong n) : isSpace c = false := by
  rcases mem_printLong h with rfl | hc
  · decide
  · exact isSpace_of_isDigit hc

theorem cStr_printLong (n : ℤ) : cStr (printLong n) = printLong n := by
  refine List.takeWhile_eq_self_iff.2 fun c hc => ?_
  rcases mem_printLong hc with rfl | hc
  · decide
  · simpa using ne_of_isDigit hc (by decide)

theorem scanInteger_printLong (n : ℤ) :
    scanInteger (printLong n) = (decide (n < 0), Nat.toDigits 10 n.natAbs, []) := by
  have hdigits := isDigit_toDigits n.natAbs
  unfold printLong
  by_cases hn : n < 0
  · rw [if_pos hn, scanInteger_minus (List.dropWhile_cons_of_neg (by decide)), span_digits hdigits]
    simp [hn]
  · rw [if_neg hn, scanInteger_digits hdigits]
    simp [hn]

/-- Every `long` is read back as it was printed. -/
theorem strtol_printLong {n : ℤ} (hmin : int64Min ≤ n) (hmax : n ≤ int64Max) : strtol (printLong n) = (n, []) := by
  have hvalue : scannedValue (decide (n < 0)) (Nat.toDigits 10 n.natAbs) = n := by
    unfold scannedValue
    rw [digitsValue_toDigits]
    by_cases hn : n < 0
    · simp only [hn, decide_true, ↓reduceIte]
      omega
    · simp only [hn, decide_false, Bool.false_eq_true, ↓reduceIte]
      omega
  unfold strtol
  rw [cStr_printLong, scanInteger_printLong]
  split
  · rename_i heq
    simp only [Prod.mk.injEq] at heq
    exact absurd heq.2.1 Nat.toDigits_ne_nil
  · rename_i heq
    simp only [Prod.mk.injEq] at heq
    obtain ⟨rfl, rfl, rfl⟩ := heq
    rw [hvalue, min_eq_right hmax, max_eq_right hmin]

end Strings

end QuantForge
