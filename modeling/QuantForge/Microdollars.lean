import QuantForge.Decimal
import QuantForge.ManifestSchema

/-!
# Reading an amount of money

What the text of `initial_capital` stands for, and when `Money::parse_microdollars` gives it.  The pattern of the
schema lets the fractional part have any number of digits; with fewer than six the parser throws, because the number
of zeros to append is a difference of unsigned numbers taken the wrong way round (`parseMicrodollars_eq_iff`).
-/

namespace QuantForge

namespace Money

open Strings (digitsValue int64Max)

/-! ### What the text stands for -/

/-- The digits before the point. -/
def wholeDigits (s : List Char) : List Char := s.takeWhile (· ≠ '.')

/-- The digits behind the point, if there is one. -/
def fractionDigits (s : List Char) : List Char := (s.dropWhile (· ≠ '.')).drop 1

/-- The amount in microdollars: the first six digits behind the point count, with zeros for those that are missing. -/
def microdollars (s : List Char) : ℕ :=
  digitsValue (wholeDigits s) * 1000000 + digitsValue (((fractionDigits s).take moneyScale).rightpad moneyScale '0')

/-! ### The texts of the schema -/

theorem isDigits_iff {s : List Char} : Manifest.isDigits s = true ↔ s ≠ [] ∧ ∀ c ∈ s, c.isDigit = true := by
  simp [Manifest.isDigits]

/-- Digits, or digits around a point. -/
theorem decimalPattern_cases {s : List Char} (h : Manifest.decimalPattern s = true) :
    Manifest.isDigits s = true ∨
      ∃ whole fraction, s = whole ++ '.' :: fraction ∧ Manifest.isDigits whole = true ∧
        Manifest.isDigits fraction = true := by
  simp only [Manifest.decimalPattern, Bool.and_eq_true, decide_eq_true_eq, List.all_eq_true] at h
  obtain ⟨hlen, hall⟩ := h
  have hjoin : ['.'].intercalate (s.splitOn '.') = s := List.intercalate_splitOn '.'
  have hne : s.splitOn '.' ≠ [] := List.splitOn_ne_nil '.' s
  generalize s.splitOn '.' = parts at hlen hall hjoin hne
  rcases parts with _ | ⟨whole, _ | ⟨fraction, _ | ⟨third, rest⟩⟩⟩
  · exact absurd rfl hne
  · left
    have hs : s = whole := by simpa using hjoin.symm
    rw [hs]
    exact hall whole (by simp)
  · right
    refine ⟨whole, fraction, ?_, hall whole (by simp), hall fraction (by simp)⟩
    simpa [List.intercalate] using hjoin.symm
  · simp at hlen

theorem not_mem_of_isDigits {s : List Char} (h : Manifest.isDigits s = true) : '.' ∉ s := fun hmem =>
  absurd ((isDigits_iff.1 h).2 '.' hmem) (by decide)

section Parts

variable {whole fraction : List Char} (hw : '.' ∉ whole)
include hw

theorem wholeDigits_of_not_mem : wholeDigits whole = whole := by
  refine List.takeWhile_eq_self_iff.2 fun c hc => ?_
  simpa using ne_of_mem_of_not_mem hc hw

theorem fractionDigits_of_not_mem : fractionDigits whole = [] := by
  unfold fractionDigits
  rw [List.dropWhile_eq_nil_iff.2 fun c hc => ?_, List.drop_nil]
  simpa using ne_of_mem_of_not_mem hc hw

theorem wholeDigits_point : wholeDigits (whole ++ '.' :: fraction) = whole := by
  unfold wholeDigits
  rw [List.takeWhile_append_of_pos fun c hc => by simpa using ne_of_mem_of_not_mem hc hw]
  simp

theorem fractionDigits_point : fractionDigits (whole ++ '.' :: fraction) = fraction := by
  unfold fractionDigits
  rw [List.dropWhile_append_of_pos fun c hc => by simpa using ne_of_mem_of_not_mem hc hw]
  simp

end Parts

/-! ### The parser -/

/-- With too few digits the zeros to append do not fit into any string. -/
theorem scaleFraction_short {fraction : List Char} (hd : ∀ c ∈ fraction, c.isDigit = true)
    (hlen : fraction.length < moneyScale) : scaleFraction fraction = .error .lengthError := by
  unfold scaleFraction
  rw [Strings.byteLength_digits hd, if_pos hlen]
  unfold Strings.append
  rw [Strings.byteLength_digits hd, if_neg]
  unfold Strings.maxSize
  unfold moneyScale at hlen ⊢
  omega

theorem scaleFraction_long {fraction : List Char} (hd : ∀ c ∈ fraction, c.isDigit = true)
    (hlen : moneyScale ≤ fraction.length) : scaleFraction fraction = .ok (fraction.take moneyScale) := by
  unfold scaleFraction
  rw [Strings.byteLength_digits hd, if_neg hlen.not_gt]
  split
  · rfl
  · rw [List.take_of_length_le (by omega)]

theorem rightpad_take_of_le {fraction : List Char} (hlen : moneyScale ≤ fraction.length) :
    (fraction.take moneyScale).rightpad moneyScale '0' = fraction.take moneyScale := by
  simp [List.rightpad, List.length_take, Nat.min_eq_left hlen]

theorem parseMicrodollars_whole {s : List Char} (hs : Manifest.isDigits s = true)
    (hfit : (microdollars s : ℤ) ≤ int64Max) : parseMicrodollars s = .ok (microdollars s) := by
  obtain ⟨hne, hd⟩ := isDigits_iff.1 hs
  have hpoint := not_mem_of_isDigits hs
  have hvalue : microdollars s = digitsValue s * 1000000 := by
    have hzero : digitsValue (List.rightpad moneyScale '0' (List.take moneyScale [])) = 0 := by decide
    unfold microdollars
    rw [wholeDigits_of_not_mem hpoint, fractionDigits_of_not_mem hpoint, hzero, Nat.add_zero]
  rw [hvalue] at hfit ⊢
  have hstoll := Strings.stoll_digits hd hne (by push_cast at hfit; omega)
  unfold parseMicrodollars
  rw [if_neg hpoint, hstoll]
  push_cast
  rfl

section Point

variable {whole fraction : List Char} (hw : Manifest.isDigits whole = true) (hf : Manifest.isDigits fraction = true)
include hw

/-- Both parts are converted on their own. -/
theorem parseMicrodollars_point :
    parseMicrodollars (whole ++ '.' :: fraction) = do
      let fractional ← scaleFraction fraction
      let wholeDollars ← Strings.stoll whole
      let microdollars ← Strings.stoll fractional
      return wholeDollars * scaledBase + microdollars := by
  have hpoint := not_mem_of_isDigits hw
  have hwhole : wholeDigits (whole ++ '.' :: fraction) = whole := wholeDigits_point hpoint
  have hfraction : fractionDigits (whole ++ '.' :: fraction) = fraction := fractionDigits_point hpoint
  unfold wholeDigits at hwhole
  unfold fractionDigits at hfraction
  unfold parseMicrodollars
  rw [if_pos (by simp), hwhole, hfraction]

include hf

theorem parseMicrodollars_short (hlen : fraction.length < moneyScale) :
    parseMicrodollars (whole ++ '.' :: fraction) = .error .lengthError := by
  rw [parseMicrodollars_point hw, scaleFraction_short (isDigits_iff.1 hf).2 hlen]
  rfl

theorem parseMicrodollars_long (hlen : moneyScale ≤ fraction.length)
    (hfit : (microdollars (whole ++ '.' :: fraction) : ℤ) ≤ int64Max) :
    parseMicrodollars (whole ++ '.' :: fraction) = .ok (microdollars (whole ++ '.' :: fraction)) := by
  obtain ⟨hwne, hwd⟩ := isDigits_iff.1 hw
  obtain ⟨hfne, hfd⟩ := isDigits_iff.1 hf
  have hpoint := not_mem_of_isDigits hw
  unfold microdollars at hfit ⊢
  rw [wholeDigits_point hpoint, fractionDigits_point hpoint, rightpad_take_of_le hlen] at hfit ⊢
  have htake : fraction.take moneyScale ≠ [] := by
    intro h
    rcases List.take_eq_nil_iff.1 h with h | h
    · exact absurd h (by decide)
    · exact hfne h
  have hwhole := Strings.stoll_digits hwd hwne (by push_cast at hfit; omega)
  have hfraction := Strings.stoll_digits (fun c hc => hfd c (List.mem_of_mem_take hc)) htake
    (by push_cast at hfit; omega)
  rw [parseMicrodollars_point hw, scaleFraction_long hfd hlen]
  simp only [bind, Except.bind, hwhole, hfraction, pure, Except.pure, scaledBase]
  push_cast
  rfl

end Point

/-- On the texts of the schema the parser gives what they stand for exactly if there is no point or at least six
digits behind it. -/
theorem parseMicrodollars_eq_iff (s : List Char) (hs : Manifest.decimalPattern s = true)
    (hfit : (microdollars s : ℤ) ≤ int64Max) :
    parseMicrodollars s = .ok (microdollars s) ↔ ('.' ∈ s → moneyScale ≤ (fractionDigits s).length) := by
  rcases decimalPattern_cases hs with hdigits | ⟨whole, fraction, rfl, hw, hf⟩
  · have hpoint := not_mem_of_isDigits hdigits
    exact iff_of_true (parseMicrodollars_whole hdigits hfit) fun h => absurd h hpoint
  · rw [fractionDigits_point (not_mem_of_isDigits hw)]
    by_cases hlen : fraction.length < moneyScale
    · rw [parseMicrodollars_short hw hf hlen]
      simp [hlen.not_ge]
    · rw [parseMicrodollars_long hw hf (not_lt.1 hlen) hfit]
      simp [not_lt.1 hlen]

theorem parseMicrodollars_eight_digits :
    parseMicrodollars "100000.12345678".toList = .ok 100000123456 :=
  (parseMicrodollars_eq_iff "100000.12345678".toList (by decide) (by decide)).2 (by decide)

/-- The initial capital of `manifest.example.json` is of the pattern, and the parser throws. -/
theorem example_capital_throws :
    Manifest.decimalPattern "100000.50".toList = true ∧ microdollars "100000.50".toList = 100000500000 ∧
      parseMicrodollars "100000.50".toList = .error .lengthError := by
  refine ⟨by decide, by decide, by decide⟩

end Money

end QuantForge
