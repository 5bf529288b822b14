import QuantForge.NetworkCache
import QuantForge.Decimal

/-!
# The order of the cache directives

`fresh_enough` goes through the directives of `Cache-Control` and returns with the first one it recognises, so one
that would forbid the answer is not seen behind one that allows it.  The answer is the same for every order of the
directives, respects a `no-store` anywhere and keeps within all limits exactly if the directives do not contradict
each other (`orderIndependent_iff`).
-/

namespace QuantForge

namespace Http

open Strings (trim ieqPrefix isSpace)

/-! ### Case -/

section Case

variable {c : Char}

theorem toLower_cases (c : Char) : c.toLower = c ∨ 65 ≤ c.toNat ∧ c.toNat ≤ 90 ∧ c.toLower.toNat = c.toNat + 32 := by
  unfold Char.toLower
  split
  · rename_i h
    right
    obtain ⟨h1, h2⟩ := h
    have h1' : 65 ≤ c.toNat := h1
    have h2' : c.toNat ≤ 90 := h2
    refine ⟨h1', h2', ?_⟩
    simp only [Char.toNat, UInt32.toNat_add] at h1' h2' ⊢
    have : ('a'.val - 'A'.val).toNat = 32 := by decide
    omega
  · exact Or.inl rfl

theorem toLower_toLower (c : Char) : c.toLower.toLower = c.toLower := by
  rcases toLower_cases c.toLower with h | ⟨h1, h2, -⟩
  · exact h
  · rcases toLower_cases c with h | ⟨h3, -, h4⟩
    · rw [h, h]
    · omega

/-- What concerns only characters before the letters does not see the case. -/
theorem apply_toLower {p : Char → Bool} (hp : ∀ c, p c = true → c.toNat < 65) (c : Char) : p c.toLower = p c := by
  rcases toLower_cases c with h | ⟨h1, -, h3⟩
  · rw [h]
  · have hc : p c = false := Bool.eq_false_iff.2 fun h => absurd (hp c h) (by omega)
    have hlower : p c.toLower = false := Bool.eq_false_iff.2 fun h => absurd (hp _ h) (by omega)
    rw [hc, hlower]

theorem decide_eq_toLower {d : Char} (hd : d.toNat < 65) (c : Char) : decide (c.toLower = d) = decide (c = d) := by
  refine apply_toLower (p := fun c => decide (c = d)) (fun c hc => ?_) c
  rw [decide_eq_true_eq] at hc
  rwa [hc]

theorem isSpace_toLower (c : Char) : isSpace c.toLower = isSpace c := by
  refine apply_toLower (fun c hc => ?_) c
  unfold isSpace at hc
  simp only [Bool.or_eq_true, decide_eq_true_eq] at hc
  rcases hc with ((((rfl | rfl) | rfl) | rfl) | rfl) | rfl <;> decide

theorem isDigit_toLower (c : Char) : c.toLower.isDigit = c.isDigit := by
  refine apply_toLower (fun c hc => ?_) c
  simp only [Char.isDigit, Bool.and_eq_true, decide_eq_true_eq] at hc
  have : c.toNat ≤ 57 := hc.2
  omega

theorem toLower_of_isDigit (h : c.isDigit = true) : c.toLower = c := by
  rcases toLower_cases c with hc | ⟨h1, -, -⟩
  · exact hc
  · simp only [Char.isDigit, Bool.and_eq_true, decide_eq_true_eq] at h
    have : c.toNat ≤ 57 := h.2
    omega

end Case

/-! ### Directives without regard to case -/

/-- A text in small letters. -/
def lower (s : Text) : Text := s.map Char.toLower

theorem dropWhile_lower {p : Char → Bool} (hp : ∀ c, p c.toLower = p c) (s : Text) :
    (lower s).dropWhile p = lower (s.dropWhile p) := by
  unfold lower
  rw [List.dropWhile_map, show p ∘ Char.toLower = p from funext hp]

theorem takeWhile_lower {p : Char → Bool} (hp : ∀ c, p c.toLower = p c) (s : Text) :
    (lower s).takeWhile p = lower (s.takeWhile p) := by
  unfold lower
  rw [List.takeWhile_map, show p ∘ Char.toLower = p from funext hp]

theorem trim_lower (s : Text) : trim (lower s) = lower (trim s) := by
  unfold trim List.rdropWhile
  rw [dropWhile_lower isSpace_toLower, lower, ← List.map_reverse, ← lower, dropWhile_lower isSpace_toLower, lower,
    ← List.map_reverse]
  rfl

theorem cStr_lower (s : Text) : Strings.cStr (lower s) = lower (Strings.cStr s) := by
  refine takeWhile_lower (fun c => ?_) s
  simpa using decide_eq_toLower (d := '\x00') (by decide) c

theorem lower_digits {s : Text} (h : ∀ c ∈ s, c.isDigit = true) : lower s = s := by
  unfold lower
  rw [List.map_congr_left fun c hc => toLower_of_isDigit (h c hc), List.map_id']

theorem span_lower (s : Text) :
    (lower s).span Char.isDigit = ((s.span Char.isDigit).1, lower (s.span Char.isDigit).2) := by
  rw [List.span_eq_takeWhile_dropWhile, List.span_eq_takeWhile_dropWhile, takeWhile_lower isDigit_toLower,
    dropWhile_lower isDigit_toLower, lower_digits fun c hc => List.mem_takeWhile_imp hc]

theorem scanInteger_lower (s : Text) :
    Strings.scanInteger (lower s) =
      ((Strings.scanInteger s).1, (Strings.scanInteger s).2.1, lower (Strings.scanInteger s).2.2) := by
  have hlower := dropWhile_lower isSpace_toLower s
  rcases hs : s.dropWhile isSpace with _ | ⟨c, t⟩ <;> rw [hs] at hlower
  · rw [Strings.scanInteger_nil hs, Strings.scanInteger_nil hlower]
    rfl
  · by_cases hminus : c = '-'
    · subst hminus
      rw [Strings.scanInteger_minus hs, Strings.scanInteger_minus (t := lower t) hlower, span_lower]
    · by_cases hplus : c = '+'
      · subst hplus
        rw [Strings.scanInteger_plus hs, Strings.scanInteger_plus (t := lower t) hlower, span_lower]
      · have hminus' : c.toLower ≠ '-' := by
          simpa [hminus] using decide_eq_toLower (d := '-') (by decide) c
        have hplus' : c.toLower ≠ '+' := by
          simpa [hplus] using decide_eq_toLower (d := '+') (by decide) c
        rw [Strings.scanInteger_unsigned hs hminus hplus,
          Strings.scanInteger_unsigned (t := lower t) hlower hminus' hplus']
        rw [show c.toLower :: lower t = lower (c :: t) from rfl, span_lower]

theorem strtol_lower (s : Text) :
    Strings.strtol (lower s) = ((Strings.strtol s).1, lower (Strings.strtol s).2) := by
  unfold Strings.strtol
  rw [cStr_lower, scanInteger_lower]
  rcases Strings.scanInteger (Strings.cStr s) with ⟨negative, _ | ⟨d, digits⟩, rest⟩ <;> rfl

theorem ieqPrefix_lower (d key : Text) : ieqPrefix (lower d) key = ieqPrefix d key := by
  induction key generalizing d with
  | nil => rcases d with _ | ⟨c, d⟩ <;> rfl
  | cons k key ih =>
    rcases d with _ | ⟨c, d⟩
    · rfl
    · simp only [lower, List.map_cons, ieqPrefix, toLower_toLower]
      rw [← lower, ih]

theorem lower_eq_nil {s : Text} : lower s = [] ↔ s = [] := List.map_eq_nil_iff

theorem maxAge?_lower (d : Text) : maxAge? (lower d) = maxAge? d := by
  have hne : ∀ c : Char, decide (c.toLower ≠ '=') = decide (c ≠ '=') := by
    intro c
    simpa using decide_eq_toLower (d := '=') (by decide) c
  have hmem : '=' ∈ lower d ↔ '=' ∈ d := by
    constructor
    · intro h
      obtain ⟨c, hc, heq⟩ := List.mem_map.1 h
      have hceq : c = '=' := by simpa [heq] using hne c
      exact hceq ▸ hc
    · intro h
      exact List.mem_map.2 ⟨'=', h, rfl⟩
  have hvalue : ((lower d).dropWhile (· ≠ '=')).drop 1 = lower ((d.dropWhile (· ≠ '=')).drop 1) := by
    rw [dropWhile_lower hne, lower, lower, List.map_drop]
  unfold maxAge?
  rw [ieqPrefix_lower, hvalue, trim_lower, strtol_lower]
  simp only [hmem, lower_eq_nil]

/-! ### What the directives say -/

/-- The comma-separated directives of a header. -/
def directives (cacheControl : Text) : List Text := cacheControl.splitOn ','

/-- The answer a directive asks for, if it is one of those the cache knows. -/
def verdict (ttlS age : ℤ) (directive : Text) : Option Bool :=
  if ieqPrefix directive CacheControlKeys.noStoreKey then some false
  else if ieqPrefix directive CacheControlKeys.noCacheKey then some (decide (age ≤ 0))
  else (maxAge? directive).map fun maxAge => decide (age ≤ min ttlS maxAge)

/-- A directive without the blanks around it, in small letters. -/
def normal (token : Text) : Text := lower (trim token)

/-- The same directives in any order, in any case and with any blanks around them. -/
def SameDirectives (cacheControl cacheControl' : Text) : Prop :=
  ((directives cacheControl).map normal).Perm ((directives cacheControl').map normal)

instance (cacheControl cacheControl' : Text) : Decidable (SameDirectives cacheControl cacheControl') :=
  inferInstanceAs (Decidable (List.Perm _ _))

/-- The age of an entry. -/
def ageAt (now : ℤ) (m : Meta) : ℤ := max (now - m.unixTsS) 0

theorem verdict_normal (ttlS age : ℤ) (token : Text) :
    verdict ttlS age (normal token) = verdict ttlS age (trim token) := by
  unfold verdict normal
  rw [ieqPrefix_lower, ieqPrefix_lower, maxAge?_lower]

theorem freshByDirectives_eq (ttlS age : ℤ) (pairs : List Text) :
    freshByDirectives ttlS age pairs =
      ((pairs.map trim).findSome? (verdict ttlS age)).getD (decide (age ≤ ttlS)) := by
  induction pairs with
  | nil => rfl
  | cons pair pairs ih =>
    rw [freshByDirectives, List.map_cons, List.findSome?_cons]
    by_cases hstore : ieqPrefix (trim pair) CacheControlKeys.noStoreKey = true
    · have hverdict : verdict ttlS age (trim pair) = some false := by simp [verdict, hstore]
      simp [hstore, hverdict]
    · by_cases hcache : ieqPrefix (trim pair) CacheControlKeys.noCacheKey = true
      · have hverdict : verdict ttlS age (trim pair) = some (decide (age ≤ 0)) := by simp [verdict, hstore, hcache]
        simp [hstore, hcache, hverdict]
      · have hverdict : verdict ttlS age (trim pair) =
            (maxAge? (trim pair)).map fun maxAge => decide (age ≤ min ttlS maxAge) := by
          simp [verdict, hstore, hcache]
        rw [hverdict]
        rcases maxAge? (trim pair) with _ | maxAge
        · simpa [hstore, hcache] using ih
        · simp [hstore, hcache]

/-- The tokens that are dropped say nothing. -/
theorem findSome?_split (ttlS age : ℤ) (cacheControl : Text) :
    ((Strings.splitCommaDelimitedString cacheControl).map trim).findSome? (verdict ttlS age) =
      ((directives cacheControl).map normal).findSome? (verdict ttlS age) := by
  unfold Strings.splitCommaDelimitedString directives
  induction cacheControl.splitOn ',' with
  | nil => rfl
  | cons token tokens ih =>
    rw [List.map_cons, List.map_cons, List.findSome?_cons, verdict_normal, ← ih, List.filter_cons]
    split
    · rw [List.map_cons, List.findSome?_cons, Strings.trim_blanks]
    · rename_i hempty
      have htoken : trim token = [] := by
        rw [← Strings.trim_blanks, show (token.dropWhile Strings.isBlank).rdropWhile Strings.isBlank = [] by
          simpa using hempty]
        rfl
      rw [htoken]
      rfl

/-- `fresh_enough` answers as the first directive that says anything. -/
theorem freshEnough_eq (policy : NetworkCachePolicy) (now : ℤ) (m : Meta) :
    freshEnough policy now m =
      (((directives m.cacheControl).map normal).findSome? (verdict policy.ttlS (ageAt now m))).getD
        (decide (ageAt now m ≤ policy.ttlS)) := by
  unfold freshEnough
  rw [freshByDirectives_eq, findSome?_split]
  rfl

/-- What a directive that says something is. -/
theorem verdict_eq_some {ttlS age : ℤ} {directive : Text} {b : Bool} (h : verdict ttlS age directive = some b) :
    ieqPrefix directive CacheControlKeys.noStoreKey = true ∧ b = false ∨
      ieqPrefix directive CacheControlKeys.noCacheKey = true ∧ b = decide (age ≤ 0) ∨
      ∃ maxAge, maxAge? directive = some maxAge ∧ b = decide (age ≤ min ttlS maxAge) := by
  unfold verdict at h
  split at h
  · rename_i hstore
    exact Or.inl ⟨hstore, (Option.some.inj h).symm⟩
  · split at h
    · rename_i hcache
      exact Or.inr (Or.inl ⟨hcache, (Option.some.inj h).symm⟩)
    · obtain ⟨maxAge, hmax, rfl⟩ := Option.map_eq_some_iff.1 h
      exact Or.inr (Or.inr ⟨maxAge, hmax, rfl⟩)

/-- A well-formed `max-age` always says something. -/
theorem isSome_verdict (ttlS age : ℤ) {directive : Text} {maxAge : ℤ} (h : maxAge? directive = some maxAge) :
    (verdict ttlS age directive).isSome = true := by
  unfold verdict
  rw [h]
  split
  · rfl
  · split <;> rfl

theorem maxAge?_nonneg {directive : Text} {maxAge : ℤ} (h : maxAge? directive = some maxAge) : 0 ≤ maxAge := by
  unfold maxAge? at h
  split at h
  · dsimp only at h
    split at h
    · rename_i hvalue
      obtain rfl := Option.some.inj h
      exact hvalue.2
    · cases h
  · cases h

theorem lower_prefix_of_ieqPrefix {d key : Text} (h : ieqPrefix d key = true) : lower key <+: lower d := by
  induction key generalizing d with
  | nil => exact List.nil_prefix
  | cons k key ih =>
    rcases d with _ | ⟨c, d⟩
    · cases h
    · simp only [ieqPrefix, Bool.and_eq_true, decide_eq_true_eq, Bool.or_eq_true] at h
      obtain ⟨hc, hrest⟩ := h
      refine List.cons_prefix_cons.2 ⟨hc.symm, ?_⟩
      rcases hrest with rfl | hrest
      · exact List.nil_prefix
      · exact ih hrest

/-- A `no-cache` is no `no-store`. -/
theorem not_noStore_of_noCache {d : Text} (h : ieqPrefix d CacheControlKeys.noCacheKey = true) :
    ieqPrefix d CacheControlKeys.noStoreKey = false := by
  by_contra hstore
  rw [Bool.not_eq_false] at hstore
  have hprefix := List.prefix_of_prefix_length_le (lower_prefix_of_ieqPrefix h) (lower_prefix_of_ieqPrefix hstore)
    (by decide)
  exact absurd hprefix (by decide)

/-! ### Unanimity -/

section Unanimous

variable {α β : Type} {f : α → Option β} {l l' : List α}

/-- No two elements of the list give different values. -/
def Unanimous (f : α → Option β) (l : List α) : Prop :=
  ∀ a ∈ l, ∀ b ∈ l, ∀ x y, f a = some x → f b = some y → x = y

theorem Unanimous.findSome? (h : Unanimous f l) {a : α} {x : β} (ha : a ∈ l) (hx : f a = some x) :
    l.findSome? f = some x := by
  rcases hfound : l.findSome? f with _ | y
  · rw [List.findSome?_eq_none_iff.1 hfound a ha] at hx
    cases hx
  · obtain ⟨b, hb, hy⟩ := List.exists_of_findSome?_eq_some hfound
    rw [h a ha b hb x y hx hy]

theorem Unanimous.findSome?_perm (h : Unanimous f l) (hperm : l.Perm l') : l'.findSome? f = l.findSome? f := by
  rcases hfound : l.findSome? f with _ | x
  · rw [List.findSome?_eq_none_iff] at hfound ⊢
    exact fun a ha => hfound a (hperm.mem_iff.2 ha)
  · obtain ⟨a, ha, hx⟩ := List.exists_of_findSome?_eq_some hfound
    have h' : Unanimous f l' := fun b hb c hc => h b (hperm.mem_iff.2 hb) c (hperm.mem_iff.2 hc)
    exact h'.findSome? (hperm.mem_iff.1 ha) hx

end Unanimous

theorem comma_not_mem_of_directive {cacheControl token : Text} (h : token ∈ directives cacheControl) :
    ',' ∉ token := by
  unfold directives at h
  induction cacheControl generalizing token with
  | nil =>
    rw [List.splitOn_nil, List.mem_singleton] at h
    simp [h]
  | cons c s ih =>
    rw [List.splitOn_cons_eq_if_modifyHead] at h
    split at h
    · rcases List.mem_cons.1 h with rfl | h
      · simp
      · exact ih h
    · rename_i hc
      rcases hsplit : s.splitOn ',' with _ | ⟨first, rest⟩
      · exact absurd hsplit (List.splitOn_ne_nil _ _)
      · rw [hsplit, List.modifyHead_cons, List.mem_cons] at h
        rcases h with rfl | h
        · have hfirst := @ih first (by simp [hsplit])
          intro hmem
          rcases List.mem_cons.1 hmem with heq | hmem
          · exact hc (by simp [heq.symm])
          · exact hfirst hmem
        · exact ih (by simp [hsplit, h])

/-- Any directive can be put first. -/
theorem exists_sameDirectives {cacheControl token : Text} (h : token ∈ directives cacheControl) :
    ∃ cacheControl' rest, directives cacheControl' = token :: rest ∧ SameDirectives cacheControl cacheControl' := by
  have hperm : (directives cacheControl).Perm (token :: (directives cacheControl).erase token) :=
    List.perm_cons_erase h
  have hdirectives : directives ([','].intercalate (token :: (directives cacheControl).erase token)) =
      token :: (directives cacheControl).erase token := by
    refine List.splitOn_intercalate ',' (fun t ht => ?_) (by simp)
    exact comma_not_mem_of_directive (hperm.mem_iff.2 ht)
  refine ⟨_, _, hdirectives, ?_⟩
  unfold SameDirectives
  rw [hdirectives]
  exact hperm.map _

/-! ### The answer and the order -/

/-- The answer is the same for every order of the directives, a `no-store` makes it negative, and a positive answer is
within the time to live and every `max-age`. -/
structure OrderIndependent (policy : NetworkCachePolicy) (now : ℤ) (m : Meta) : Prop where
  sameAnswer : ∀ cacheControl, SameDirectives m.cacheControl cacheControl →
    freshEnough policy now { m with cacheControl } = freshEnough policy now m
  noStore : (∃ token ∈ directives m.cacheControl, ieqPrefix (trim token) CacheControlKeys.noStoreKey = true) →
    freshEnough policy now m = false
  limits : freshEnough policy now m = true →
    ageAt now m ≤ policy.ttlS ∧
      ∀ token ∈ directives m.cacheControl, ∀ maxAge, maxAge? (trim token) = some maxAge → ageAt now m ≤ maxAge

/-- No two directives ask for different answers, and the time to live is not negative if a `no-cache` allows an entry
that has just been stored. -/
structure ConsistentDirectives (policy : NetworkCachePolicy) (now : ℤ) (m : Meta) : Prop where
  unanimous : Unanimous (fun token => verdict policy.ttlS (ageAt now m) (trim token)) (directives m.cacheControl)
  noCache : (∃ token ∈ directives m.cacheControl, ieqPrefix (trim token) CacheControlKeys.noCacheKey = true) →
    ageAt now m ≤ 0 → 0 ≤ policy.ttlS

section Order

variable {policy : NetworkCachePolicy} {now : ℤ} {m : Meta}

theorem ConsistentDirectives.unanimous_normal (h : ConsistentDirectives policy now m) :
    Unanimous (verdict policy.ttlS (ageAt now m)) ((directives m.cacheControl).map normal) := by
  intro a ha b hb x y hx hy
  obtain ⟨token, htoken, rfl⟩ := List.mem_map.1 ha
  obtain ⟨token', htoken', rfl⟩ := List.mem_map.1 hb
  rw [verdict_normal] at hx hy
  exact h.unanimous token htoken token' htoken' x y hx hy

/-- Consistent directives: the answer is what any of them asks for. -/
theorem ConsistentDirectives.freshEnough (h : ConsistentDirectives policy now m) {token : Text}
    (htoken : token ∈ directives m.cacheControl) {b : Bool}
    (hb : verdict policy.ttlS (ageAt now m) (trim token) = some b) : Http.freshEnough policy now m = b := by
  rw [freshEnough_eq, h.unanimous_normal.findSome? (List.mem_map_of_mem htoken) (by rw [verdict_normal, hb])]
  rfl

/-- A positive answer keeps within the time to live. -/
theorem ConsistentDirectives.age_le_ttl (h : ConsistentDirectives policy now m)
    (hfresh : Http.freshEnough policy now m = true) : ageAt now m ≤ policy.ttlS := by
  rw [freshEnough_eq] at hfresh
  rcases hfound : ((directives m.cacheControl).map normal).findSome? (verdict policy.ttlS (ageAt now m)) with _ | b
  · rw [hfound] at hfresh
    simpa using hfresh
  · rw [hfound, Option.getD_some] at hfresh
    subst hfresh
    obtain ⟨d, hd, hverdict⟩ := List.exists_of_findSome?_eq_some hfound
    obtain ⟨token, htoken, rfl⟩ := List.mem_map.1 hd
    rw [verdict_normal] at hverdict
    rcases verdict_eq_some hverdict with ⟨-, hb⟩ | ⟨hcache, hb⟩ | ⟨maxAge, -, hb⟩
    · cases hb
    · have hzero : ageAt now m ≤ 0 := of_decide_eq_true hb.symm
      exact hzero.trans (h.noCache ⟨token, htoken, hcache⟩ hzero)
    · have hle : ageAt now m ≤ min policy.ttlS maxAge := of_decide_eq_true hb.symm
      exact hle.trans (min_le_left _ _)

/-- A positive answer keeps within every `max-age`. -/
theorem ConsistentDirectives.age_le_maxAge (h : ConsistentDirectives policy now m)
    (hfresh : Http.freshEnough policy now m = true) {token : Text} (htoken : token ∈ directives m.cacheControl)
    {maxAge : ℤ} (hmax : maxAge? (trim token) = some maxAge) : ageAt now m ≤ maxAge := by
  obtain ⟨b, hverdict⟩ := Option.isSome_iff_exists.1 (isSome_verdict policy.ttlS (ageAt now m) hmax)
  have hb := h.freshEnough htoken hverdict
  rw [hfresh] at hb
  subst hb
  rcases verdict_eq_some hverdict with ⟨-, hb⟩ | ⟨-, hb⟩ | ⟨maxAge', hmax', hb⟩
  · cases hb
  · have hzero : ageAt now m ≤ 0 := of_decide_eq_true hb.symm
    exact hzero.trans (maxAge?_nonneg hmax)
  · rw [hmax] at hmax'
    obtain rfl := Option.some.inj hmax'
    have hle : ageAt now m ≤ min policy.ttlS maxAge := of_decide_eq_true hb.symm
    exact hle.trans (min_le_right _ _)

/-- A directive that is put first decides. -/
theorem OrderIndependent.freshEnough (h : OrderIndependent policy now m) {token : Text}
    (htoken : token ∈ directives m.cacheControl) {b : Bool}
    (hb : verdict policy.ttlS (ageAt now m) (trim token) = some b) : Http.freshEnough policy now m = b := by
  obtain ⟨cacheControl, rest, hfirst, hsame⟩ := exists_sameDirectives htoken
  have hage : ageAt now { m with cacheControl } = ageAt now m := rfl
  rw [← h.sameAnswer cacheControl hsame, freshEnough_eq, hfirst, List.map_cons, List.findSome?_cons,
    verdict_normal, hage, hb]
  rfl

/-- The answer depends on the directives as a whole exactly if they are consistent. -/
theorem orderIndependent_iff (policy : NetworkCachePolicy) (now : ℤ) (m : Meta) :
    OrderIndependent policy now m ↔ ConsistentDirectives policy now m := by
  constructor
  · intro h
    refine ⟨fun a ha b hb x y hx hy => ?_, ?_⟩
    · exact (h.freshEnough ha hx).symm.trans (h.freshEnough hb hy)
    · rintro ⟨token, htoken, hcache⟩ hzero
      have hverdict : verdict policy.ttlS (ageAt now m) (trim token) = some true := by
        simp [verdict, not_noStore_of_noCache hcache, hcache, hzero]
      have hlimit := (h.limits (h.freshEnough htoken hverdict)).1
      exact (le_max_right (now - m.unixTsS) 0).trans hlimit
  · intro h
    refine ⟨fun cacheControl hsame => ?_, ?_, fun hfresh => ⟨h.age_le_ttl hfresh, fun token htoken maxAge hmax => ?_⟩⟩
    · rw [freshEnough_eq, freshEnough_eq]
      have hperm := h.unanimous_normal.findSome?_perm hsame
      rw [← hperm]
      rfl
    · rintro ⟨token, htoken, hstore⟩
      exact h.freshEnough htoken (by simp [verdict, hstore])
    · exact h.age_le_maxAge hfresh htoken hmax

end Order

/-- An entry with the given header, stored at time zero. -/
def storedWith (cacheControl : String) : Meta := { unixTsS := 0, cacheControl := cacheControl.toList }

/-- Behind a `max-age` a `no-store` is not seen. -/
theorem no_store_unseen :
    SameDirectives (storedWith "No-Store, max-age=60").cacheControl (storedWith "max-age=60, no-store").cacheControl ∧
      freshEnough {} 10 (storedWith "No-Store, max-age=60") = false ∧
      freshEnough {} 10 (storedWith "max-age=60, no-store") = true ∧
      ¬ OrderIndependent {} 10 (storedWith "max-age=60, no-store") := by
  have hfresh : freshEnough {} 10 (storedWith "max-age=60, no-store") = true := by decide
  refine ⟨by decide, by decide, hfresh, fun h => ?_⟩
  have hstale := h.noStore ⟨" no-store".toList, by decide, by decide⟩
  rw [hfresh] at hstale
  cases hstale

end Http

end QuantForge
