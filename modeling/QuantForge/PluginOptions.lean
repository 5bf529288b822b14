import QuantForge.Decimal
import QuantForge.GrowingVector
import QuantForge.ManifestSchema

/-!
# The options of a plugin

`PluginManifest::get_options` (`manifest.cpp`) and the dictionary `PythonLoader` makes of them for `on_init`.  The
options are pointers into `cached_option_strings_`, which grows while they are taken: what a plugin reads is right
from the second call of `get_options` on and wrong in the first (`optionsSeen_eq_iff`), and the loaders call it once.
No two options have the same key, and where they can be read the dictionary holds the symbols of the manifest
(`readSymbols_options`).
-/

namespace QuantForge

namespace Manifest

open Strings (printLong cStr)

/-! ### `std::to_string` -/

/-- The nearest integer, ties to even. -/
def roundEven (x : ℚ) : ℤ :=
  if x - ⌊x⌋ < 1 / 2 then ⌊x⌋ else if 1 / 2 < x - ⌊x⌋ then ⌊x⌋ + 1 else if ⌊x⌋ % 2 = 0 then ⌊x⌋ else ⌊x⌋ + 1

/-- `std::to_string` of a `double`: six decimals. -/
def printDouble (q : ℚ) : List Char :=
  let millionths := (roundEven (|q| * 10 ^ 6)).toNat
  let fraction := Nat.toDigits 10 (millionths % 10 ^ 6)
  (if q < 0 then ['-'] else []) ++ Nat.toDigits 10 (millionths / 10 ^ 6) ++
    '.' :: (List.replicate (6 - fraction.length) '0' ++ fraction)

def printBool (b : Bool) : List Char := if b then "true".toList else "false".toList

/-! ### `get_options` -/

/-- The options with fixed keys, in their order, those of absent optionals without a value. -/
def hostTable (hp : HostParams) : List (String × Option (List Char)) :=
  [("market_hours_only", hp.marketHoursOnly.map printBool),
   ("allow_fractional_shares", hp.allowFractionalShares.map printBool),
   ("monte_carlo_runs", some (printLong hp.monteCarloRuns)),
   ("monte_carlo_seed", some (printLong hp.monteCarloSeed)),
   ("initial_capital", some (printLong hp.initialCapital)),
   ("backtest_start_datetime", some hp.backtestStartDatetime.toList),
   ("backtest_end_datetime", some hp.backtestEndDatetime.toList),
   ("commission", hp.commission.map printDouble),
   ("commission_type", hp.commissionType.map String.toList),
   ("slippage", hp.slippage.map printDouble),
   ("slippage_model", hp.slippageModel.map String.toList),
   ("default_currency", hp.defaultCurrency.map String.toList),
   ("timezone", hp.timezone.map String.toList),
   ("optimization_mode", hp.optimizationMode.map String.toList),
   ("fill_max_pct_of_volume", hp.fillMaxPctOfVolume.map printDouble),
   ("risk_free_rate", hp.riskFreeRate.map printDouble),
   ("allow_short_selling", hp.allowShortSelling.map printBool),
   ("initial_margin_pct", hp.initialMarginPct.map printDouble),
   ("max_leverage", hp.maxLeverage.map printDouble),
   ("position_sizing_method", hp.positionSizingMethod.map String.toList),
   ("position_size_value", hp.positionSizeValue.map printDouble),
   ("max_position_size", hp.maxPositionSize.map printDouble),
   ("use_stop_loss", hp.useStopLoss.map printBool),
   ("stop_loss_pct", hp.stopLossPct.map printDouble),
   ("use_take_profit", hp.useTakeProfit.map printBool),
   ("take_profit_pct", hp.takeProfitPct.map printDouble)]

def hostOptions (hp : HostParams) : List (List Char × List Char) :=
  (hostTable hp).filterMap fun e => e.2.map fun value => (e.1.toList, value)

def symbolKey (i : ℕ) (name : String) : List Char :=
  "symbol_".toList ++ (printLong i ++ ('_' :: name.toList))

def symbolOptions (sym : Symbol) (i : ℕ) : List (List Char × List Char) :=
  [(symbolKey i "symbol", sym.symbol.toList), (symbolKey i "primary", printBool sym.primary),
   (symbolKey i "timespan", printLong sym.timespan), (symbolKey i "timespan_unit", sym.timespanUnit.toList)]

/-- The keys and values of `get_options`, in order; `text` is the JSON text of the strategy's parameters. -/
def options (text : Json → List Char) (m : PluginManifest) : List (List Char × List Char) :=
  hostOptions m.hostParams ++ m.hostParams.symbols.zipIdx.flatMap (fun e => symbolOptions e.1 e.2) ++
    [("symbol_count".toList, printLong m.hostParams.symbols.length),
      ("strategy_params".toList, text m.strategyParams)]

/-! ### Keys -/

theorem printLong_natCast (n : ℕ) : printLong n = Nat.toDigits 10 n := by
  simp [printLong]

theorem takeWhile_symbolKey (i : ℕ) (name : String) :
    ((symbolKey i name).drop 7).takeWhile Char.isDigit = Nat.toDigits 10 i := by
  have hdrop : (symbolKey i name).drop 7 = printLong i ++ '_' :: name.toList := List.drop_left' (by decide)
  rw [hdrop, printLong_natCast, List.takeWhile_append_of_pos (Strings.isDigit_toDigits i),
    List.takeWhile_cons_of_neg (by decide), List.append_nil]

theorem symbolKey_inj {i j : ℕ} {name name' : String} (h : symbolKey i name = symbolKey j name') :
    i = j ∧ name = name' := by
  have hij : i = j := by
    rw [← Strings.digitsValue_toDigits i, ← takeWhile_symbolKey i name, h, takeWhile_symbolKey,
      Strings.digitsValue_toDigits]
  subst hij
  have hname := List.append_cancel_left (List.append_cancel_left h)
  exact ⟨rfl, String.toList_injective (List.cons.inj hname).2⟩

/-- The eighth character of a symbol's key is a digit, and not that of `symbol_count`. -/
theorem symbolKey_ne_count (i : ℕ) (name : String) : symbolKey i name ≠ "symbol_count".toList := by
  intro h
  have hdigits := takeWhile_symbolKey i name
  rw [h] at hdigits
  exact Nat.toDigits_ne_nil hdigits.symm

theorem take_symbolKey (i : ℕ) (name : String) : (symbolKey i name).take 7 = "symbol_".toList :=
  List.take_left' (by decide)

/-- The keys of the options that do not depend on the symbols. -/
def fixedKeys : List String :=
  ["market_hours_only", "allow_fractional_shares", "monte_carlo_runs", "monte_carlo_seed", "initial_capital",
   "backtest_start_datetime", "backtest_end_datetime", "commission", "commission_type", "slippage", "slippage_model",
   "default_currency", "timezone", "optimization_mode", "fill_max_pct_of_volume", "risk_free_rate",
   "allow_short_selling", "initial_margin_pct", "max_leverage", "position_sizing_method", "position_size_value",
   "max_position_size", "use_stop_loss", "stop_loss_pct", "use_take_profit", "take_profit_pct"]

theorem fst_hostTable (hp : HostParams) : (hostTable hp).map Prod.fst = fixedKeys := rfl

theorem fst_hostOptions (hp : HostParams) :
    ((hostOptions hp).map Prod.fst).Sublist (fixedKeys.map String.toList) := by
  rw [← fst_hostTable hp, hostOptions, List.map_map, List.map_filterMap]
  generalize hostTable hp = table
  induction table with
  | nil => exact List.Sublist.slnil
  | cons e table ih =>
    rcases hvalue : e.2 with _ | value
    · simpa [hvalue] using ih.cons e.1.toList
    · simpa [hvalue] using ih.cons_cons e.1.toList

theorem fixedKeys_nodup : (fixedKeys.map String.toList).Nodup := by decide +kernel

/-- The other keys are not among the fixed ones. -/
theorem notMem_fixedKeys {key : List Char} (h : key.take 7 = "symbol_".toList ∨ key = "strategy_params".toList) :
    key ∉ fixedKeys.map String.toList := by
  have hall : ∀ k ∈ fixedKeys.map String.toList, k.take 7 ≠ "symbol_".toList ∧ k ≠ "strategy_params".toList := by
    decide +kernel
  rintro hmem
  exact h.elim (hall key hmem).1 (hall key hmem).2

theorem fst_symbolOptions (sym : Symbol) (i : ℕ) :
    (symbolOptions sym i).map Prod.fst = ["symbol", "primary", "timespan", "timespan_unit"].map (symbolKey i) := rfl

theorem fst_allSymbolOptions (symbols : List Symbol) :
    (symbols.zipIdx.flatMap fun e => symbolOptions e.1 e.2).map Prod.fst =
      (List.range symbols.length).flatMap fun i => ["symbol", "primary", "timespan", "timespan_unit"].map
        (symbolKey i) := by
  rw [List.map_flatMap]
  simp only [fst_symbolOptions]
  rw [List.range_eq_range', ← List.zipIdx_map_snd 0 symbols, List.flatMap_map]

theorem mem_allSymbolOptions {symbols : List Symbol} {key : List Char}
    (h : key ∈ (symbols.zipIdx.flatMap fun e => symbolOptions e.1 e.2).map Prod.fst) :
    ∃ i name, key = symbolKey i name := by
  rw [fst_allSymbolOptions] at h
  obtain ⟨i, -, hkey⟩ := List.mem_flatMap.1 h
  obtain ⟨name, -, rfl⟩ := List.mem_map.1 hkey
  exact ⟨i, name, rfl⟩

theorem allSymbolOptions_nodup (symbols : List Symbol) :
    ((symbols.zipIdx.flatMap fun e => symbolOptions e.1 e.2).map Prod.fst).Nodup := by
  rw [fst_allSymbolOptions, List.nodup_flatMap]
  refine ⟨fun i _ => ?_, ?_⟩
  · exact (by decide : ["symbol", "primary", "timespan", "timespan_unit"].Nodup).map fun _ _ h => (symbolKey_inj h).2
  · refine List.nodup_range.imp fun hne => ?_
    intro key hi hj
    obtain ⟨name, -, rfl⟩ := List.mem_map.1 hi
    obtain ⟨name', -, h⟩ := List.mem_map.1 hj
    exact hne (symbolKey_inj h).1.symm

/-- No two options have the same key. -/
theorem options_nodup (text : Json → List Char) (m : PluginManifest) : ((options text m).map Prod.fst).Nodup := by
  rw [options, List.map_append, List.map_append, List.nodup_append, List.nodup_append]
  refine ⟨⟨(fixedKeys_nodup.sublist (fst_hostOptions _)), allSymbolOptions_nodup _, ?_⟩, by simp, ?_⟩
  · rintro key hkey _ hsymbol rfl
    obtain ⟨i, name, rfl⟩ := mem_allSymbolOptions hsymbol
    exact notMem_fixedKeys (Or.inl (take_symbolKey i name)) ((fst_hostOptions _).subset hkey)
  · rintro key hkey _ hlast rfl
    have hcases : key = "symbol_count".toList ∨ key = "strategy_params".toList := by simpa using hlast
    rcases List.mem_append.1 hkey with hkey | hkey
    · refine notMem_fixedKeys ?_ ((fst_hostOptions _).subset hkey)
      rcases hcases with rfl | rfl
      · exact Or.inl (by decide)
      · exact Or.inr rfl
    · obtain ⟨i, name, rfl⟩ := mem_allSymbolOptions hkey
      rcases hcases with h | h
      · exact symbolKey_ne_count i name h
      · exact absurd ((take_symbolKey i name).symm.trans (congrArg (List.take 7) h)) (by decide)

/-! ### The pointers -/

/-- `get_options`: the keys and values are stored in `cached_option_strings_`, and pointers to them returned. -/
def getOptions (A : Allocator (List Char)) :
    GrowingVector (List Char) → List (List Char × List Char) →
      List (Pointer × Pointer) × GrowingVector (List Char)
  | v, [] => ([], v)
  | v, (key, value) :: rest =>
    let k := v.store A key
    let w := k.2.store A value
    (((k.1, w.1) :: (getOptions A w.2 rest).1), (getOptions A w.2 rest).2)

variable (A : Allocator (List Char))

/-- `cached_option_strings_` after `n` calls of `get_options`. -/
def afterGetOptions (items : List (List Char × List Char)) : ℕ → GrowingVector (List Char)
  | 0 => .empty
  | n + 1 => (getOptions A (afterGetOptions items n).clear items).2

/-- What a plugin reads of the options when `get_options` has been called `n` times before. -/
def optionsSeen (items : List (List Char × List Char)) (n : ℕ) : List (Option (List Char) × Option (List Char)) :=
  let r := getOptions A (afterGetOptions A items n).clear items
  r.1.map (Prod.map (fun p => (r.2.read A p).map cStr) fun p => (r.2.read A p).map cStr)

/-- The keys and values one after the other. -/
def optionStrings {X : Type} (items : List (X × X)) : List X := items.flatMap fun e => [e.1, e.2]

theorem getOptions_storeAll (v : GrowingVector (List Char)) (items : List (List Char × List Char)) :
    optionStrings (getOptions A v items).1 = (v.storeAll A (optionStrings items)).1 ∧
      (getOptions A v items).2 = (v.storeAll A (optionStrings items)).2 := by
  induction items generalizing v with
  | nil => exact ⟨rfl, rfl⟩
  | cons e items ih =>
    obtain ⟨hpointers, hv⟩ := ih ((v.store A e.1).2.store A e.2).2
    simp only [getOptions, optionStrings, List.flatMap_cons, List.cons_append, List.nil_append,
      GrowingVector.storeAll] at hpointers hv ⊢
    exact ⟨by rw [hpointers], hv⟩

theorem optionStrings_inj {X : Type} {items items' : List (X × X)} :
    optionStrings items = optionStrings items' ↔ items = items' := by
  refine ⟨fun h => ?_, fun h => h ▸ rfl⟩
  induction items generalizing items' with
  | nil =>
    rcases items' with _ | ⟨e', items'⟩
    · rfl
    · cases h
  | cons e items ih =>
    rcases items' with _ | ⟨e', items'⟩
    · cases h
    · simp only [optionStrings, List.flatMap_cons, List.cons_append, List.nil_append, List.cons.injEq] at h
      rw [ih h.2.2, Prod.ext h.1 h.2.1]

theorem optionStrings_map {X Y : Type} (f : X → Y) (items : List (X × X)) :
    optionStrings (items.map (Prod.map f f)) = (optionStrings items).map f := by
  simp [optionStrings, List.flatMap_map, List.map_flatMap, Prod.map]

theorem optionsSeen_iff_readable (items : List (List Char × List Char)) (n : ℕ) :
    optionsSeen A items n = items.map (Prod.map (fun s => some (cStr s)) fun s => some (cStr s)) ↔
      GrowingVector.Readable A (afterGetOptions A items n).capacity (optionStrings items) := by
  obtain ⟨hpointers, hv⟩ := getOptions_storeAll A (afterGetOptions A items n).clear items
  rw [optionsSeen, ← optionStrings_inj, optionStrings_map, optionStrings_map, hpointers, hv]
  exact GrowingVector.map_read_storeAll cStr rfl _

theorem capacity_afterGetOptions (items : List (List Char × List Char)) (n : ℕ) :
    (optionStrings items).length ≤ (afterGetOptions A items (n + 1)).capacity := by
  rw [afterGetOptions, (getOptions_storeAll A _ items).2, GrowingVector.capacity_storeAll rfl]
  exact GrowingVector.le_room A _ _

/-- From the second call of `get_options` on the vector has room, and the options are read as they are. -/
theorem optionsSeen_succ (items : List (List Char × List Char)) (n : ℕ) :
    optionsSeen A items (n + 1) = items.map (Prod.map (fun s => some (cStr s)) fun s => some (cStr s)) := by
  rw [optionsSeen_iff_readable]
  exact fun i x _ _ => (capacity_afterGetOptions A items n).trans (GrowingVector.le_room_self A _ _)

/-! ### A parsed manifest -/

theorem parseHostParams_eq_ok {params : Option Json} {symbols : List Symbol} {hp : HostParams}
    (h : parseHostParams params symbols = .ok hp) : hp.symbols = symbols ∧ ∃ b, hp.marketHoursOnly = some b := by
  unfold parseHostParams at h
  obtain ⟨b, -, h⟩ := bind_eq_ok.1 h
  iterate 25 obtain ⟨_, -, h⟩ := bind_eq_ok.1 h
  obtain rfl := Except.ok.inj h
  exact ⟨rfl, b, rfl⟩

theorem parseJson_eq_ok {doc : Json} {m : PluginManifest} (h : parseJson doc = .ok m) :
    parseSymbols (doc.field "host_params") = .ok m.hostParams.symbols ∧
    ∃ b, m.hostParams.marketHoursOnly = some b := by
  unfold parseJson at h
  iterate 7 obtain ⟨_, -, h⟩ := bind_eq_ok.1 h
  obtain ⟨symbols, hsymbols, h⟩ := bind_eq_ok.1 h
  obtain ⟨hp, hhost, h⟩ := bind_eq_ok.1 h
  split at h
  · cases h
  · obtain rfl := Except.ok.inj h
    obtain ⟨hsame, hflag⟩ := parseHostParams_eq_ok hhost
    exact ⟨hsame ▸ hsymbols, hflag⟩

theorem toInt_bounds (n : ℤ) : Strings.int64Min ≤ toInt n ∧ toInt n ≤ Strings.int64Max := by
  have hlower := Int.le_bmod (x := n) (m := 2 ^ 32) (by decide)
  have hupper := Int.bmod_lt (x := n) (m := 2 ^ 32) (by decide)
  unfold toInt Strings.int64Min Strings.int64Max
  omega

theorem exists_of_mapM_eq_ok {E X Y : Type} {f : X → Except E Y} {l : List X} {ys : List Y} (h : l.mapM f = .ok ys)
    {y : Y} (hy : y ∈ ys) : ∃ x, f x = .ok y := by
  induction l generalizing ys with
  | nil =>
    obtain rfl := Except.ok.inj h
    exact absurd hy List.not_mem_nil
  | cons x l ih =>
    rw [List.mapM_cons] at h
    obtain ⟨y', hx, h⟩ := bind_eq_ok.1 h
    obtain ⟨ys', hl, h⟩ := bind_eq_ok.1 h
    obtain rfl := Except.ok.inj h
    rcases List.mem_cons.1 hy with rfl | hy
    · exact ⟨x, hx⟩
    · exact ih hl hy

/-- The timespans of a parsed manifest are values of `int`. -/
theorem timespan_of_parseJson {doc : Json} {m : PluginManifest} (h : parseJson doc = .ok m) {sym : Symbol}
    (hsym : sym ∈ m.hostParams.symbols) : Strings.int64Min ≤ sym.timespan ∧ sym.timespan ≤ Strings.int64Max := by
  have hsymbols := (parseJson_eq_ok h).1
  unfold parseSymbols at hsymbols
  split at hsymbols
  · cases hsymbols
  · obtain ⟨raw, hraw⟩ := exists_of_mapM_eq_ok hsymbols hsym
    unfold parseSymbol at hraw
    dsimp only at hraw
    split at hraw
    · iterate 2 obtain ⟨_, -, hraw⟩ := bind_eq_ok.1 hraw
      obtain ⟨timespan, -, hraw⟩ := bind_eq_ok.1 hraw
      iterate 2 obtain ⟨_, -, hraw⟩ := bind_eq_ok.1 hraw
      obtain rfl := Except.ok.inj hraw
      exact toInt_bounds timespan
    · cases hraw

/-- The first option of a parsed manifest is a flag. -/
theorem options_eq_cons (text : Json → List Char) {doc : Json} {m : PluginManifest} (h : parseJson doc = .ok m) :
    ∃ b rest, options text m = ("market_hours_only".toList, printBool b) :: rest ∧ rest ≠ [] := by
  obtain ⟨-, b, hb⟩ := parseJson_eq_ok h
  have hcons : hostOptions m.hostParams =
      ("market_hours_only".toList, printBool b) :: (hostOptions m.hostParams).tail := by
    rw [hostOptions, hostTable, hb]
    rfl
  rw [options, hcons, List.cons_append, List.cons_append]
  exact ⟨b, _, rfl, List.append_ne_nil_of_right_ne_nil _ (List.cons_ne_nil _ _)⟩

/-- With the GNU library a plugin reads the options of its manifest as they are from the second call of `get_options`
on, and never in the first. -/
theorem optionsSeen_eq_iff (text : Json → List Char) {doc : Json} {m : PluginManifest} (h : parseJson doc = .ok m)
    (n : ℕ) :
    optionsSeen (gnuAllocator Strings.byteLength) (options text m) n =
      (options text m).map (Prod.map (fun s => some (cStr s)) fun s => some (cStr s)) ↔ 0 < n := by
  rcases n with _ | n
  · obtain ⟨b, rest, heq, hne⟩ := options_eq_cons text h
    rw [optionsSeen_iff_readable]
    refine iff_of_false (fun hread => ?_) (by decide)
    have hlen := hread 1 (printBool b) (by rw [heq]; rfl) (by rcases b with _ | _ <;> decide)
    obtain ⟨e, rest, rfl⟩ := List.exists_cons_of_ne_nil hne
    rw [heq] at hlen
    simp only [optionStrings, List.flatMap_cons, List.cons_append, List.nil_append, List.length_cons] at hlen
    exact absurd hlen (by
      show ¬ _ ≤ 2
      omega)
  · exact iff_of_true (optionsSeen_succ _ _ n) (Nat.succ_pos n)

/-- The first value of monthly bars' manifest, unreadable at first. -/
theorem optionsSeen_eq_iff_monthly :
    ∃ m, parseJson monthlyManifest = .ok m ∧ ∀ n,
      (optionsSeen (gnuAllocator Strings.byteLength) (options (fun _ => []) m) n =
        (options (fun _ => []) m).map (Prod.map (fun s => some (cStr s)) fun s => some (cStr s)) ↔ 0 < n) := by
  obtain ⟨m, hm⟩ := (parseJson_ok_iff monthlyManifest).2 (by decide +kernel)
  exact ⟨m, hm, optionsSeen_eq_iff _ hm⟩

/-! ### The dictionary of `on_init` -/

/-- `plugin_options_dict[key_] = value_` for every option, of which all can be read. -/
def optionsDict (seen : List (Option (List Char) × Option (List Char))) : Option (Map (List Char) (List Char)) :=
  seen.foldlM (fun d e => do return d.insert (← e.1) (← e.2)) ∅

theorem lookup_optionsDict {items : List (List Char × List Char)} (hnd : (items.map fun e => cStr e.1).Nodup) :
    ∃ d, optionsDict (items.map (Prod.map (fun s => some (cStr s)) fun s => some (cStr s))) = some d ∧
      ∀ e ∈ items, d.lookup (cStr e.1) = some (cStr e.2) := by
  induction items using List.reverseRecOn with
  | nil => exact ⟨∅, rfl, fun _ he => absurd he List.not_mem_nil⟩
  | append_singleton items last ih =>
    rw [List.map_append, List.nodup_append] at hnd
    obtain ⟨hnd, -, hdisjoint⟩ := hnd
    obtain ⟨d, hd, hlookup⟩ := ih hnd
    refine ⟨d.insert (cStr last.1) (cStr last.2), ?_, fun e he => ?_⟩
    · unfold optionsDict at hd ⊢
      rw [List.map_append, List.foldlM_append, hd]
      rfl
    · rw [Map.lookup_insert_eq]
      rcases List.mem_append.1 he with he | he
      · rw [if_neg (hdisjoint _ (List.mem_map_of_mem he) _ (by simp))]
        exact hlookup e he
      · rw [List.mem_singleton.1 he, if_pos rfl]

theorem cStr_eq_self {s : List Char} (h : '\x00' ∉ s) : cStr s = s :=
  List.takeWhile_eq_self_iff.2 fun c hc => by
    simp only [ne_eq, decide_eq_true_eq]
    rintro rfl
    exact h hc

theorem cStr_symbolKey {i : ℕ} {name : String} (h : '\x00' ∉ name.toList) :
    cStr (symbolKey i name) = symbolKey i name := by
  refine cStr_eq_self fun hmem => ?_
  rcases List.mem_append.1 hmem with hmem | hmem
  · exact absurd hmem (by decide)
  · rcases List.mem_append.1 hmem with hmem | hmem
    · rcases Strings.mem_printLong hmem with hc | hc <;> exact absurd hc (by decide)
    · exact h ((List.mem_cons.1 hmem).resolve_left (by decide))

/-- No key has a NUL in it. -/
theorem cStr_key {text : Json → List Char} {m : PluginManifest} {key : List Char}
    (h : key ∈ (options text m).map Prod.fst) : cStr key = key := by
  rw [options, List.map_append, List.map_append] at h
  rcases List.mem_append.1 h with h | h
  · rcases List.mem_append.1 h with h | h
    · have hall : ∀ k ∈ fixedKeys.map String.toList, cStr k = k := by decide +kernel
      exact hall key ((fst_hostOptions _).subset h)
    · rw [fst_allSymbolOptions] at h
      obtain ⟨i, -, hkey⟩ := List.mem_flatMap.1 h
      obtain ⟨name, hname, rfl⟩ := List.mem_map.1 hkey
      have hall : ∀ name ∈ ["symbol", "primary", "timespan", "timespan_unit"], '\x00' ∉ name.toList := by decide
      exact cStr_symbolKey (hall name hname)
  · have hcases : key = "symbol_count".toList ∨ key = "strategy_params".toList := by simpa using h
    rcases hcases with rfl | rfl <;> decide

theorem lookup_options (text : Json → List Char) (m : PluginManifest) :
    ∃ d, optionsDict ((options text m).map (Prod.map (fun s => some (cStr s)) fun s => some (cStr s))) = some d ∧
      ∀ e ∈ options text m, d.lookup e.1 = some (cStr e.2) := by
  have hkeys : (options text m).map (fun e => cStr e.1) = (options text m).map Prod.fst :=
    List.map_congr_left fun e he => cStr_key (List.mem_map_of_mem he)
  obtain ⟨d, hd, hlookup⟩ := lookup_optionsDict (hkeys ▸ options_nodup text m)
  refine ⟨d, hd, fun e he => ?_⟩
  rw [← hlookup e he, cStr_key (List.mem_map_of_mem he)]

/-- The symbols as a plugin finds them in its options. -/
def readSymbols (d : Map (List Char) (List Char)) : Option (List Symbol) := do
  let count ← d.lookup "symbol_count".toList
  (List.range (Strings.strtol count).1.toNat).mapM fun i => do
    let symbol ← d.lookup (symbolKey i "symbol")
    let primary ← d.lookup (symbolKey i "primary")
    let timespan ← d.lookup (symbolKey i "timespan")
    let timespanUnit ← d.lookup (symbolKey i "timespan_unit")
    return { primary := primary = "true".toList, timespan := (Strings.strtol timespan).1,
             symbol := String.ofList symbol, timespanUnit := String.ofList timespanUnit }

/-- A symbol whose strings end at their first NUL. -/
def Symbol.cStrings (sym : Symbol) : Symbol :=
  { sym with symbol := String.ofList (cStr sym.symbol.toList),
             timespanUnit := String.ofList (cStr sym.timespanUnit.toList) }

theorem mapM_eq_some_map {X Y : Type} {f : X → Option Y} {g : X → Y} {l : List X} (h : ∀ x ∈ l, f x = some (g x)) :
    l.mapM f = some (l.map g) := by
  induction l with
  | nil => rfl
  | cons x l ih =>
    rw [List.mapM_cons, h x (List.mem_cons_self ..), ih fun y hy => h y (List.mem_cons_of_mem _ hy)]
    rfl

/-- The symbols are in the dictionary of the options, each with its four fields, in their order. -/
theorem readSymbols_of_lookup {text : Json → List Char} {m : PluginManifest} {d : Map (List Char) (List Char)}
    (hd : ∀ e ∈ options text m, d.lookup e.1 = some (cStr e.2))
    (hspan : ∀ sym ∈ m.hostParams.symbols, Strings.int64Min ≤ sym.timespan ∧ sym.timespan ≤ Strings.int64Max)
    (hcount : (m.hostParams.symbols.length : ℤ) ≤ Strings.int64Max) :
    readSymbols d = some (m.hostParams.symbols.map Symbol.cStrings) := by
  have hcountRead : d.lookup "symbol_count".toList = some (printLong m.hostParams.symbols.length) := by
    rw [← Strings.cStr_printLong]
    exact hd ("symbol_count".toList, printLong m.hostParams.symbols.length)
      (List.mem_append_right _ (List.mem_cons_self ..))
  have hrange : List.range m.hostParams.symbols.length = m.hostParams.symbols.zipIdx.map Prod.snd := by
    rw [List.zipIdx_map_snd, List.range_eq_range']
  have hsymbols : m.hostParams.symbols.map Symbol.cStrings =
      m.hostParams.symbols.zipIdx.map fun e => e.1.cStrings := by
    conv_lhs => rw [← List.zipIdx_map_fst 0 m.hostParams.symbols, List.map_map]
    rfl
  rw [readSymbols, hcountRead, Option.bind_eq_bind, Option.bind_some, Strings.strtol_printLong (by
    exact le_trans (by decide) (Int.natCast_nonneg _)) hcount, Int.toNat_natCast, hrange, List.mapM_map, hsymbols]
  refine mapM_eq_some_map fun e he => ?_
  -- the four options of the symbol
  have hmem : ∀ o ∈ symbolOptions e.1 e.2, o ∈ options text m := fun o ho =>
    List.mem_append_left _ (List.mem_append_right _ (List.mem_flatMap.2 ⟨e, he, ho⟩))
  have hsymbol := hd _ (hmem (symbolKey e.2 "symbol", e.1.symbol.toList) (by simp [symbolOptions]))
  have hprimary := hd _ (hmem (symbolKey e.2 "primary", printBool e.1.primary) (by simp [symbolOptions]))
  have htimespan := hd _ (hmem (symbolKey e.2 "timespan", printLong e.1.timespan) (by simp [symbolOptions]))
  have hunit := hd _ (hmem (symbolKey e.2 "timespan_unit", e.1.timespanUnit.toList) (by simp [symbolOptions]))
  obtain ⟨hmin, hmax⟩ := hspan e.1 (by
    rw [← List.zipIdx_map_fst 0 m.hostParams.symbols]
    exact List.mem_map_of_mem he)
  have hbool : decide (cStr (printBool e.1.primary) = "true".toList) = e.1.primary := by
    rcases e.1.primary with _ | _ <;> decide
  simp only [Function.comp_apply, hsymbol, hprimary, htimespan, hunit, Option.bind_eq_bind, Option.bind_some,
    Strings.cStr_printLong, Strings.strtol_printLong hmin hmax]
  rw [hbool]
  rfl

/-- No two options of a manifest have the same key.  In any call of `get_options` after the first all of them are in
the dictionary, and a plugin finds the symbols of the manifest there. -/
theorem readSymbols_options (text : Json → List Char) {doc : Json} {m : PluginManifest} (h : parseJson doc = .ok m)
    (hcount : (m.hostParams.symbols.length : ℤ) ≤ Strings.int64Max) {n : ℕ} (hn : 0 < n) :
    ((options text m).map Prod.fst).Nodup ∧ ∃ d, optionsDict (optionsSeen A (options text m) n) = some d ∧
      (∀ e ∈ options text m, d.lookup e.1 = some (cStr e.2)) ∧
      readSymbols d = some (m.hostParams.symbols.map Symbol.cStrings) := by
  obtain ⟨d, hd, hlookup⟩ := lookup_options text m
  obtain ⟨n, rfl⟩ := Nat.exists_eq_add_of_lt hn
  rw [Nat.zero_add, optionsSeen_succ]
  exact ⟨options_nodup text m, d, hd, hlookup,
    readSymbols_of_lookup hlookup (fun _ hsym => timespan_of_parseJson h hsym) hcount⟩

/-- Two symbols, and a plugin that finds both in the options of the second call. -/
theorem readSymbols_options_two :
    ∃ m d, parseJson (numericManifest [rawSymbol "AAPL" "minute", rawSymbol "GOOG" "day"]) = .ok m ∧
      optionsDict (optionsSeen (gnuAllocator Strings.byteLength) (options (fun _ => []) m) 1) = some d ∧
      readSymbols d = some [⟨true, 1, "AAPL", "minute"⟩, ⟨true, 1, "GOOG", "day"⟩] := by
  obtain ⟨m, hm⟩ := (parseJson_ok_iff (numericManifest [rawSymbol "AAPL" "minute", rawSymbol "GOOG" "day"])).2
    (by decide +kernel)
  have hsymbols : m.hostParams.symbols = [⟨true, 1, "AAPL", "minute"⟩, ⟨true, 1, "GOOG", "day"⟩] := by
    have : (parseJson (numericManifest [rawSymbol "AAPL" "minute", rawSymbol "GOOG" "day"])).toOption.map
      (·.hostParams.symbols) = some [⟨true, 1, "AAPL", "minute"⟩, ⟨true, 1, "GOOG", "day"⟩] := by rfl
    simpa [hm, Except.toOption] using this
  obtain ⟨-, d, hd, -, hread⟩ := readSymbols_options (gnuAllocator Strings.byteLength) (fun _ => []) hm
    (by rw [hsymbols]; decide) Nat.one_pos
  refine ⟨m, d, hm, hd, hread.trans ?_⟩
  rw [hsymbols]
  decide

end Manifest

end QuantForge
