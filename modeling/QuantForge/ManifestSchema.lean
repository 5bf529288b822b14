import QuantForge.Manifest

/-!
# The manifest parser and its schema

`manifest.schema.json` as a schema, and the documents `parse_json` accepts as another one: every field has to be
there, with the type its getter reads and one of the values its options allow (`parseJson_ok_iff`).  The two schemas
disagree on every document: where the first asks for a string in `commission` and `slippage`, or allows them to be
left out, the parser reads a number.
-/

namespace QuantForge

namespace Manifest

open Schema
open Json (getBool getInt64 getDouble getString)

/-! ### `manifest.schema.json` -/

/-- `^\d+$`. -/
def isDigits (s : List Char) : Bool := s ≠ [] && s.all Char.isDigit

/-- `^\d+\.\d+\.\d+$`. -/
def versionPattern (s : List Char) : Bool := (s.splitOn '.').length = 3 && (s.splitOn '.').all isDigits

/-- `^\d+(\.\d+)?$`. -/
def decimalPattern (s : List Char) : Bool := (s.splitOn '.').length ≤ 2 && (s.splitOn '.').all isDigits

/-- `^[A-Z]{3}$`. -/
def currencyPattern (s : List Char) : Bool := s.length = 3 && s.all Char.isUpper

def symbolSchema : Schema :=
  .object
    [("symbol", .string), ("timespan_unit", .enum ["second", "minute", "hour", "day", "week"]),
      ("timespan", .integer (some 1)), ("primary", .boolean)]
    ["symbol", "timespan_unit", "timespan"] true

def hostParamsSchema : Schema :=
  .object
    [("backtest_start_datetime", .string), ("backtest_end_datetime", .string),
      ("monte_carlo_runs", .integer (some 1)), ("monte_carlo_seed", .integerOrNull),
      ("optimization_mode", .enum ["none", "grid_search", "bayesian", "genetic"]),
      ("symbols", .array 1 symbolSchema), ("initial_capital", .pattern decimalPattern),
      ("commission", .pattern decimalPattern), ("commission_type", .enum ["per_share", "percentage", "flat"]),
      ("slippage_model", .enum ["none", "time_based", "time_volume_based"]), ("slippage", .pattern decimalPattern),
      ("default_currency", .pattern currencyPattern), ("timezone", .string), ("market_hours_only", .boolean),
      ("allow_fractional_shares", .boolean),
      ("position_sizing_method", .enum ["fixed_percentage", "fixed_dollar", "equal_weight"]),
      ("position_size_value", .number 0 1), ("max_position_size", .number 0 1), ("use_stop_loss", .boolean),
      ("stop_loss_pct", .number 0 1), ("use_take_profit", .boolean), ("take_profit_pct", .number 0 1),
      ("fill_max_pct_of_volume", .number 0 1), ("risk_free_rate", .number 0 1), ("allow_short_selling", .boolean),
      ("initial_margin_pct", .number 0 1), ("max_leverage", .number 1 20)]
    ["backtest_start_datetime", "backtest_end_datetime", "initial_capital", "symbols", "monte_carlo_runs",
      "monte_carlo_seed"]
    false

def manifestSchema : Schema :=
  .object
    [("name", .string), ("version", .pattern versionPattern), ("api_version", .const 1),
      ("kind", .enum ["python", "native"]), ("entry", .string), ("author", .string), ("description", .string),
      ("host_params", hostParamsSchema), ("strategy_params", .object [] [] true)]
    ["name", "version", "api_version", "kind", "entry", "host_params", "strategy_params"] true

/-! ### The documents the parser accepts -/

/-- A value the getter reads and the options allow. -/
def fieldShape {T : Type} [DecidableEq T] (get : Json → Option T) (options : ParserOptions T) : Schema :=
  .value fun j => (get j).any fun v => options.allowedValues = [] || v ∈ options.allowedValues

/-- A string `parse_microdollars` reads. -/
def microdollarsShape : Schema :=
  .value fun j => (getString j).any fun s => (Money.parseMicrodollars s.toList).isOk

def symbolShape : Schema :=
  .record
    [("primary", fieldShape getBool primaryParserOptions),
      ("timespan", fieldShape getInt64 timespanParserOptions),
      ("symbol", fieldShape getString symbolParserOptions),
      ("timespan_unit", fieldShape getString timespanUnitParserOptions)]

def hostParamsShape : Schema :=
  .record
    [("symbols", .array 0 symbolShape),
      ("market_hours_only", fieldShape getBool marketHoursOnlyParserOptions),
      ("allow_fractional_shares", fieldShape getBool allowFractionalSharesParserOptions),
      ("monte_carlo_runs", fieldShape getInt64 monteCarloRunsParserOptions),
      ("monte_carlo_seed", fieldShape getInt64 monteCarloSeedParserOptions),
      ("initial_capital", microdollarsShape),
      ("backtest_start_datetime", fieldShape getString backtestStartDatetimeParserOptions),
      ("backtest_end_datetime", fieldShape getString backtestEndDatetimeParserOptions),
      ("commission", fieldShape getDouble commissionParserOptions),
      ("commission_type", fieldShape getString commissionTypeParserOptions),
      ("slippage", fieldShape getDouble slippageParserOptions),
      ("slippage_model", fieldShape getString slippageModelParserOptions),
      ("default_currency", fieldShape getString defaultCurrencyParserOptions),
      ("timezone", fieldShape getString timezoneParserOptions),
      ("optimization_mode", fieldShape getString optimizationModeParserOptions),
      ("position_sizing_method", fieldShape getString positionSizingMethodParserOptions),
      ("position_size_value", fieldShape getDouble positionSizeValueParserOptions),
      ("max_position_size", fieldShape getDouble maxPositionSizeParserOptions),
      ("use_stop_loss", fieldShape getBool useStopLossParserOptions),
      ("stop_loss_pct", fieldShape getDouble stopLossPctParserOptions),
      ("use_take_profit", fieldShape getBool useTakeProfitParserOptions),
      ("take_profit_pct", fieldShape getDouble takeProfitPctParserOptions),
      ("fill_max_pct_of_volume", fieldShape getDouble fillMaxPctOfVolumeParserOptions),
      ("risk_free_rate", fieldShape getDouble riskFreeRateParserOptions),
      ("allow_short_selling", fieldShape getBool allowShortSellingParserOptions),
      ("initial_margin_pct", fieldShape getDouble initialMarginPctParserOptions),
      ("max_leverage", fieldShape getDouble maxLeverageParserOptions)]

def manifestShape : Schema :=
  .record
    [("name", fieldShape getString nameParserOptions),
      ("kind", fieldShape getString kindParserOptions),
      ("entry", fieldShape getString entryParserOptions),
      ("description", fieldShape getString descriptionParserOptions),
      ("author", fieldShape getString authorParserOptions),
      ("version", fieldShape getString versionParserOptions),
      ("api_version", fieldShape getInt64 apiVersionParserOptions),
      ("host_params", hostParamsShape),
      ("strategy_params", .value fun _ => true)]

/-! ### One field -/

theorem exists_ok_bind {E A B : Type} (x : Except E A) (f : A → Except E B) :
    (∃ b, (x >>= f) = .ok b) ↔ ∃ a, x = .ok a ∧ ∃ b, f a = .ok b := by
  simp only [bind_eq_ok]
  constructor
  · rintro ⟨b, a, ha, hb⟩
    exact ⟨a, ha, b, hb⟩
  · rintro ⟨a, ha, b, hb⟩
    exact ⟨b, a, ha, hb⟩

theorem exists_ok_pure {E A : Type} (a : A) : ∃ b, (pure a : Except E A) = .ok b := ⟨a, rfl⟩

section Fields

variable {T : Type} [DecidableEq T] {get : Json → Option T} {options : ParserOptions T}

theorem satisfies_fieldShape (j : Json) :
    (fieldShape get options).Satisfies j ↔
      ∃ v, get j = some v ∧ (options.allowedValues = [] ∨ v ∈ options.allowedValues) := by
  unfold fieldShape Satisfies
  simp [everywhere, admits, Option.any_eq_true]

theorem parseField_ok_iff (obj : Option Json) (key : String) :
    (∃ v, parseField obj key get options = .ok v) ↔ HasField obj key (fieldShape get options) := by
  unfold parseField HasField
  simp only [parseValue_ok_iff, satisfies_fieldShape]
  rcases obj.bind (Json.field key) with _ | j
  · simp
  · simp

end Fields

/-! ### The whole document -/

theorem mapM_ok_iff {E A B : Type} {f : A → Except E B} {l : List A} :
    (∃ bs, l.mapM f = .ok bs) ↔ ∀ a ∈ l, ∃ b, f a = .ok b := by
  induction l with
  | nil => simp [pure, Except.pure]
  | cons a l ih =>
    rw [List.mapM_cons, List.forall_mem_cons]
    simp only [exists_ok_bind, exists_ok_pure, and_true, exists_and_right, ih]

theorem parseSymbol_ok_iff (raw : Json) : (∃ sym, parseSymbol raw = .ok sym) ↔ symbolShape.Satisfies raw := by
  rw [symbolShape, satisfies_record (by simp)]
  simp only [List.forall_mem_cons, List.not_mem_nil, false_imp_iff, implies_true, and_true, ← parseField_ok_iff]
  rcases raw with _ | _ | _ | _ | _ | _ | fields
  case obj =>
    simp only [parseSymbol, Json.getObject, exists_ok_bind, exists_ok_pure, and_true, exists_and_right]
    simp
  -- a value that is no object has no field
  all_goals
    simp only [parseSymbol, Json.getObject, exists_ok_bind, reduceCtorEq, false_and, exists_false, false_iff]
    rintro ⟨⟨v, hv⟩, -⟩
    simp [parseField, parseValue, Json.field] at hv

theorem parseSymbols_ok_iff (params : Option Json) :
    (∃ symbols, parseSymbols params = .ok symbols) ↔ HasField params "symbols" (.array 0 symbolShape) := by
  unfold parseSymbols HasField
  rcases params.bind (Json.field "symbols") with _ | j
  · simp
  · rcases j with _ | _ | _ | _ | _ | raws | _
    case arr =>
      simp only [Option.bind_some, Json.getArray, mapM_ok_iff, parseSymbol_ok_iff]
      simp [Satisfies, everywhere_array, admits, Json.getArray]
    all_goals simp [Json.getArray, Satisfies, everywhere, admits]

theorem parseInitialCapital_ok_iff (params : Option Json) :
    (∃ m, parseInitialCapital params = .ok m) ↔ HasField params "initial_capital" microdollarsShape := by
  have hok : ∀ x : Except Exception Money, (∃ m, x = .ok m) ↔ x.isOk = true := by
    rintro (e | m) <;> simp [Except.isOk, Except.toBool]
  unfold parseInitialCapital HasField parseField
  simp only [exists_ok_bind, parseValue_ok_iff]
  simp only [hok, microdollarsShape]
  rcases params.bind (Json.field "initial_capital") with _ | j
  · simp
  · simp [Satisfies, everywhere, admits, initialCapitalParserOptions, Option.any_eq_true]

/-- Whether the host parameters can be read does not depend on the symbols read before. -/
theorem parseHostParams_ok_iff (j : Json) :
    (∃ symbols, parseSymbols (some j) = .ok symbols ∧ ∃ hp, parseHostParams (some j) symbols = .ok hp) ↔
      hostParamsShape.Satisfies j := by
  rw [hostParamsShape, satisfies_record (by simp)]
  simp only [List.forall_mem_cons, List.not_mem_nil, false_imp_iff, implies_true, and_true, ← parseField_ok_iff,
    ← parseInitialCapital_ok_iff, ← parseSymbols_ok_iff]
  simp only [parseHostParams, exists_ok_bind, exists_ok_pure, and_true, exists_and_right]

theorem parseJson_ok_iff (doc : Json) : (∃ m, parseJson doc = .ok m) ↔ manifestShape.Satisfies doc := by
  rw [manifestShape, satisfies_record (by simp)]
  simp only [List.forall_mem_cons, List.not_mem_nil, false_imp_iff, implies_true, and_true, ← parseField_ok_iff]
  simp only [parseJson, exists_ok_bind]
  rcases hp : doc.field "host_params" with _ | params
  · simp [parseSymbols, HasField, hp]
  rcases hs : doc.field "strategy_params" with _ | strategyParams
  · simp [HasField, hs]
  have hparams : HasField (some doc) "host_params" hostParamsShape ↔ hostParamsShape.Satisfies params := by
    simp [HasField, hp]
  have hstrategy : HasField (some doc) "strategy_params" (.value fun _ => true) :=
    ⟨strategyParams, hs, by simp [Satisfies, everywhere, admits]⟩
  rw [hparams, ← parseHostParams_ok_iff]
  simp only [exists_ok_pure, and_true, exists_and_right, hstrategy]

/-! ### What a manifest has to carry -/

/-- The number a decimal string stands for. -/
def decimalValue (s : List Char) : ℚ :=
  Strings.digitsValue (s.takeWhile (· ≠ '.')) +
    Strings.digitsValue ((s.dropWhile (· ≠ '.')).drop 1) / 10 ^ ((s.dropWhile (· ≠ '.')).drop 1).length

def readDecimal (j : Json) : Option ℚ := j.getString.map fun s => decimalValue s.toList

/-- A supplied value is the value of the field; the field of an omitted one has its fallback or is unset. -/
def Carries {T : Type} (read : Json → Option T) (options : ParserOptions T) (supplied : Option Json)
    (value : Option T) : Prop :=
  match supplied with
  | some j => ∃ v, read j = some v ∧ value = some v
  | none => value = some options.fallbackValue ∨ value = none

structure CarriesSymbol (raw : Json) (sym : Symbol) : Prop where
  primary : Carries getBool primaryParserOptions (raw.field "primary") (some sym.primary)
  timespan : Carries Json.integer? timespanParserOptions (raw.field "timespan") (some sym.timespan)
  symbol : Carries getString symbolParserOptions (raw.field "symbol") (some sym.symbol)
  timespanUnit : Carries getString timespanUnitParserOptions (raw.field "timespan_unit") (some sym.timespanUnit)

structure CarriesHostParams (params : Json) (hp : HostParams) : Prop where
  marketHoursOnly : Carries getBool marketHoursOnlyParserOptions (params.field "market_hours_only") hp.marketHoursOnly
  allowFractionalShares : Carries getBool allowFractionalSharesParserOptions (params.field "allow_fractional_shares")
    hp.allowFractionalShares
  commission : Carries readDecimal commissionParserOptions (params.field "commission") hp.commission
  slippage : Carries readDecimal slippageParserOptions (params.field "slippage") hp.slippage
  commissionType : Carries getString commissionTypeParserOptions (params.field "commission_type") hp.commissionType
  slippageModel : Carries getString slippageModelParserOptions (params.field "slippage_model") hp.slippageModel
  defaultCurrency : Carries getString defaultCurrencyParserOptions
    (params.field "default_currency") hp.defaultCurrency
  timezone : Carries getString timezoneParserOptions (params.field "timezone") hp.timezone
  optimizationMode : Carries getString optimizationModeParserOptions (params.field "optimization_mode")
    hp.optimizationMode
  positionSizingMethod : Carries getString positionSizingMethodParserOptions (params.field "position_sizing_method")
    hp.positionSizingMethod
  positionSizeValue : Carries getDouble positionSizeValueParserOptions (params.field "position_size_value")
    hp.positionSizeValue
  maxPositionSize : Carries getDouble maxPositionSizeParserOptions (params.field "max_position_size")
    hp.maxPositionSize
  useStopLoss : Carries getBool useStopLossParserOptions (params.field "use_stop_loss") hp.useStopLoss
  stopLossPct : Carries getDouble stopLossPctParserOptions (params.field "stop_loss_pct") hp.stopLossPct
  useTakeProfit : Carries getBool useTakeProfitParserOptions (params.field "use_take_profit") hp.useTakeProfit
  takeProfitPct : Carries getDouble takeProfitPctParserOptions (params.field "take_profit_pct") hp.takeProfitPct
  fillMaxPctOfVolume : Carries getDouble fillMaxPctOfVolumeParserOptions (params.field "fill_max_pct_of_volume")
    hp.fillMaxPctOfVolume
  riskFreeRate : Carries getDouble riskFreeRateParserOptions (params.field "risk_free_rate") hp.riskFreeRate
  allowShortSelling : Carries getBool allowShortSellingParserOptions (params.field "allow_short_selling")
    hp.allowShortSelling
  initialMarginPct : Carries getDouble initialMarginPctParserOptions (params.field "initial_margin_pct")
    hp.initialMarginPct
  maxLeverage : Carries getDouble maxLeverageParserOptions (params.field "max_leverage") hp.maxLeverage
  monteCarloRuns : Carries Json.integer? monteCarloRunsParserOptions (params.field "monte_carlo_runs")
    (some hp.monteCarloRuns)
  /-- `null` leaves the seed to the program. -/
  monteCarloSeed : params.field "monte_carlo_seed" = some .null ∨
    Carries Json.integer? monteCarloSeedParserOptions (params.field "monte_carlo_seed") (some hp.monteCarloSeed)
  initialCapital : ∃ s, (params.field "initial_capital").bind getString = some s ∧
    hp.initialCapital = ⌊decimalValue s.toList * Constants.moneyScaledBase⌋
  backtestStartDatetime : Carries getString backtestStartDatetimeParserOptions
    (params.field "backtest_start_datetime") (some hp.backtestStartDatetime)
  backtestEndDatetime : Carries getString backtestEndDatetimeParserOptions (params.field "backtest_end_datetime")
    (some hp.backtestEndDatetime)
  symbols : ∃ raws, (params.field "symbols").bind Json.getArray = some raws ∧
    List.Forall₂ CarriesSymbol raws hp.symbols

structure CarriesManifest (doc : Json) (m : PluginManifest) : Prop where
  name : Carries getString nameParserOptions (doc.field "name") (some m.name)
  kind : Carries getString kindParserOptions (doc.field "kind") (some m.kind)
  entry : Carries getString entryParserOptions (doc.field "entry") (some m.entry)
  description : Carries getString descriptionParserOptions (doc.field "description") m.description
  author : Carries getString authorParserOptions (doc.field "author") m.author
  version : Carries getString versionParserOptions (doc.field "version") (some m.version)
  apiVersion : Carries Json.integer? apiVersionParserOptions (doc.field "api_version") (some m.apiVersion)
  hostParams : ∃ params, doc.field "host_params" = some params ∧ CarriesHostParams params m.hostParams
  strategyParams : doc.field "strategy_params" = some m.strategyParams

/-- Parser and schema agree on the document: one that satisfies the schema is parsed into a manifest that carries it,
and one that is parsed has only values the schema lists. -/
structure AgreesWithSchema (doc : Json) : Prop where
  accepted : manifestSchema.Satisfies doc → ∃ m, parseJson doc = .ok m ∧ CarriesManifest doc m
  listed : (∃ m, parseJson doc = .ok m) → manifestSchema.UsesListed doc

/-- The unit of the symbol is a month or a year, which the parser's options allow and the schema does not list. -/
def MonthOrYear (raw : Json) : Prop :=
  raw.field "timespan_unit" = some (.str "month") ∨ raw.field "timespan_unit" = some (.str "year")

/-- The entries of `symbols`. -/
def rawSymbols (doc : Json) : List Json :=
  (((doc.field "host_params").bind (Json.field "symbols")).bind Json.getArray).getD []

/-! ### The two schemas -/

/-- No document satisfies both: `commission` is a string or left out in one, a number in the other. -/
theorem not_manifestShape_of_manifestSchema {doc : Json} (h : manifestSchema.Satisfies doc) :
    ¬ manifestShape.Satisfies doc := by
  intro hshape
  obtain ⟨params, hparams, hhost⟩ : HasField (some doc) "host_params" hostParamsShape :=
    (satisfies_record (by simp) doc).1 hshape ("host_params", hostParamsShape) (by simp)
  obtain ⟨v, hv, hnumber⟩ : HasField (some params) "commission" (fieldShape getDouble commissionParserOptions) :=
    (satisfies_record (by simp) params).1 hhost ("commission", fieldShape getDouble commissionParserOptions) (by simp)
  have hhost' : hostParamsSchema.Satisfies params := h.field (by simp) hparams
  have hstring : (Schema.pattern decimalPattern).Satisfies v := hhost'.field (by simp) hv
  obtain ⟨q, hq, -⟩ := (satisfies_fieldShape v).1 hnumber
  rcases v with _ | _ | _ | _ | _ | _ | _ <;> simp_all [Satisfies, everywhere, admits, getString, getDouble]

/-- Where the options allow only values the schema lists, an accepted field has a listed value. -/
theorem listed_enum {obj : Json} {key : String} {options : ParserOptions String} {values : List String}
    (h : HasField (some obj) key (fieldShape getString options)) (hne : options.allowedValues ≠ [])
    (hsub : options.allowedValues ⊆ values) :
    ∀ v, obj.field key = some v → (Schema.enum values).listed v = true := by
  intro v hv
  obtain ⟨w, hw, hs⟩ := h
  have hwv : w = v := Option.some.inj (hw.symm.trans hv)
  subst hwv
  obtain ⟨s, hget, hallowed⟩ := (satisfies_fieldShape w).1 hs
  rcases w with _ | _ | _ | _ | s' | _ | _ <;> simp only [getString, reduceCtorEq, Option.some.injEq] at hget
  subst hget
  simp [Schema.listed, hsub (hallowed.resolve_left hne)]

theorem everywhere_listed_symbol {raw : Json} (h : symbolShape.Satisfies raw) :
    everywhere Schema.listed symbolSchema raw = true ↔ ¬ MonthOrYear raw := by
  obtain ⟨w, hw, hs⟩ : HasField (some raw) "timespan_unit" (fieldShape getString timespanUnitParserOptions) :=
    (satisfies_record (by simp) raw).1 h ("timespan_unit", fieldShape getString timespanUnitParserOptions) (by simp)
  have hw' : raw.field "timespan_unit" = some w := hw
  obtain ⟨s, hget, hallowed⟩ := (satisfies_fieldShape w).1 hs
  rcases w with _ | _ | _ | _ | s' | _ | _ <;> simp only [getString, reduceCtorEq, Option.some.injEq] at hget
  subst hget
  have hunit : s' ∈ timespanUnitParserOptions.allowedValues :=
    hallowed.resolve_left (by simp [timespanUnitParserOptions])
  have hlisted : everywhere Schema.listed symbolSchema raw = true ↔
      s' ∈ ["second", "minute", "hour", "day", "week"] := by
    rw [symbolSchema, everywhere_object]
    simp [everywhere, Schema.listed, hw']
  rw [hlisted, MonthOrYear, hw']
  simp only [timespanUnitParserOptions, List.mem_cons, List.not_mem_nil, or_false] at hunit
  rcases hunit with rfl | rfl | rfl | rfl | rfl | rfl | rfl <;> simp

theorem everywhere_listed_hostParams {params : Json} (h : hostParamsShape.Satisfies params) :
    everywhere Schema.listed hostParamsSchema params = true ↔
      ∀ raws, params.field "symbols" = some (.arr raws) → ∀ raw ∈ raws, ¬ MonthOrYear raw := by
  have hrow := (satisfies_record (by simp) params).1 h
  simp only [List.forall_mem_cons] at hrow
  obtain ⟨hsymbols, -, -, -, -, -, -, -, -, hcommission, -, hslippage, -, -, hmode, hsizing, -⟩ := hrow
  obtain ⟨w, hw, hs⟩ := hsymbols
  have hw' : params.field "symbols" = some w := hw
  rcases w with _ | _ | _ | _ | _ | raws | _ <;> try cases hs
  have hshape : ∀ raw ∈ raws, symbolShape.Satisfies raw := ((everywhere_array raws).1 hs).2
  have hraws : everywhere Schema.listed (.array 1 symbolSchema) (.arr raws) = true ↔
      ∀ raw ∈ raws, ¬ MonthOrYear raw := by
    rw [everywhere_array]
    simp only [listed_array, true_and]
    exact forall₂_congr fun raw hraw => everywhere_listed_symbol (hshape raw hraw)
  have hcommission' := listed_enum hcommission (by simp [commissionTypeParserOptions]) (List.Subset.refl _)
  have hslippage' := listed_enum hslippage (by simp [slippageModelParserOptions]) (List.Subset.refl _)
  have hmode' := listed_enum hmode (by simp [optimizationModeParserOptions]) (List.Subset.refl _)
  have hsizing' := listed_enum hsizing (by simp [positionSizingMethodParserOptions]) (List.Subset.refl _)
  simp only [commissionTypeParserOptions] at hcommission'
  simp only [slippageModelParserOptions] at hslippage'
  simp only [optimizationModeParserOptions] at hmode'
  simp only [positionSizingMethodParserOptions] at hsizing'
  rw [hostParamsSchema, everywhere_object]
  simp only [List.forall_mem_cons, hw', Option.some.injEq, forall_eq', hraws]
  simp +contextual [everywhere, hcommission', hslippage', hmode', hsizing']

/-- An accepted API version is the one the schema asks for. -/
theorem listed_apiVersion {doc : Json}
    (h : HasField (some doc) "api_version" (fieldShape getInt64 apiVersionParserOptions)) :
    ∀ v, doc.field "api_version" = some v → (Schema.const 1).listed v = true := by
  intro v hv
  obtain ⟨w, hw, hs⟩ := h
  have hwv : w = v := Option.some.inj (hw.symm.trans hv)
  subst hwv
  obtain ⟨n, hget, hallowed⟩ := (satisfies_fieldShape w).1 hs
  have hn : n = 1 := by simpa [apiVersionParserOptions, pluginApiVersion] using hallowed
  rcases w with _ | _ | m | _ | _ | _ | _ <;>
    simp only [getInt64, reduceCtorEq, Option.ite_none_right_eq_some] at hget
  have hm : m = n := Option.some.inj hget.2
  simp [Schema.listed, hm, hn]

theorem usesListed_iff {doc : Json} (h : manifestShape.Satisfies doc) :
    manifestSchema.UsesListed doc ↔ ∀ raw ∈ rawSymbols doc, ¬ MonthOrYear raw := by
  have hrow := (satisfies_record (by simp) doc).1 h
  simp only [List.forall_mem_cons] at hrow
  obtain ⟨-, hkind, -, -, -, -, hversion, ⟨params, hparams, hhost⟩, -⟩ := hrow
  have hparams' : doc.field "host_params" = some params := hparams
  have hkind' := listed_enum hkind (by simp [kindParserOptions]) (List.Subset.refl _)
  simp only [kindParserOptions] at hkind'
  have hsymbols : (∀ raws, params.field "symbols" = some (.arr raws) → ∀ raw ∈ raws, ¬ MonthOrYear raw) ↔
      ∀ raw ∈ rawSymbols doc, ¬ MonthOrYear raw := by
    unfold rawSymbols
    rw [hparams', Option.bind_some]
    rcases params.field "symbols" with _ | _ | _ | _ | _ | _ | raws | _ <;> simp [Json.getArray]
  unfold UsesListed
  rw [manifestSchema, everywhere_object]
  simp only [List.forall_mem_cons, hparams', Option.some.injEq, forall_eq', everywhere_listed_hostParams hhost,
    hsymbols]
  simp +contextual [everywhere, everywhereIn, hkind', listed_apiVersion hversion]

/-- Parser and schema agree on no document that satisfies the schema, and on a document the parser accepts exactly if
no symbol of it has a month or a year as its unit. -/
theorem agreesWithSchema_iff (doc : Json) :
    AgreesWithSchema doc ↔
      ¬ manifestSchema.Satisfies doc ∧
        ¬ (manifestShape.Satisfies doc ∧ ∃ raw ∈ rawSymbols doc, MonthOrYear raw) := by
  constructor
  · intro h
    refine ⟨fun hsat => ?_, ?_⟩
    · obtain ⟨m, hm, -⟩ := h.accepted hsat
      exact not_manifestShape_of_manifestSchema hsat ((parseJson_ok_iff doc).1 ⟨m, hm⟩)
    · rintro ⟨hshape, raw, hraw, hunit⟩
      have hlisted := h.listed ((parseJson_ok_iff doc).2 hshape)
      exact (usesListed_iff hshape).1 hlisted raw hraw hunit
  · rintro ⟨hsat, hunits⟩
    refine ⟨fun h => absurd h hsat, fun hok => ?_⟩
    have hshape := (parseJson_ok_iff doc).1 hok
    rw [usesListed_iff hshape]
    intro raw hraw hunit
    exact hunits ⟨hshape, raw, hraw, hunit⟩

/-! ### Two documents -/

/-- `manifest.example.json`. -/
def exampleManifest : Json :=
  .obj
    [("name", .str "sma_python"), ("version", .str "1.0.0"), ("api_version", .int 1), ("kind", .str "python"),
      ("entry", .str "sma_python.py"), ("description", .str "A simple SMA strategy implemented in Python"),
      ("author", .str "John Doe"),
      ("host_params", .obj
        [("initial_capital", .str "100000.50"), ("default_currency", .str "USD"),
          ("timezone", .str "America/New_York"),
          ("symbols", .arr
            [.obj [("symbol", .str "AAPL"), ("timespan_unit", .str "minute"), ("timespan", .int 1),
                ("primary", .bool true)],
              .obj [("symbol", .str "GOOG"), ("timespan_unit", .str "minute"), ("timespan", .int 1),
                ("primary", .bool false)]]),
          ("position_sizing_method", .str "fixed_percentage"), ("position_size_value", .float (1 / 10)),
          ("max_position_size", .float (3 / 10)), ("use_stop_loss", .bool true), ("stop_loss_pct", .float (1 / 50)),
          ("use_take_profit", .bool false), ("take_profit_pct", .float (1 / 10)), ("commission", .str "0.0001"),
          ("commission_type", .str "per_share"), ("slippage", .str "0"), ("slippage_model", .str "none"),
          ("market_hours_only", .bool false), ("allow_fractional_shares", .bool false),
          ("fill_max_pct_of_volume", .float (1 / 10)), ("risk_free_rate", .float (1 / 50)),
          ("backtest_start_datetime", .str "2023-01-01T00:00:00Z"),
          ("backtest_end_datetime", .str "2025-10-01T00:00:00Z"), ("monte_carlo_runs", .int 1),
          ("monte_carlo_seed", .null), ("optimization_mode", .str "none"), ("allow_short_selling", .bool true),
          ("initial_margin_pct", .float (1 / 2)), ("max_leverage", .float 2)]),
      ("strategy_params", .obj [("fast", .int 10), ("slow", .int 30), ("symbol", .str "AAPL")])]

/-- The same strategy with numbers where the parser reads numbers, on other symbols. -/
def numericManifest (symbols : List Json) : Json :=
  .obj
    [("name", .str "sma_python"), ("version", .str "1.0.0"), ("api_version", .int 1), ("kind", .str "python"),
      ("entry", .str "sma_python.py"), ("description", .str ""), ("author", .str ""),
      ("host_params", .obj
        [("initial_capital", .str "100000"), ("default_currency", .str "USD"), ("timezone", .str "America/New_York"),
          ("symbols", .arr symbols),
          ("position_sizing_method", .str "fixed_percentage"), ("position_size_value", .float (1 / 10)),
          ("max_position_size", .float (3 / 10)), ("use_stop_loss", .bool true), ("stop_loss_pct", .float (1 / 50)),
          ("use_take_profit", .bool false), ("take_profit_pct", .float (1 / 10)), ("commission", .float (1 / 10000)),
          ("commission_type", .str "per_share"), ("slippage", .int 0), ("slippage_model", .str "none"),
          ("market_hours_only", .bool false), ("allow_fractional_shares", .bool false),
          ("fill_max_pct_of_volume", .float (1 / 10)), ("risk_free_rate", .float (1 / 50)),
          ("backtest_start_datetime", .str "2023-01-01T00:00:00Z"),
          ("backtest_end_datetime", .str "2025-10-01T00:00:00Z"), ("monte_carlo_runs", .int 1),
          ("monte_carlo_seed", .int 7), ("optimization_mode", .str "none"), ("allow_short_selling", .bool true),
          ("initial_margin_pct", .float (1 / 2)), ("max_leverage", .float 2)]),
      ("strategy_params", .obj [])]

/-- An entry of `symbols`. -/
def rawSymbol (symbol unit : String) : Json :=
  .obj [("symbol", .str symbol), ("timespan_unit", .str unit), ("timespan", .int 1), ("primary", .bool true)]

def monthlyManifest : Json := numericManifest [rawSymbol "AAPL" "month"]

/-- The repository's own example satisfies the schema and is rejected; monthly bars are not in the schema and are
accepted. -/
theorem schema_not_met :
    (manifestSchema.Satisfies exampleManifest ∧
      parseJson exampleManifest = .error (.runtimeError "Invalid monte carlo seed") ∧
      ¬ AgreesWithSchema exampleManifest) ∧
    (∃ m, parseJson monthlyManifest = .ok m) ∧ ¬ manifestSchema.UsesListed monthlyManifest ∧
      ¬ AgreesWithSchema monthlyManifest := by
  have hsat : manifestSchema.Satisfies exampleManifest := by decide +kernel
  have herr : parseJson exampleManifest = .error (.runtimeError "Invalid monte carlo seed") := by rfl
  have hok : ∃ m, parseJson monthlyManifest = .ok m := (parseJson_ok_iff _).2 (by decide +kernel)
  have hmonth : ¬ manifestSchema.UsesListed monthlyManifest := by decide +kernel
  refine ⟨⟨hsat, herr, fun h => ?_⟩, hok, hmonth, fun h => hmonth (h.listed hok)⟩
  obtain ⟨m, hm, -⟩ := h.accepted hsat
  rw [herr] at hm
  cases hm

end Manifest

end QuantForge
