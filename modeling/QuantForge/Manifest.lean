import QuantForge.JsonSchema
import QuantForge.Strings
import QuantForge.Models

/-!
# The manifest parser

`PluginManifest::parse_json` (`manifest.cpp`) with the option tables of `manifest.hpp` and `Money::parse_microdollars`
(`money_utils.cpp`).  A document is the JSON value its lookups and typed getters see.  The parser reads its fields in
the order of the source and stops with the error of the first one it cannot read.
-/

namespace QuantForge

/-! ### `money_utils.cpp` -/

namespace Money

def moneyScale : ℕ := 6
def scaledBase : ℤ := 1000000

/-- The fractional part cut or padded to six digits.  The number of zeros to append is a difference of unsigned
numbers, taken the wrong way round. -/
def scaleFraction (fractional : List Char) : Except Exception (List Char) :=
  if Strings.byteLength fractional < moneyScale then
    Strings.append fractional (((Strings.byteLength fractional : ℤ) - moneyScale) % 2 ^ 64).toNat '0'
  else if moneyScale < Strings.byteLength fractional then
    .ok (fractional.take moneyScale)
  else
    .ok fractional

/-- `Money::parse_microdollars`.  Products beyond `int64_t` are left unbounded. -/
def parseMicrodollars (s : List Char) : Except Exception Money :=
  if '.' ∈ s then do
    let whole := s.takeWhile (· ≠ '.')
    let fractional ← scaleFraction ((s.dropWhile (· ≠ '.')).drop 1)
    let wholeDollars ← Strings.stoll whole
    let microdollars ← Strings.stoll fractional
    return wholeDollars * scaledBase + microdollars
  else do
    let wholeDollars ← Strings.stoll s
    return wholeDollars * scaledBase

end Money

namespace Manifest

open Money (parseMicrodollars)
open Json (getBool getInt64 getDouble getString)

/-! ### The records of `manifest.hpp` -/

structure ParserOptions (T : Type) where
  isRequired : Bool
  allowedValues : List T
  fallbackValue : T
  errorMessage : String

structure Symbol where
  primary : Bool
  timespan : ℤ
  symbol : String
  timespanUnit : String
  deriving DecidableEq

structure HostParams where
  marketHoursOnly : Option Bool
  allowFractionalShares : Option Bool
  monteCarloRuns : ℤ
  monteCarloSeed : ℤ
  commission : Option ℚ
  slippage : Option ℚ
  initialCapital : Money
  commissionType : Option String
  slippageModel : Option String
  defaultCurrency : Option String
  timezone : Option String
  optimizationMode : Option String
  backtestStartDatetime : String
  backtestEndDatetime : String
  symbols : List Symbol
  positionSizingMethod : Option String
  positionSizeValue : Option ℚ
  maxPositionSize : Option ℚ
  useStopLoss : Option Bool
  stopLossPct : Option ℚ
  useTakeProfit : Option Bool
  takeProfitPct : Option ℚ
  fillMaxPctOfVolume : Option ℚ
  riskFreeRate : Option ℚ
  allowShortSelling : Option Bool
  initialMarginPct : Option ℚ
  maxLeverage : Option ℚ

structure PluginManifest where
  apiVersion : ℤ
  name : String
  kind : String
  entry : String
  description : Option String
  author : Option String
  version : String
  hostParams : HostParams
  /-- The JSON text of the strategy's parameters. -/
  strategyParams : Json

/-! ### The option tables -/

/-- `PLUGIN_API_VERSION`. -/
def pluginApiVersion : ℤ := 1

def nameParserOptions : ParserOptions String := ⟨true, [], "", "Invalid name"⟩
def kindParserOptions : ParserOptions String := ⟨true, ["python", "native"], "", "Invalid kind"⟩
def entryParserOptions : ParserOptions String := ⟨true, [], "", "Invalid entry"⟩
def descriptionParserOptions : ParserOptions String := ⟨false, [], "", "Invalid description"⟩
def authorParserOptions : ParserOptions String := ⟨false, [], "", "Invalid author"⟩
def apiVersionParserOptions : ParserOptions ℤ := ⟨true, [pluginApiVersion], 0, "Invalid api version"⟩
def versionParserOptions : ParserOptions String := ⟨true, [], "", "Invalid version"⟩
def primaryParserOptions : ParserOptions Bool := ⟨true, [true, false], false, "Invalid primary"⟩
def timespanParserOptions : ParserOptions ℤ := ⟨true, [], 0, "Invalid timespan"⟩
def symbolParserOptions : ParserOptions String := ⟨true, [], "", "Invalid symbol"⟩
def timespanUnitParserOptions : ParserOptions String :=
  ⟨true, ["second", "minute", "hour", "day", "week", "month", "year"], "", "Invalid timespan unit"⟩
def marketHoursOnlyParserOptions : ParserOptions Bool := ⟨true, [true, false], false, "Invalid market hours only"⟩
def allowFractionalSharesParserOptions : ParserOptions Bool :=
  ⟨true, [true, false], false, "Invalid allow fractional shares"⟩
def monteCarloRunsParserOptions : ParserOptions ℤ := ⟨true, [], 0, "Invalid monte carlo runs"⟩
def monteCarloSeedParserOptions : ParserOptions ℤ := ⟨true, [], 0, "Invalid monte carlo seed"⟩
def commissionParserOptions : ParserOptions ℚ := ⟨true, [], 0, "Invalid commission"⟩
def commissionTypeParserOptions : ParserOptions String :=
  ⟨true, ["per_share", "percentage", "flat"], "", "Invalid commission type"⟩
def slippageParserOptions : ParserOptions ℚ := ⟨true, [], 0, "Invalid slippage"⟩
def slippageModelParserOptions : ParserOptions String :=
  ⟨true, ["none", "time_based", "time_volume_based"], "", "Invalid slippage model"⟩
def defaultCurrencyParserOptions : ParserOptions String := ⟨true, ["USD"], "", "Invalid currency"⟩
def timezoneParserOptions : ParserOptions String := ⟨true, ["America/New_York"], "", "Invalid timezone"⟩
def optimizationModeParserOptions : ParserOptions String :=
  ⟨true, ["none", "grid_search", "bayesian", "genetic"], "", "Invalid optimization mode"⟩
def backtestStartDatetimeParserOptions : ParserOptions String := ⟨true, [], "", "Invalid backtest start datetime"⟩
def backtestEndDatetimeParserOptions : ParserOptions String := ⟨true, [], "", "Invalid backtest end datetime"⟩
def initialCapitalParserOptions : ParserOptions String :=
  ⟨true, [], "0", "Invalid initial capital, please provide a valid money string"⟩
def positionSizingMethodParserOptions : ParserOptions String :=
  ⟨false, ["fixed_percentage", "fixed_dollar", "equal_weight"], "fixed_percentage", "Invalid position sizing method"⟩
def positionSizeValueParserOptions : ParserOptions ℚ := ⟨false, [], 1 / 100, "Invalid position size value"⟩
def maxPositionSizeParserOptions : ParserOptions ℚ := ⟨false, [], 0, "Invalid max position size"⟩
def useStopLossParserOptions : ParserOptions Bool := ⟨false, [true, false], false, "Invalid use stop loss"⟩
def stopLossPctParserOptions : ParserOptions ℚ := ⟨false, [], 1 / 20, "Invalid stop loss pct"⟩
def useTakeProfitParserOptions : ParserOptions Bool := ⟨false, [true, false], false, "Invalid use take profit"⟩
def takeProfitPctParserOptions : ParserOptions ℚ := ⟨false, [], 1 / 20, "Invalid take profit pct"⟩
def fillMaxPctOfVolumeParserOptions : ParserOptions ℚ := ⟨false, [], 1 / 10, "Invalid fill max pct of volume"⟩
def riskFreeRateParserOptions : ParserOptions ℚ := ⟨false, [], 1 / 50, "Invalid risk free rate"⟩
def allowShortSellingParserOptions : ParserOptions Bool := ⟨false, [true, false], true, "Invalid allow short selling"⟩
def initialMarginPctParserOptions : ParserOptions ℚ := ⟨false, [], 1, "Invalid initial margin pct"⟩
def maxLeverageParserOptions : ParserOptions ℚ := ⟨false, [], 1, "Invalid max leverage"⟩

/-! ### `parse_json` -/

/-- `parser::parse_value` on the result of a lookup and a getter. -/
def parseValue {T : Type} [DecidableEq T] (result : Option T) (options : ParserOptions T) : Except Exception T :=
  match result with
  | none => .error (.runtimeError options.errorMessage)
  | some value =>
    if options.allowedValues = [] then .ok value
    else if value ∈ options.allowedValues then .ok value
    else .error (.runtimeError options.errorMessage)

/-- `parse_value(obj[key].get(), options)`, where `obj` may itself be a failed lookup. -/
def parseField {T : Type} [DecidableEq T] (obj : Option Json) (key : String) (get : Json → Option T)
    (options : ParserOptions T) : Except Exception T :=
  parseValue ((obj.bind (Json.field key)).bind get) options

/-- The conversion of an `int64_t` to `int`. -/
def toInt (n : ℤ) : ℤ := Int.bmod n (2 ^ 32)

/-- One entry of `symbols`. -/
def parseSymbol (raw : Json) : Except Exception Symbol := do
  let obj ← match raw.getObject with
    | some obj => Except.ok obj
    | none => .error (.runtimeError "Invalid symbol object")
  let primary ← parseField obj "primary" getBool primaryParserOptions
  let timespan ← parseField obj "timespan" getInt64 timespanParserOptions
  let symbol ← parseField obj "symbol" getString symbolParserOptions
  let timespanUnit ← parseField obj "timespan_unit" getString timespanUnitParserOptions
  return { primary, timespan := toInt timespan, symbol, timespanUnit }

def parseSymbols (params : Option Json) : Except Exception (List Symbol) :=
  match (params.bind (Json.field "symbols")).bind Json.getArray with
  | none => .error (.runtimeError "Invalid symbols")
  | some raws => raws.mapM parseSymbol

def parseInitialCapital (params : Option Json) : Except Exception Money := do
  let money ← parseField params "initial_capital" getString initialCapitalParserOptions
  parseMicrodollars money.toList

def parseHostParams (params : Option Json) (symbols : List Symbol) : Except Exception HostParams := do
  let marketHoursOnly ← parseField params "market_hours_only" getBool marketHoursOnlyParserOptions
  let allowFractionalShares ← parseField params "allow_fractional_shares" getBool allowFractionalSharesParserOptions
  let monteCarloRuns ← parseField params "monte_carlo_runs" getInt64 monteCarloRunsParserOptions
  let monteCarloSeed ← parseField params "monte_carlo_seed" getInt64 monteCarloSeedParserOptions
  let initialCapital ← parseInitialCapital params
  let backtestStartDatetime ← parseField params "backtest_start_datetime" getString backtestStartDatetimeParserOptions
  let backtestEndDatetime ← parseField params "backtest_end_datetime" getString backtestEndDatetimeParserOptions
  let commission ← parseField params "commission" getDouble commissionParserOptions
  let commissionType ← parseField params "commission_type" getString commissionTypeParserOptions
  let slippage ← parseField params "slippage" getDouble slippageParserOptions
  let slippageModel ← parseField params "slippage_model" getString slippageModelParserOptions
  let defaultCurrency ← parseField params "default_currency" getString defaultCurrencyParserOptions
  let timezone ← parseField params "timezone" getString timezoneParserOptions
  let optimizationMode ← parseField params "optimization_mode" getString optimizationModeParserOptions
  let positionSizingMethod ← parseField params "position_sizing_method" getString positionSizingMethodParserOptions
  let positionSizeValue ← parseField params "position_size_value" getDouble positionSizeValueParserOptions
  let maxPositionSize ← parseField params "max_position_size" getDouble maxPositionSizeParserOptions
  let useStopLoss ← parseField params "use_stop_loss" getBool useStopLossParserOptions
  let stopLossPct ← parseField params "stop_loss_pct" getDouble stopLossPctParserOptions
  let useTakeProfit ← parseField params "use_take_profit" getBool useTakeProfitParserOptions
  let takeProfitPct ← parseField params "take_profit_pct" getDouble takeProfitPctParserOptions
  let fillMaxPctOfVolume ← parseField params "fill_max_pct_of_volume" getDouble fillMaxPctOfVolumeParserOptions
  let riskFreeRate ← parseField params "risk_free_rate" getDouble riskFreeRateParserOptions
  let allowShortSelling ← parseField params "allow_short_selling" getBool allowShortSellingParserOptions
  let initialMarginPct ← parseField params "initial_margin_pct" getDouble initialMarginPctParserOptions
  let maxLeverage ← parseField params "max_leverage" getDouble maxLeverageParserOptions
  return { marketHoursOnly := some marketHoursOnly, allowFractionalShares := some allowFractionalShares,
           monteCarloRuns := toInt monteCarloRuns, monteCarloSeed := toInt monteCarloSeed,
           commission := some commission, slippage := some slippage, initialCapital,
           commissionType := some commissionType, slippageModel := some slippageModel,
           defaultCurrency := some defaultCurrency, timezone := some timezone,
           optimizationMode := some optimizationMode, backtestStartDatetime, backtestEndDatetime, symbols,
           positionSizingMethod := some positionSizingMethod, positionSizeValue := some positionSizeValue,
           maxPositionSize := some maxPositionSize, useStopLoss := some useStopLoss, stopLossPct := some stopLossPct,
           useTakeProfit := some useTakeProfit, takeProfitPct := some takeProfitPct,
           fillMaxPctOfVolume := some fillMaxPctOfVolume, riskFreeRate := some riskFreeRate,
           allowShortSelling := some allowShortSelling, initialMarginPct := some initialMarginPct,
           maxLeverage := some maxLeverage }

/-- `PluginManifest::parse_json`. -/
def parseJson (doc : Json) : Except Exception PluginManifest := do
  let name ← parseField doc "name" getString nameParserOptions
  let kind ← parseField doc "kind" getString kindParserOptions
  let entry ← parseField doc "entry" getString entryParserOptions
  let description ← parseField doc "description" getString descriptionParserOptions
  let author ← parseField doc "author" getString authorParserOptions
  let version ← parseField doc "version" getString versionParserOptions
  let apiVersion ← parseField doc "api_version" getInt64 apiVersionParserOptions
  let params := doc.field "host_params"
  let symbols ← parseSymbols params
  let hostParams ← parseHostParams params symbols
  match doc.field "strategy_params" with
  | none => .error (.runtimeError "Error converting strategy params to JSON string")
  | some strategyParams =>
    return { apiVersion := toInt apiVersion, name, kind, entry, description := some description,
             author := some author, version, hostParams, strategyParams }

theorem parseValue_ok_iff {T : Type} [DecidableEq T] {result : Option T} {options : ParserOptions T} {v : T} :
    parseValue result options = .ok v ↔
      result = some v ∧ (options.allowedValues = [] ∨ v ∈ options.allowedValues) := by
  unfold parseValue
  rcases result with _ | w
  · simp
  · by_cases h1 : options.allowedValues = []
    · simp [h1]
    · by_cases h2 : w ∈ options.allowedValues
      · simp only [h1, h2, ↓reduceIte, Except.ok.injEq, Option.some.injEq, false_or]
        constructor
        · rintro rfl
          exact ⟨rfl, h2⟩
        · exact And.left
      · simp only [h1, h2, ↓reduceIte, reduceCtorEq, Option.some.injEq, false_or, false_iff, not_and]
        rintro rfl
        exact h2

/-! ### The parameters of the back test -/

def readCommissionType : String → Option CommissionType
  | "per_share" => some .perShare
  | "percentage" => some .percentage
  | "flat" => some .flat
  | _ => none

def readSlippageModel : String → Option SlippageModel
  | "none" => some .none
  | "time_based" => some .timeBased
  | "time_volume_based" => some .timeVolumeBased
  | _ => none

def readPositionSizingMethod : String → Option PositionSizingMethod
  | "fixed_percentage" => some .fixedPercentage
  | "fixed_dollar" => some .fixedDollar
  | "equal_weight" => some .equalWeight
  | _ => none

/-- The host parameters as the back test's model has them, with enumerations for the strings it compares. -/
def HostParams.backTest (hp : HostParams) : Option QuantForge.HostParams := do
  let commissionType ← hp.commissionType.mapM readCommissionType
  let slippageModel ← hp.slippageModel.mapM readSlippageModel
  let positionSizingMethod ← hp.positionSizingMethod.mapM readPositionSizingMethod
  return { marketHoursOnly := hp.marketHoursOnly, allowFractionalShares := hp.allowFractionalShares,
           commission := hp.commission, slippage := hp.slippage, initialCapital := hp.initialCapital, commissionType,
           slippageModel, symbols := hp.symbols.map Symbol.symbol, positionSizingMethod,
           positionSizeValue := hp.positionSizeValue, maxPositionSize := hp.maxPositionSize,
           useStopLoss := hp.useStopLoss, stopLossPct := hp.stopLossPct, useTakeProfit := hp.useTakeProfit,
           takeProfitPct := hp.takeProfitPct, fillMaxPctOfVolume := hp.fillMaxPctOfVolume,
           allowShortSelling := hp.allowShortSelling, initialMarginPct := hp.initialMarginPct,
           maxLeverage := hp.maxLeverage }

theorem bind_eq_ok {E A B : Type} {x : Except E A} {f : A → Except E B} {b : B} :
    (x >>= f) = .ok b ↔ ∃ a, x = .ok a ∧ f a = .ok b := by
  rcases x with e | a <;> simp [bind, Except.bind]

theorem parseField_allowed {T : Type} [DecidableEq T] {obj : Option Json} {key : String} {get : Json → Option T}
    {options : ParserOptions T} {v : T} (h : parseField obj key get options = .ok v)
    (hne : options.allowedValues ≠ []) : v ∈ options.allowedValues :=
  (parseValue_ok_iff.1 h).2.resolve_left hne

/-- The strings the back test compares are among the values their options allow. -/
theorem parseHostParams_allowed {params : Option Json} {symbols : List Symbol} {hp : HostParams}
    (h : parseHostParams params symbols = .ok hp) :
    (∃ s ∈ commissionTypeParserOptions.allowedValues, hp.commissionType = some s) ∧
    (∃ s ∈ slippageModelParserOptions.allowedValues, hp.slippageModel = some s) ∧
    (∃ s ∈ positionSizingMethodParserOptions.allowedValues, hp.positionSizingMethod = some s) := by
  -- the fields are read one after the other; three of them matter
  unfold parseHostParams at h
  iterate 8 obtain ⟨_, -, h⟩ := bind_eq_ok.1 h
  obtain ⟨commissionType, hcommission, h⟩ := bind_eq_ok.1 h
  obtain ⟨_, -, h⟩ := bind_eq_ok.1 h
  obtain ⟨slippageModel, hslippage, h⟩ := bind_eq_ok.1 h
  iterate 3 obtain ⟨_, -, h⟩ := bind_eq_ok.1 h
  obtain ⟨positionSizingMethod, hsizing, h⟩ := bind_eq_ok.1 h
  iterate 11 obtain ⟨_, -, h⟩ := bind_eq_ok.1 h
  obtain rfl := Except.ok.inj h
  exact ⟨⟨_, parseField_allowed hcommission (by simp [commissionTypeParserOptions]), rfl⟩,
    ⟨_, parseField_allowed hslippage (by simp [slippageModelParserOptions]), rfl⟩,
    ⟨_, parseField_allowed hsizing (by simp [positionSizingMethodParserOptions]), rfl⟩⟩

/-- Every parsed manifest has parameters of the back test. -/
theorem exists_backTest {doc : Json} {m : PluginManifest} (h : parseJson doc = .ok m) :
    ∃ hp, m.hostParams.backTest = some hp := by
  unfold parseJson at h
  iterate 8 obtain ⟨_, -, h⟩ := bind_eq_ok.1 h
  obtain ⟨hp, hhost, hm⟩ := bind_eq_ok.1 h
  have hhp : m.hostParams = hp := by
    split at hm
    · cases hm
    · obtain rfl := Except.ok.inj hm
      rfl
  obtain ⟨⟨c, hc, hc'⟩, ⟨s, hs, hs'⟩, p, hp', hp''⟩ := parseHostParams_allowed hhost
  simp only [commissionTypeParserOptions, slippageModelParserOptions, positionSizingMethodParserOptions,
    List.mem_cons, List.not_mem_nil, or_false] at hc hs hp'
  unfold HostParams.backTest
  rw [hhp, hc', hs', hp'']
  rcases hc with rfl | rfl | rfl <;> rcases hs with rfl | rfl | rfl <;> rcases hp' with rfl | rfl | rfl <;>
    exact ⟨_, rfl⟩

end Manifest

end QuantForge
