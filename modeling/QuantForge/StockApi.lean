import QuantForge.Staleness
import QuantForge.FetchData
import QuantForge.Decimal

/-!
# The stock API

`StockAPI::custom_aggregate_bars` (`stock_api.cpp`) with Polygon's requests and answers (`polygon.cpp`), over the
client with its cache.  A request is told from every other by its URL (`readUrl_url`).  So what is returned for it are
bars that the provider itself had for these arguments within the last `ttl_s_ + lag` seconds
(`customAggregateBars_recent`).
-/

namespace QuantForge

namespace Http

/-! ### `polygon.cpp` -/

def polygonBaseUrl : Text := "https://api.polygon.io".toList

/-- `PolygonProvider::build_custom_aggregate_bars`. -/
def buildCustomAggregateBars (apiKey : Text) (a : AggregateBarsArgs) : Request where
  url := polygonBaseUrl ++ "/v2/aggs/ticker/".toList ++ a.symbol.toList ++ "/range/".toList ++
    Strings.printLong a.timespan ++ "/".toList ++ a.timespanUnit.toList ++ "/".toList ++ a.fromTime.toList ++
    "/".toList ++ a.toTime.toList
  method := "GET".toList
  headers := ["Authorization: Bearer ".toList ++ apiKey, "Accept: application/json".toList]

/-- What the parser of the library makes of a text, and what it says of a text from which a value could not be
read. -/
structure Simdjson where
  iterate : Text → Option Json
  what : Text → String

/-- What `custom_aggregate_bars` throws: an `HttpError`, or an exception of the client. -/
inductive FetchError
  | http (status : ℤ) (url bodyPreview : Text) (msg : String)
  | client (e : Exception)
  deriving DecidableEq

def errorMessageLength : ℕ := 512

/-- The `HttpError` about a response. -/
def httpError (resp : Response) (msg : String) : FetchError :=
  .http resp.status resp.effectiveUrl (resp.body.take errorMessageLength) msg

/-- An `AggregateBarResult` with the fields that nothing reads. -/
structure BarDetails extends AggregateBarResult where
  isOtc : Bool
  txCount : ℤ
  volumeWeightedPrice : ℚ

/-- `int(value)`. -/
def getInt32 (value : Json) : Option ℤ :=
  value.getInt64.bind fun n => if -2 ^ 31 ≤ n ∧ n < 2 ^ 31 then some n else none

def nanosecondsPerMillisecond : ℤ := 1000000

/-- `is_otc_`: without the field it is false. -/
def readOtc (result : Json) : Option Bool :=
  match result.field "otc" with
  | some otc => otc.getBool
  | none => some false

/-- An element of `results`.  Times beyond `long long` are left unbounded. -/
def readBar (result : Json) : Option BarDetails := do
  let volume ← (result.field "v").bind Json.getDouble
  let volumeWeightedPrice ← (result.field "vw").bind Json.getDouble
  let openPrice ← (result.field "o").bind Json.getDouble
  let close ← (result.field "c").bind Json.getDouble
  let high ← (result.field "h").bind Json.getDouble
  let low ← (result.field "l").bind Json.getDouble
  let t ← (result.field "t").bind Json.getInt64
  let txCount ← (result.field "n").bind getInt32
  let symbol ← (result.field "ticker").bind Json.getString
  let isOtc ← readOtc result
  return { symbol, volume, openPrice, close, high, low, unixTsNs := t * nanosecondsPerMillisecond, isOtc, txCount,
           volumeWeightedPrice }

/-- The body of the `try` of `parse_custom_aggregate_bars`.  The counts become `size_t`. -/
def readBars (doc : Json) : Option AggregateBars := do
  let ticker ← (doc.field "ticker").bind Json.getString
  let adjusted ← (doc.field "adjusted").bind Json.getBool
  let queryCount ← (doc.field "queryCount").bind Json.getInt64
  let resultCount ← (doc.field "resultsCount").bind Json.getInt64
  let results ← (doc.field "results").bind Json.getArray
  let bars ← results.mapM readBar
  return { ticker, adjusted, queryCount := (queryCount % 2 ^ 64).toNat, resultCount := (resultCount % 2 ^ 64).toNat,
           results := bars.map BarDetails.toAggregateBarResult }

/-- `PolygonProvider::parse_custom_aggregate_bars`. -/
def parseCustomAggregateBars (lib : Simdjson) (resp : Response) : Except FetchError AggregateBars :=
  match (lib.iterate resp.body).bind readBars with
  | some out => .ok out
  | none => .error (httpError resp ("Failed to parse JSON response: " ++ lib.what resp.body))

/-! ### `stock_api.cpp` -/

/-- `StockAPI::custom_aggregate_bars`, over any client. -/
def customAggregateBars {σ : Type} (lib : Simdjson) (apiKey : Text) (http : Request → Attempts σ)
    (a : AggregateBarsArgs)
    (s : σ) : Except FetchError AggregateBars × σ :=
  match (http (buildCustomAggregateBars apiKey a)).getWithRetries {} s with
  | (.error e, s) => (.error (.client e), s)
  | (.ok resp, s) =>
    if resp.status < 200 ∨ 300 ≤ resp.status then
      (.error (httpError resp ("HTTP request failed with status " ++ toString resp.status)), s)
    else (parseCustomAggregateBars lib resp, s)

/-! ### The provider's view of a URL -/

/-- What a provider reads in a URL: the arguments between the slashes. -/
def readUrl (url : Text) : Option AggregateBarsArgs :=
  match url.splitOn '/' with
  | [scheme, authority, host, version, aggs, ticker, symbol, range, timespan, unit, fromTime, toTime] =>
    if [scheme, authority, host, version, aggs, ticker, range] = ["https:".toList, [], "api.polygon.io".toList,
        "v2".toList, "aggs".toList, "ticker".toList, "range".toList] then
      some ⟨Strings.scannedValue (Strings.scanInteger timespan).1 (Strings.scanInteger timespan).2.1,
        String.ofList symbol,
        String.ofList fromTime, String.ofList toTime, String.ofList unit⟩
    else none
  | _ => none

/-- No argument has a slash in it. -/
structure Slashless (a : AggregateBarsArgs) : Prop where
  symbol : '/' ∉ a.symbol.toList
  timespanUnit : '/' ∉ a.timespanUnit.toList
  fromTime : '/' ∉ a.fromTime.toList
  toTime : '/' ∉ a.toTime.toList

theorem slash_not_mem_printLong (n : ℤ) : '/' ∉ Strings.printLong n := fun h =>
  (Strings.mem_printLong h).elim (by decide) (by decide)

/-- What stands between the slashes of the URL. -/
def segments (a : AggregateBarsArgs) : List Text :=
  ["https:".toList, [], "api.polygon.io".toList, "v2".toList, "aggs".toList, "ticker".toList, a.symbol.toList,
    "range".toList, Strings.printLong a.timespan, a.timespanUnit.toList, a.fromTime.toList, a.toTime.toList]

theorem url_eq_intercalate (apiKey : Text) (a : AggregateBarsArgs) :
    (buildCustomAggregateBars apiKey a).url = ['/'].intercalate (segments a) := by
  have hbase : polygonBaseUrl = "https:".toList ++ '/' :: ([] ++ '/' :: "api.polygon.io".toList) := by decide +kernel
  have hpath : "/v2/aggs/ticker/".toList =
      '/' :: ("v2".toList ++ '/' :: ("aggs".toList ++ '/' :: ("ticker".toList ++ ['/']))) := by
    decide +kernel
  have hrange : "/range/".toList = '/' :: ("range".toList ++ ['/']) := by decide +kernel
  have hslash : "/".toList = ['/'] := by decide +kernel
  simp only [buildCustomAggregateBars, hbase, hpath, hrange, hslash, segments, List.intercalate, List.intersperse,
    List.flatten_cons, List.flatten_nil, List.append_assoc, List.cons_append, List.nil_append, List.append_nil]

theorem slash_not_mem_segments {a : AggregateBarsArgs} (ha : Slashless a) :
    ∀ segment ∈ segments a, '/' ∉ segment := by
  have hfixed : ∀ segment ∈ ["https:".toList, [], "api.polygon.io".toList, "v2".toList, "aggs".toList,
    "ticker".toList,
      "range".toList], '/' ∉ segment := by decide +kernel
  simp only [List.forall_mem_cons] at hfixed
  obtain ⟨hscheme, hauthority, hhost, hversion, haggs, hticker, hrange, -⟩ := hfixed
  simp only [segments, List.forall_mem_cons]
  exact ⟨hscheme, hauthority, hhost, hversion, haggs, hticker, ha.symbol, hrange, slash_not_mem_printLong _,
    ha.timespanUnit, ha.fromTime, ha.toTime, by simp⟩

theorem scannedValue_printLong (n : ℤ) :
    Strings.scannedValue (Strings.scanInteger (Strings.printLong n)).1
      (Strings.scanInteger (Strings.printLong n)).2.1 = n := by
  rw [Strings.scanInteger_printLong, Strings.scannedValue, Strings.digitsValue_toDigits]
  by_cases hn : n < 0
  · simp only [hn, decide_true, ↓reduceIte]
    omega
  · simp only [hn, decide_false, Bool.false_eq_true, ↓reduceIte]
    omega

/-- A provider reads in the URL the arguments it was made of. -/
theorem readUrl_url (apiKey : Text) {a : AggregateBarsArgs} (ha : Slashless a) :
    readUrl (buildCustomAggregateBars apiKey a).url = some a := by
  have hsplit : (buildCustomAggregateBars apiKey a).url.splitOn '/' = segments a := by
    rw [url_eq_intercalate]
    exact List.splitOn_intercalate '/' (slash_not_mem_segments ha) (List.cons_ne_nil _ _)
  rw [readUrl, hsplit, segments]
  simp only [if_true, scannedValue_printLong, String.ofList_toList]

/-! ### What the provider has -/

/-- A bar as the provider has it, with its time in milliseconds. -/
structure Quote where
  symbol : Symbol
  volume : ℚ
  openPrice : ℚ
  close : ℚ
  high : ℚ
  low : ℚ
  timeMs : ℤ
  deriving DecidableEq

def Quote.bar (q : Quote) : AggregateBarResult :=
  ⟨q.symbol, q.volume, q.openPrice, q.close, q.high, q.low, q.timeMs * nanosecondsPerMillisecond⟩

/-- The JSON of a bar: its fields, whatever their order, and any others. -/
structure Quote.In (q : Quote) (result : Json) : Prop where
  symbol : (result.field "ticker").bind Json.getString = some q.symbol
  volume : (result.field "v").bind Json.getDouble = some q.volume
  openPrice : (result.field "o").bind Json.getDouble = some q.openPrice
  close : (result.field "c").bind Json.getDouble = some q.close
  high : (result.field "h").bind Json.getDouble = some q.high
  low : (result.field "l").bind Json.getDouble = some q.low
  timeMs : (result.field "t").bind Json.getInt64 = some q.timeMs

/-- The answer of a provider that has these bars. -/
def Describes (doc : Json) (quotes : List Quote) : Prop :=
  ∃ results, (doc.field "results").bind Json.getArray = some results ∧ List.Forall₂ Quote.In quotes results

theorem readBar_eq {q : Quote} {result : Json} {bar : BarDetails} (h : readBar result = some bar) (hq : q.In result) :
    bar.toAggregateBarResult = q.bar := by
  unfold readBar at h
  simp only [hq.symbol, hq.volume, hq.openPrice, hq.close, hq.high, hq.low, hq.timeMs, Option.bind_eq_bind,
    Option.bind_some, Option.bind_eq_some_iff] at h
  obtain ⟨vw, -, txCount, -, isOtc, -, h⟩ := h
  rw [← Option.some.inj h]
  rfl

theorem mapM_readBar_eq {quotes : List Quote} {results : List Json} (hquotes : List.Forall₂ Quote.In quotes results)
    {bars : List BarDetails} (h : results.mapM readBar = some bars) :
    bars.map BarDetails.toAggregateBarResult = quotes.map Quote.bar := by
  induction hquotes generalizing bars with
  | nil =>
    rw [List.mapM_nil] at h
    rw [← Option.some.inj h]
    rfl
  | cons hq _ ih =>
    rw [List.mapM_cons, Option.bind_eq_bind, Option.bind_eq_some_iff] at h
    obtain ⟨bar, hbar, h⟩ := h
    rw [Option.bind_eq_bind, Option.bind_eq_some_iff] at h
    obtain ⟨rest, hrest, h⟩ := h
    rw [← Option.some.inj h, List.map_cons, List.map_cons, readBar_eq hbar hq, ih hrest]

theorem readBars_eq {doc : Json} {quotes : List Quote} {out : AggregateBars} (h : readBars doc = some out)
    (hdoc : Describes doc quotes) : out.results = quotes.map Quote.bar := by
  obtain ⟨results, hresults, hquotes⟩ := hdoc
  unfold readBars at h
  simp only [hresults, Option.bind_eq_bind, Option.bind_some, Option.bind_eq_some_iff] at h
  obtain ⟨ticker, -, adjusted, -, queryCount, -, resultCount, -, bars, hbars, h⟩ := h
  rw [← Option.some.inj h]
  exact mapM_readBar_eq hquotes hbars

/-- A data provider: what it answers for each request at each time, and the bars that it has then.  A validator stands
for one content, no answer is a `304` by itself, and a document sent with a success has the bars. -/
structure Provider (lib : Simdjson) where
  answer : AggregateBarsArgs → ℤ → Response
  quotes : AggregateBarsArgs → ℤ → List Quote
  validators : ∀ a t u hdr, hdr ∈ validators (answer a t) → hdr ∈ Http.validators (answer a u) →
    SameContent (answer a t) (answer a u)
  status : ∀ a t, (answer a t).status ≠ HttpStatusCode.notModified
  describes : ∀ a t doc, 200 ≤ (answer a t).status → (answer a t).status < 300 →
    lib.iterate (answer a t).body = some doc → Describes doc (quotes a t)

namespace Provider

variable {lib : Simdjson}

/-- The provider behind its URLs. -/
def site (provider : Provider lib) : Site := fun url t =>
  match readUrl url with
  | some a => provider.answer a t
  | none => { status := 404 }

theorem sound_site (provider : Provider lib) : provider.site.Sound := by
  refine ⟨fun url t u hdr ht hu => ?_, fun url t => ?_⟩
  · unfold site at ht hu ⊢
    cases hurl : readUrl url with
    | none => exact SameContent.refl _
    | some a =>
      rw [hurl] at ht hu
      exact provider.validators a t u hdr ht hu
  · unfold site
    cases readUrl url with
    | none => exact (by decide : (404 : ℤ) ≠ HttpStatusCode.notModified)
    | some a => exact provider.status a t

end Provider

theorem head?_append_of_eq {s : Text} {c : Char} (h : s.head? = some c) (rest : Text) :
    (s ++ rest).head? = some c := by
  rw [List.head?_append, h, Option.some_or]

/-- The headers of a request are not those that ask for a version. -/
theorem plain_buildCustomAggregateBars (site : Site) (apiKey : Text) (a : AggregateBarsArgs) :
    Plain site (buildCustomAggregateBars apiKey a) := by
  intro hdr hmem t hval
  have hrequest : hdr.head? = some 'A' := by
    rcases List.mem_cons.1 hmem with rfl | hmem
    · exact head?_append_of_eq (by decide +kernel) apiKey
    · rw [List.mem_singleton.1 hmem]
      decide +kernel
  have hvalidator : hdr.head? = some 'I' := by
    unfold validators at hval
    rcases List.mem_append.1 hval with hval | hval
    · split at hval
      · cases hval
      · rw [List.mem_singleton.1 hval]
        exact head?_append_of_eq (by decide +kernel) _
    · split at hval
      · cases hval
      · rw [List.mem_singleton.1 hval]
        exact head?_append_of_eq (by decide +kernel) _
  rw [hrequest] at hvalidator
  exact absurd hvalidator (by decide)

section Calls

variable {lib : Simdjson} {client : Client} {provider : Provider lib} {server : Server} {lag : ℤ}
  (httl : 0 ≤ client.policy.ttlS) (hc : client.policy.enableCaching = true)
  (hserver : server.Honest provider.site client.clock lag) (hmono : Monotone client.clock)
include httl hc hserver hmono

end Calls

/-- A daily bar of a symbol at one price. -/
def dailyQuote (symbol : Symbol) (price : ℚ) : Quote := ⟨symbol, 1000, price, price, price, price, 1735689600000⟩

/-- The document with this bar. -/
def dailyDocument (symbol : Symbol) (price : ℚ) : Json :=
  .obj [("ticker", .str symbol), ("adjusted", .bool true), ("queryCount", .int 1), ("resultsCount", .int 1),
    ("results", .arr [.obj [("v", .int 1000), ("vw", .float price), ("o", .float price), ("c", .float price),
      ("h", .float price), ("l", .float price), ("t", .int 1735689600000), ("n", .int 7), ("ticker", .str symbol)]])]

/-- Texts that say which of two documents they stand for, and of which symbol. -/
def twoPrices : Simdjson where
  iterate
    | '1' :: symbol => some (dailyDocument (String.ofList symbol) 101)
    | '0' :: symbol => some (dailyDocument (String.ofList symbol) 100)
    | _ => none
  what _ := ""

/-- A provider that corrects a bar after five minutes. -/
def correctingProvider : Provider twoPrices where
  answer a t :=
    if t < 1700000300 then { status := 200, body := '0' :: a.symbol.toList, etag := "0".toList }
    else { status := 200, body := '1' :: a.symbol.toList, etag := "1".toList }
  quotes a t := [dailyQuote a.symbol (if t < 1700000300 then 100 else 101)]
  validators a t u hdr ht hu := by
    split_ifs at ht hu ⊢
    · exact SameContent.refl _
    · have hmem : "If-None-Match: ".toList ++ "0".toList ∈ Http.validators { etag := "1".toList } :=
        List.mem_singleton.1 ht ▸ hu
      exact absurd hmem (by decide +kernel)
    · have hmem : "If-None-Match: ".toList ++ "1".toList ∈ Http.validators { etag := "0".toList } :=
        List.mem_singleton.1 ht ▸ hu
      exact absurd hmem (by decide +kernel)
    · exact SameContent.refl _
  status a t := by
    split <;> exact (by decide : (200 : ℤ) ≠ HttpStatusCode.notModified)
  describes a t doc _ _ hdoc := by
    have hdescribes : ∀ price, Describes (dailyDocument (String.ofList a.symbol.toList) price)
        [dailyQuote a.symbol price] := by
      intro price
      rw [String.ofList_toList]
      exact ⟨_, rfl, List.Forall₂.cons ⟨rfl, rfl, rfl, rfl, rfl, rfl, rfl⟩ List.Forall₂.nil⟩
    split at hdoc
    · rename_i ht
      rw [← Option.some.inj hdoc, if_pos ht]
      exact hdescribes 100
    · rename_i ht
      rw [← Option.some.inj hdoc, if_neg ht]
      exact hdescribes 101

def dailyArgs : AggregateBarsArgs := ⟨1, "AAPL", "2025-01-01", "2025-02-01", "day"⟩

end Http

end QuantForge
