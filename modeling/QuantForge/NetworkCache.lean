import QuantForge.Strings
import QuantForge.AssocMap

/-!
# The network cache

`network_cache.cpp` as a store keyed by the URL: what is found, when it is fresh, and what is stored of a response.
Times are in seconds, read from the system clock by the callers.
-/

namespace QuantForge

namespace Http

abbrev Text := List Char

/-! ### `model.hpp` -/

structure Request where
  url : Text
  method : Text := "GET".toList
  body : Text := []
  headers : List Text := []
  deriving DecidableEq

structure Response where
  rateLimitRemaining : ℤ := -1
  rateLimitReset : ℤ := -1
  status : ℤ := 0
  body : Text := []
  effectiveUrl : Text := []
  etag : Text := []
  lastModified : Text := []
  retryAfter : Text := []
  cacheControl : Text := []
  contentType : Text := []
  deriving DecidableEq

/-! ### `network_cache.hpp` -/

def oneDayS : ℤ := 60 * 60 * 24

namespace CacheControlKeys

def maxAgeKey : Text := "max-age".toList
def noCacheKey : Text := "no-cache".toList
def noStoreKey : Text := "no-store".toList

end CacheControlKeys

structure NetworkCachePolicy where
  enableCaching : Bool := true
  ttlS : ℤ := oneDayS

structure Meta where
  unixTsS : ℤ
  status : ℤ := 0
  etag : Text := []
  lastModified : Text := []
  contentType : Text := []
  cacheControl : Text := []
  retryAfter : Text := []
  rateLimitRemaining : ℤ := -1
  rateLimitReset : ℤ := -1
  deriving DecidableEq

/-- What is stored for a URL: the metadata and the body. -/
structure CacheEntry where
  metadata : Meta
  body : Text
  deriving DecidableEq

abbrev CacheStore := Map Text CacheEntry

structure Hit where
  url : Text
  entry : CacheEntry

/-! ### `network_cache.cpp` -/

def probe (policy : NetworkCachePolicy) (store : CacheStore) (req : Request) : Option Hit :=
  if policy.enableCaching then (store.lookup req.url).map fun entry => ⟨req.url, entry⟩ else none

/-- The value of a `max-age` directive, if it is well formed. -/
def maxAge? (directive : Text) : Option ℤ :=
  if Strings.ieqPrefix directive CacheControlKeys.maxAgeKey && decide ('=' ∈ directive) then
    let value := Strings.strtol (Strings.trim ((directive.dropWhile (· ≠ '=')).drop 1))
    if value.2 = [] ∧ 0 ≤ value.1 then some value.1 else none
  else none

/-- The loop of `fresh_enough` over the directives: the first decisive one decides. -/
def freshByDirectives (ttlS age : ℤ) : List Text → Bool
  | [] => age ≤ ttlS
  | pair :: pairs =>
    let directive := Strings.trim pair
    if Strings.ieqPrefix directive CacheControlKeys.noStoreKey then false
    else if Strings.ieqPrefix directive CacheControlKeys.noCacheKey then age ≤ 0
    else
      match maxAge? directive with
      | some maxAge => age ≤ min ttlS maxAge
      | none => freshByDirectives ttlS age pairs

/-- `fresh_enough` at the time `now`. -/
def freshEnough (policy : NetworkCachePolicy) (now : ℤ) (m : Meta) : Bool :=
  freshByDirectives policy.ttlS (max (now - m.unixTsS) 0) (Strings.splitCommaDelimitedString m.cacheControl)

def getCachedResponse (hit : Hit) : Response where
  status := hit.entry.metadata.status
  body := hit.entry.body
  effectiveUrl := hit.url
  etag := hit.entry.metadata.etag
  lastModified := hit.entry.metadata.lastModified
  retryAfter := hit.entry.metadata.retryAfter
  rateLimitRemaining := hit.entry.metadata.rateLimitRemaining
  rateLimitReset := hit.entry.metadata.rateLimitReset
  cacheControl := hit.entry.metadata.cacheControl
  contentType := hit.entry.metadata.contentType

/-- The metadata stored of a response at the time `now`. -/
def metaOf (resp : Response) (now : ℤ) : Meta where
  status := resp.status
  etag := resp.etag
  lastModified := resp.lastModified
  contentType := resp.contentType
  cacheControl := resp.cacheControl
  retryAfter := resp.retryAfter
  rateLimitRemaining := resp.rateLimitRemaining
  rateLimitReset := resp.rateLimitReset
  unixTsS := now

def cacheResponse (policy : NetworkCachePolicy) (now : ℤ) (store : CacheStore) (req : Request) (resp : Response) :
    CacheStore :=
  if policy.enableCaching then store.insert req.url ⟨metaOf resp now, resp.body⟩ else store

/-- `refresh_meta_timestamp`: the body stays as it is stored. -/
def refreshMetaTimestamp (now : ℤ) (store : CacheStore) (hit : Hit) : CacheStore :=
  store.insert hit.url ⟨{ hit.entry.metadata with unixTsS := now }, hit.entry.body⟩

end Http

end QuantForge
