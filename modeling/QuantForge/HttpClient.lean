import QuantForge.NetworkCache

/-!
# The HTTP client

`CurlEasy::get` and `CurlEasy::get_with_retries` (`curl_easy.cpp`) over a world: the outcomes of the transfers to
come, the cache, the readings of the clock, and what the client has done so far.  A transfer beyond the last outcome
fails.
-/

namespace QuantForge

namespace Http

/-! ### `curl_easy.hpp` -/

namespace HttpStatusCode

def tooManyRequests : ℤ := 429
def badGateway : ℤ := 502
def serviceUnavailable : ℤ := 503
def gatewayTimeout : ℤ := 504
def notModified : ℤ := 304

end HttpStatusCode

open HttpStatusCode

def isRetryableHttp (code : ℤ) : Bool :=
  code = tooManyRequests || code = badGateway || code = serviceUnavailable || code = gatewayTimeout

/-- `RetryPolicy`, with its delays in milliseconds. -/
structure RetryPolicy where
  maxTries : ℕ := 3
  baseDelay : ℤ := 300
  maxDelay : ℤ := 1500

/-- What a client is made of: the policy of its cache, the clock (the time of each reading, in seconds) and the random
delays in milliseconds. -/
structure Client where
  policy : NetworkCachePolicy
  clock : ℕ → ℤ
  jitter : ℕ → ℤ

/-- `outcomes` are the transfers to come, `store` the cache and `readings` the number of times the clock has been
read; `sent`, `sleeps` (in milliseconds) and `replayed` record the requests sent, the sleeps, and the responses the
client took from the cache. -/
structure World where
  outcomes : List (Except Exception Response)
  store : CacheStore := ∅
  readings : ℕ := 0
  sent : List Request := []
  sleeps : List ℤ := []
  replayed : List Response := []

namespace World

def tick (w : World) : World := { w with readings := w.readings + 1 }

def sleepFor (w : World) (ms : ℤ) : World := { w with sleeps := w.sleeps ++ [ms] }

/-- The response of a hit is returned. -/
def replay (w : World) (hit : Hit) : World := { w with replayed := w.replayed ++ [getCachedResponse hit] }

end World

/-! ### `curl_easy.cpp` -/

/-- The headers that ask the server whether the hit is still current. -/
def conditionalHeaders (hit : Hit) : List Text :=
  (if hit.entry.metadata.etag = [] then [] else ["If-None-Match: ".toList ++ hit.entry.metadata.etag]) ++
    if hit.entry.metadata.lastModified = [] then []
    else ["If-Modified-Since: ".toList ++ hit.entry.metadata.lastModified]

/-- A transfer nobody answers; the text of the C library is left out. -/
def performFailed : Exception := .runtimeError "curl_easy_perform failed: "

/-- `perform_throw` and `make_response`: the outcome of the next transfer. -/
def perform (req : Request) (hdrs : List Text) (w : World) : Except Exception Response × World :=
  let w := { w with sent := w.sent ++ [{ req with headers := hdrs }] }
  match w.outcomes with
  | [] => (.error performFailed, w)
  | outcome :: outcomes => (outcome, { w with outcomes })

/-- `cache_response` at the time of the next reading; without caching the clock is not read. -/
def cacheAnswer (client : Client) (req : Request) (r : Response) (w : World) : World :=
  if client.policy.enableCaching then
    let store := cacheResponse client.policy (client.clock w.readings) w.store req r
    ({ w with store } : World).tick
  else w

/-- The rest of `get` behind the cache: ask the server, and store or refresh. -/
def getFromServer (client : Client) (req : Request) (hit : Option Hit) (w : World) :
    Except Exception Response × World :=
  match perform req (req.headers ++ (hit.map conditionalHeaders).getD []) w with
  | (.error e, w) => (.error e, w)
  | (.ok r, w) =>
    match hit with
    | some hit =>
      if r.status = notModified then
        let store := refreshMetaTimestamp (client.clock w.readings) w.store hit
        (.ok (getCachedResponse hit), ({ w with store } : World).tick.replay hit)
      else (.ok r, cacheAnswer client req r w)
    | none => (.ok r, cacheAnswer client req r w)

/-- `CurlEasy::get`. -/
def get (client : Client) (req : Request) (w : World) : Except Exception Response × World :=
  match probe client.policy w.store req with
  | some hit =>
    if freshEnough client.policy (client.clock w.readings) hit.entry.metadata then
      (.ok (getCachedResponse hit), w.tick.replay hit)
    else getFromServer client req (some hit) w.tick
  | none => getFromServer client req none w

/-- `get_retry_delay`: sleep, and the next delay. -/
def getRetryDelay (client : Client) (p : RetryPolicy) (delay : ℤ) (w : World) : ℤ × World :=
  (min (delay * 2) p.maxDelay, w.sleepFor (delay + client.jitter w.sleeps.length))

/-- The loop of `get_with_retries`, with the number of attempts that are left. -/
def retryLoop (client : Client) (req : Request) (p : RetryPolicy) :
    ℕ → ℤ → World → Except Exception Response × World
  | 0, _, w => (.ok {}, w)
  | left + 1, delay, w =>
    match get client req w with
    | (.ok resp, w) =>
      if isRetryableHttp resp.status && decide (0 < left) then
        let (delay, w) := getRetryDelay client p delay w
        retryLoop client req p left delay w
      else if resp.status ≠ tooManyRequests then (.ok resp, w)
      else if resp.retryAfter ≠ [] then
        let s := (Strings.strtol resp.retryAfter).1
        retryLoop client req p left delay (if 0 < s then w.sleepFor (s * 1000) else w)
      else if resp.rateLimitRemaining = 0 ∧ 0 < resp.rateLimitReset then
        let now := client.clock w.readings
        let wait := if now < resp.rateLimitReset then resp.rateLimitReset - now else 1
        retryLoop client req p left delay (w.tick.sleepFor (wait * 1000))
      else if 0 < left then
        let (delay, w) := getRetryDelay client p delay w
        retryLoop client req p left delay w
      else (.ok resp, w)
    | (.error e, w) =>
      if 0 < left then
        let (delay, w) := getRetryDelay client p delay w
        retryLoop client req p left delay w
      else (.error e, w)

/-- `CurlEasy::get_with_retries`. -/
def getWithRetries (client : Client) (req : Request) (p : RetryPolicy) (w : World) :
    Except Exception Response × World :=
  retryLoop client req p p.maxTries p.baseDelay w

end Http

end QuantForge
