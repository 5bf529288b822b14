import QuantForge.CurlHeaders
import QuantForge.MetaFiles

/-!
# The client on a machine

The HTTP client with everything it is made of: the header lines of the transfers go into its fields, the header lines
of a request into a list that libcurl keeps a pointer to, and its cache is two files for each URL.  The client over a
store of `HttpClient` says what this is for: any calls, with retries or without, return the same, send the same and
sleep the same, and leave the same in the cache (`DiskClient.runCalls_refines`).  No two of the URLs may have the same
hash, the header lines delivered may have no spaces but blanks before their ends, and each request needs a header line
of its own: `set_headers` frees the last list and sets the option again only if there is a new one.
-/

namespace QuantForge

namespace Http

open HttpStatusCode
open Strings (isSpace)

/-! ### The loop over any client -/

/-- What the loop of `get_with_retries` needs of a client: `get`, the clock, the random delays and the sleeps. -/
structure Attempts (σ : Type) where
  get : σ → Except Exception Response × σ
  now : σ → ℤ
  tick : σ → σ
  jitter : σ → ℤ
  sleepFor : σ → ℤ → σ

namespace Attempts

variable {σ τ : Type}

/-- `get_retry_delay`. -/
def getRetryDelay (A : Attempts σ) (p : RetryPolicy) (delay : ℤ) (s : σ) : ℤ × σ :=
  (min (delay * 2) p.maxDelay, A.sleepFor s (delay + A.jitter s))

/-- The loop of `get_with_retries`, with the number of attempts that are left. -/
def retryLoop (A : Attempts σ) (p : RetryPolicy) : ℕ → ℤ → σ → Except Exception Response × σ
  | 0, _, s => (.ok {}, s)
  | left + 1, delay, s =>
    match A.get s with
    | (.ok resp, s) =>
      if isRetryableHttp resp.status && decide (0 < left) then
        A.retryLoop p left (A.getRetryDelay p delay s).1 (A.getRetryDelay p delay s).2
      else if resp.status ≠ tooManyRequests then (.ok resp, s)
      else if resp.retryAfter ≠ [] then
        let wait := (Strings.strtol resp.retryAfter).1
        A.retryLoop p left delay (if 0 < wait then A.sleepFor s (wait * 1000) else s)
      else if resp.rateLimitRemaining = 0 ∧ 0 < resp.rateLimitReset then
        let now := A.now s
        let wait := if now < resp.rateLimitReset then resp.rateLimitReset - now else 1
        A.retryLoop p left delay (A.sleepFor (A.tick s) (wait * 1000))
      else if 0 < left then A.retryLoop p left (A.getRetryDelay p delay s).1 (A.getRetryDelay p delay s).2
      else (.ok resp, s)
    | (.error e, s) =>
      if 0 < left then A.retryLoop p left (A.getRetryDelay p delay s).1 (A.getRetryDelay p delay s).2
      else (.error e, s)

/-- `get_with_retries`. -/
def getWithRetries (A : Attempts σ) (p : RetryPolicy) (s : σ) : Except Exception Response × σ :=
  A.retryLoop p p.maxTries p.baseDelay s

/-- A call of the client. -/
inductive Call
  | get (req : Request)
  | getWithRetries (req : Request) (p : RetryPolicy)

def Call.req : Call → Request
  | get req => req
  | getWithRetries req _ => req

def call (A : Request → Attempts σ) : Call → σ → Except Exception Response × σ
  | .get req, s => (A req).get s
  | .getWithRetries req p, s => (A req).getWithRetries p s

/-- Some calls, one after the other. -/
def runCalls (A : Request → Attempts σ) : List Call → σ → List (Except Exception Response) × σ
  | [], s => ([], s)
  | next :: calls, s =>
    let first := call A next s
    (first.1 :: (runCalls A calls first.2).1, (runCalls A calls first.2).2)

/-- What `get`, the clock and the sleeps keep, the loop keeps; and it returns what some `get` on the way has returned,
or an empty response when no attempt is left. -/
theorem retryLoop_induction {A : Attempts σ} {J : σ → Prop} (hget : ∀ s, J s → J (A.get s).2)
    (htick : ∀ s, J s → J (A.tick s)) (hsleep : ∀ s ms, J s → J (A.sleepFor s ms)) (p : RetryPolicy) (left : ℕ)
    (delay : ℤ) {s : σ} (hs : J s) :
    J (A.retryLoop p left delay s).2 ∧
      ((∃ s', J s' ∧ A.retryLoop p left delay s = A.get s') ∨ (A.retryLoop p left delay s).1 = .ok {}) := by
  induction left generalizing delay s with
  | zero => exact ⟨hs, Or.inr rfl⟩
  | succ left ih =>
    have hJ := hget s hs
    have hlast : J (A.get s).2 ∧ ((∃ s', J s' ∧ A.get s = A.get s') ∨ (A.get s).1 = .ok {}) :=
      ⟨hJ, Or.inl ⟨s, hs, rfl⟩⟩
    unfold Attempts.retryLoop
    rcases hanswer : A.get s with ⟨e | resp, s'⟩ <;> rw [hanswer] at hJ hlast
    · dsimp only
      split
      · exact ih _ (hsleep _ _ hJ)
      · exact hlast
    · dsimp only
      split
      · exact ih _ (hsleep _ _ hJ)
      · split
        · exact hlast
        · split
          · refine ih delay ?_
            split
            · exact hsleep _ _ hJ
            · exact hJ
          · split
            · exact ih delay (hsleep _ _ (htick _ hJ))
            · split
              · exact ih _ (hsleep _ _ hJ)
              · exact hlast

/-- Related clients return the same and stay related. -/
structure Simulates (R : σ → τ → Prop) (A : Attempts σ) (B : Attempts τ) : Prop where
  get : ∀ s t, R s t → (A.get s).1 = (B.get t).1 ∧ R (A.get s).2 (B.get t).2
  now : ∀ s t, R s t → A.now s = B.now t
  tick : ∀ s t, R s t → R (A.tick s) (B.tick t)
  jitter : ∀ s t, R s t → A.jitter s = B.jitter t
  sleepFor : ∀ s t ms, R s t → R (A.sleepFor s ms) (B.sleepFor t ms)

section Simulates

variable {R : σ → τ → Prop} {A : Attempts σ} {B : Attempts τ} {p : RetryPolicy} {s : σ} {t : τ}

theorem Simulates.getRetryDelay (h : Simulates R A B) (hR : R s t) (delay : ℤ) :
    (A.getRetryDelay p delay s).1 = (B.getRetryDelay p delay t).1 ∧
      R (A.getRetryDelay p delay s).2 (B.getRetryDelay p delay t).2 := by
  refine ⟨rfl, ?_⟩
  unfold Attempts.getRetryDelay
  rw [h.jitter s t hR]
  exact h.sleepFor s t _ hR

theorem Simulates.retryLoop (h : Simulates R A B) (left : ℕ) (delay : ℤ) (hR : R s t) :
    (A.retryLoop p left delay s).1 = (B.retryLoop p left delay t).1 ∧
      R (A.retryLoop p left delay s).2 (B.retryLoop p left delay t).2 := by
  induction left generalizing delay s t with
  | zero => exact ⟨rfl, hR⟩
  | succ left ih =>
    obtain ⟨hanswer, hafter⟩ := h.get s t hR
    unfold Attempts.retryLoop
    rcases hs : A.get s with ⟨rs, s'⟩
    rcases ht : B.get t with ⟨rt, t'⟩
    rw [hs, ht] at hanswer hafter
    obtain rfl : rs = rt := hanswer
    have hdelay := h.getRetryDelay (p := p) hafter delay
    rcases rs with e | resp
    · dsimp only
      split
      · rw [hdelay.1]
        exact ih _ hdelay.2
      · exact ⟨rfl, hafter⟩
    · dsimp only
      split
      · rw [hdelay.1]
        exact ih _ hdelay.2
      · split
        · exact ⟨rfl, hafter⟩
        · split
          · refine ih delay ?_
            split
            · exact h.sleepFor _ _ _ hafter
            · exact hafter
          · split
            · rw [h.now _ _ hafter]
              exact ih delay (h.sleepFor _ _ _ (h.tick _ _ hafter))
            · split
              · rw [hdelay.1]
                exact ih _ hdelay.2
              · exact ⟨rfl, hafter⟩

theorem Simulates.call {A : Request → Attempts σ} {B : Request → Attempts τ} {next : Call}
    (h : Simulates R (A next.req) (B next.req)) (hR : R s t) :
    (call A next s).1 = (Attempts.call B next t).1 ∧ R (Attempts.call A next s).2 (Attempts.call B next t).2 := by
  cases next with
  | get req => exact h.get s t hR
  | getWithRetries req p => exact h.retryLoop p.maxTries p.baseDelay hR

theorem Simulates.runCalls {A : Request → Attempts σ} {B : Request → Attempts τ} {calls : List Call}
    (h : ∀ next ∈ calls, Simulates R (A next.req) (B next.req)) (hR : R s t) :
    (runCalls A calls s).1 = (Attempts.runCalls B calls t).1 ∧
      R (Attempts.runCalls A calls s).2 (Attempts.runCalls B calls t).2 := by
  induction calls generalizing s t with
  | nil => exact ⟨rfl, hR⟩
  | cons next calls ih =>
    rw [List.forall_mem_cons] at h
    obtain ⟨hanswer, hafter⟩ := Simulates.call h.1 hR
    obtain ⟨hrest, hend⟩ := ih h.2 hafter
    exact ⟨congrArg₂ List.cons hanswer hrest, hend⟩

end Simulates

end Attempts

/-- The client over a store. -/
def Client.attempts (client : Client) (req : Request) : Attempts World where
  get := get client req
  now w := client.clock w.readings
  tick := World.tick
  jitter w := client.jitter w.sleeps.length
  sleepFor := World.sleepFor

/-- The loop of the client over the store of entries is the loop over its attempts. -/
theorem retryLoop_eq_attempts (client : Client) (req : Request) (p : RetryPolicy) (left : ℕ) (delay : ℤ) (w : World) :
    retryLoop client req p left delay w = (client.attempts req).retryLoop p left delay w := by
  induction left generalizing delay w with
  | zero => rfl
  | succ left ih =>
    have hget : (client.attempts req).get w = get client req w := rfl
    unfold retryLoop Attempts.retryLoop
    rw [hget]
    rcases get client req w with ⟨e | resp, w'⟩ <;> simp only [ih] <;> rfl

/-! ### The client and its machine -/

/-- What `CURLOPT_HTTPHEADER` is set to: nothing yet, the list of the client, or a list that it has freed since. -/
inductive HeaderList
  | unset
  | set (lines : List Text)
  | freed
  deriving DecidableEq

/-- `set_headers`: the last list is freed, and without header lines the option is left as it is. -/
def HeaderList.setHeaders : HeaderList → List Text → HeaderList
  | unset, [] => unset
  | set _, [] => freed
  | freed, [] => freed
  | _, hs => set hs

/-- What a client finds and leaves on its machine: the transfers to come as libcurl delivers them, its fields, the
list of header lines, the files, the readings of the clock so far, and what it has sent and slept. -/
structure Host where
  transfers : List Transfer
  self : CurlEasy := {}
  headers : HeaderList := .unset
  disk : Disk := ∅
  readings : ℕ := 0
  sent : List Request := []
  sleeps : List ℤ := []

namespace Host

def tick (h : Host) : Host := { h with readings := h.readings + 1 }

def sleepFor (h : Host) (ms : ℤ) : Host := { h with sleeps := h.sleeps ++ [ms] }

/-- `perform_throw` and `make_response`: the next transfer, of a request with the given header lines. -/
def perform (req : Request) (lines : List Text) (h : Host) : Except Exception Response × Host :=
  let h := { h with sent := h.sent ++ [{ req with headers := lines }] }
  match h.transfers with
  | [] => (.error performFailed, h)
  | t :: transfers => ((h.self.transfer t).1, { h with transfers, self := (h.self.transfer t).2 })

end Host

/-- A client with the hash of its library; `unset` is what the `unix_ts_s_` of a `Meta` happens to be before
`load_meta`, and `freed` what libcurl finds where a list of header lines was. -/
structure DiskClient extends Client where
  hash : Text → ℕ
  unset : Host → ℤ
  freed : Host → List Text

namespace DiskClient

/-- The header lines libcurl sends. -/
def linesSent (c : DiskClient) (h : Host) : List Text :=
  match h.headers with
  | .unset => []
  | .set lines => lines
  | .freed => c.freed h

/-- `set_headers` and the transfer behind it. -/
def performWith (c : DiskClient) (req : Request) (hdrs : List Text) (h : Host) : Except Exception Response × Host :=
  let h := { h with headers := h.headers.setHeaders hdrs }
  h.perform req (c.linesSent h)

/-- `cache_response` at the time of the next reading. -/
def cacheAnswer (c : DiskClient) (req : Request) (r : Response) (h : Host) : Host :=
  if c.policy.enableCaching then
    let disk := h.disk.cacheResponse c.hash c.policy (c.clock h.readings) req r
    ({ h with disk } : Host).tick
  else h

/-- The rest of `get` behind the cache. -/
def getFromServer (c : DiskClient) (req : Request) (hit : Option Hit) (h : Host) : Except Exception Response × Host :=
  match c.performWith req (req.headers ++ (hit.map conditionalHeaders).getD []) h with
  | (.error e, h) => (.error e, h)
  | (.ok r, h) =>
    match hit with
    | some hit =>
      if r.status = notModified then
        let disk := h.disk.refreshMetaTimestamp c.hash (c.clock h.readings) hit
        (.ok (getCachedResponse hit), ({ h with disk } : Host).tick)
      else (.ok r, c.cacheAnswer req r h)
    | none => (.ok r, c.cacheAnswer req r h)

/-- `CurlEasy::get`. -/
def get (c : DiskClient) (req : Request) (h : Host) : Except Exception Response × Host :=
  match h.disk.probe c.hash (c.unset h) c.policy req with
  | some hit =>
    if freshEnough c.policy (c.clock h.readings) hit.entry.metadata then (.ok (getCachedResponse hit), h.tick)
    else c.getFromServer req (some hit) h.tick
  | none => c.getFromServer req none h

def attempts (c : DiskClient) (req : Request) : Attempts Host where
  get := c.get req
  now h := c.clock h.readings
  tick := Host.tick
  jitter h := c.jitter h.sleeps.length
  sleepFor := Host.sleepFor

end DiskClient

/-! ### What header lines leave in the fields -/

/-- A line as libcurl delivers it: blanks are the only spaces before its end. -/
def IsHeaderLine (line : Text) : Prop :=
  ∃ text stop, line = text ++ stop ∧ (∀ c ∈ text, isSpace c = true → Strings.isBlank c = true) ∧
    ∀ c ∈ stop, isLineEnd c = true

/-- A transfer whose headers are header lines and whose status is a `long`. -/
structure Transfer.Deliverable (t : Transfer) : Prop where
  headers : ∀ line ∈ t.headers, IsHeaderLine line
  status : ∀ d, t.result = .ok d → IsLong d.status

theorem rdropWhile_append_of_pos {p : Char → Bool} {s stop : Text} (h : ∀ c ∈ stop, p c = true) :
    (s ++ stop).rdropWhile p = s.rdropWhile p := by
  induction stop using List.reverseRecOn with
  | nil => rw [List.append_nil]
  | append_singleton stop c ih =>
    rw [← List.append_assoc, List.rdropWhile_concat_pos _ _ _ (h c (by simp))]
    exact ih fun c hc => h c (by simp [hc])

theorem isLineEnd_of_isBlank {c : Char} (h : Strings.isBlank c = true) : isLineEnd c = true := by
  unfold Strings.isBlank at h
  unfold isLineEnd
  grind

/-- What is behind the key of a header line has no line break and no space at its ends. -/
theorem IsHeaderLine.oneLine_behindKey {line : Text} (h : IsHeaderLine line) (key : Text) :
    OneLine (behindKey line key) := by
  obtain ⟨text, stop, rfl, htext, hstop⟩ := h
  have hstop' : ∀ c ∈ stop.drop (key.length - text.length), isLineEnd c = true :=
    fun c hc => hstop c (List.mem_of_mem_drop hc)
  unfold behindKey
  rw [List.drop_append, List.dropWhile_append]
  split
  · -- there is nothing but blanks
    rw [List.rdropWhile_eq_nil_iff.2 fun c hc => hstop' c ((List.dropWhile_sublist _).subset hc)]
    exact oneLine_of_any (by simp) rfl rfl
  · rw [rdropWhile_append_of_pos hstop']
    have hmem : ∀ c ∈ (((text.drop key.length).dropWhile Strings.isBlank).rdropWhile isLineEnd), c ∈ text := by
      intro c hc
      exact List.mem_of_mem_drop ((List.dropWhile_sublist _).subset ((List.rdropWhile_prefix _ _).subset hc))
    refine ⟨fun hc => ?_, fun c hc => ?_, fun c hc => ?_⟩
    · exact absurd (htext _ (hmem _ hc) (by decide)) (by decide)
    · by_contra hspace
      have hblank := htext c (hmem c (List.mem_of_mem_head? hc)) (by simpa using hspace)
      obtain ⟨rest, hrest⟩ := List.rdropWhile_prefix isLineEnd ((text.drop key.length).dropWhile Strings.isBlank)
      have hhead := List.head?_dropWhile_not Strings.isBlank (text.drop key.length)
      rw [← hrest, List.head?_append, Option.mem_def.1 hc] at hhead
      have hnot : Strings.isBlank c = false := hhead
      rw [hblank] at hnot
      cases hnot
    · by_contra hspace
      have hblank := htext c (hmem c (List.mem_of_mem_getLast? hc)) (by simpa using hspace)
      have hne : ((text.drop key.length).dropWhile Strings.isBlank).rdropWhile isLineEnd ≠ [] := by
        rintro hnil
        rw [hnil] at hc
        cases hc
      have hlast := List.rdropWhile_last_not _ _ hne
      rw [List.getLast?_eq_some_getLast hne, Option.mem_some_iff] at hc
      rw [hc] at hlast
      exact hlast (isLineEnd_of_isBlank hblank)

theorem isLong_strtol (s : Text) : IsLong (Strings.strtol s).1 := by
  unfold Strings.strtol
  split
  · exact ⟨by show Strings.int64Min ≤ 0; decide, by show 0 ≤ Strings.int64Max; decide⟩
  · exact ⟨le_max_left _ _, max_le (by decide) (min_le_left _ _)⟩

/-- The fields of a client that can be stored with a response. -/
structure CurlEasy.Storable (c : CurlEasy) : Prop where
  etag : OneLine c.lastEtag
  lastModified : OneLine c.lastLastModified
  contentType : OneLine c.lastContentType
  cacheControl : OneLine c.lastCacheControl
  retryAfter : OneLine c.lastRetryAfter
  rateLimitRemaining : IsLong c.lastRlRemaining
  rateLimitReset : IsLong c.lastRlReset

theorem oneLine_nil : OneLine [] := oneLine_of_any (by simp) rfl rfl

theorem IsHeaderLine.oneLine_getD {line : Text} (h : IsHeaderLine line) (key : Text) {old : Text}
    (hold : OneLine old) :
    OneLine ((extractHeaderValue line key).getD old) := by
  unfold extractHeaderValue
  split
  · exact h.oneLine_behindKey key
  · exact hold

theorem isLong_getD (line key : Text) {old : ℤ} (hold : IsLong old) :
    IsLong ((extractHeaderLong line key).getD old) := by
  unfold extractHeaderLong
  split
  · dsimp only
    split
    · exact hold
    · exact isLong_strtol _
  · exact hold

theorem CurlEasy.Storable.headers {self : CurlEasy} (h : self.Storable) {lines : List Text}
    (hlines : ∀ line ∈ lines, IsHeaderLine line) : (lines.foldl CurlEasy.headerCb self).Storable := by
  induction lines generalizing self with
  | nil => exact h
  | cons line lines ih =>
    rw [List.forall_mem_cons] at hlines
    refine ih ?_ hlines.2
    exact ⟨hlines.1.oneLine_getD _ h.etag, hlines.1.oneLine_getD _ h.lastModified,
      hlines.1.oneLine_getD _ h.contentType, hlines.1.oneLine_getD _ h.cacheControl,
      hlines.1.oneLine_getD _ h.retryAfter, isLong_getD _ _ h.rateLimitRemaining, isLong_getD _ _ h.rateLimitReset⟩

/-- A transfer leaves fields that can be stored, and so is its response. -/
theorem CurlEasy.Storable.transfer {self : CurlEasy} (h : self.Storable) {t : Transfer} (ht : t.Deliverable) :
    (self.transfer t).2.Storable ∧
      ∀ r, (self.transfer t).1 = .ok r → ∀ now, IsLong now → Http.Storable (metaOf r now) := by
  have hprepared : self.prepareForNewRequest.Storable :=
    ⟨h.etag, h.lastModified, h.contentType, h.cacheControl, h.retryAfter, h.rateLimitRemaining, h.rateLimitReset⟩
  have hread := hprepared.headers ht.headers
  unfold CurlEasy.transfer
  rcases hresult : t.result with e | d
  · exact ⟨hread, fun r hr => by cases hr⟩
  · refine ⟨⟨oneLine_nil, oneLine_nil, oneLine_nil, oneLine_nil, oneLine_nil, hread.rateLimitRemaining,
      hread.rateLimitReset⟩, fun r hr now hnow => ?_⟩
    cases hr
    exact ⟨ht.status d hresult, hread.etag, hread.lastModified, hread.contentType, hread.cacheControl,
      hread.retryAfter, hread.rateLimitRemaining, hread.rateLimitReset, hnow⟩

/-! ### The simulation -/

/-- The outcomes of transfers, one after the other. -/
def outcomesOf (self : CurlEasy) : List Transfer → List (Except Exception Response)
  | [] => []
  | t :: transfers => (self.transfer t).1 :: outcomesOf (self.transfer t).2 transfers

/-- The machine is in the state the world is in: the files hold the store, and the transfers to come have the outcomes
to come; and what will be stored can be read back. -/
structure Mirrors (c : DiskClient) (urls : Set Text) (h : Host) (w : World) : Prop where
  outcomes : w.outcomes = outcomesOf h.self h.transfers
  holds : Disk.Holds c.hash urls h.disk w.store
  readings : w.readings = h.readings
  sent : w.sent = h.sent
  sleeps : w.sleeps = h.sleeps
  fields : h.self.Storable
  transfers : ∀ t ∈ h.transfers, t.Deliverable

section Mirrors

variable {c : DiskClient} {urls : Set Text} {h : Host} {w : World}

theorem Mirrors.tick (hm : Mirrors c urls h w) : Mirrors c urls h.tick w.tick :=
  ⟨hm.outcomes, hm.holds, congrArg (· + 1) hm.readings, hm.sent, hm.sleeps, hm.fields, hm.transfers⟩

theorem Mirrors.sleepFor (hm : Mirrors c urls h w) (ms : ℤ) : Mirrors c urls (h.sleepFor ms) (w.sleepFor ms) :=
  ⟨hm.outcomes, hm.holds, hm.readings, hm.sent, congrArg (· ++ [ms]) hm.sleeps, hm.fields, hm.transfers⟩

theorem Mirrors.replay (hm : Mirrors c urls h w) (hit : Hit) : Mirrors c urls h (w.replay hit) :=
  ⟨hm.outcomes, hm.holds, hm.readings, hm.sent, hm.sleeps, hm.fields, hm.transfers⟩

end Mirrors

namespace DiskClient

variable {c : DiskClient} {urls : Set Text} {req : Request} {h : Host} {w : World}

/-- A request with header lines is sent with them, whatever was sent before. -/
theorem performWith_eq (req : Request) {hdrs : List Text} (hne : hdrs ≠ []) (h : Host) :
    c.performWith req hdrs h = ({ h with headers := .set hdrs } : Host).perform req hdrs := by
  have hset : h.headers.setHeaders hdrs = .set hdrs := by
    unfold HeaderList.setHeaders
    split <;> first | rfl | exact absurd rfl hne
  rw [performWith, hset]
  rfl

/-- A request without header lines, after one with some, is sent with what is found where the list was. -/
theorem sent_performWith_nil (req : Request) (h : Host) (hset : h.headers ≠ .unset) :
    (c.performWith req [] h).2.sent = h.sent ++ [{ req with headers := c.freed { h with headers := .freed } }] := by
  have hfreed : h.headers.setHeaders [] = .freed := by
    rcases hh : h.headers with _ | lines | _
    · exact absurd hh hset
    · rfl
    · rfl
  rw [performWith, hfreed]
  unfold Host.perform
  dsimp only
  split <;> rfl

theorem mirrors_perform (hm : Mirrors c urls h w) (req : Request) {hdrs : List Text} (hne : hdrs ≠ []) :
    (c.performWith req hdrs h).1 = (perform req hdrs w).1 ∧
      Mirrors c urls (c.performWith req hdrs h).2 (perform req hdrs w).2 ∧
      ∀ r, (c.performWith req hdrs h).1 = .ok r → ∀ now, IsLong now → Storable (metaOf r now) := by
  have houtcomes := hm.outcomes
  rw [performWith_eq req hne]
  unfold Host.perform Http.perform
  rcases htransfers : h.transfers with _ | ⟨t, transfers⟩
  · rw [htransfers, outcomesOf] at houtcomes
    dsimp only
    rw [houtcomes]
    refine ⟨rfl, ⟨rfl, hm.holds, hm.readings, ?_, hm.sleeps, hm.fields, ?_⟩, fun r hr => by cases hr⟩
    · dsimp only
      rw [hm.sent]
    · intro t ht
      cases ht
  · rw [htransfers, outcomesOf] at houtcomes
    obtain ⟨hfields, hstorable⟩ := hm.fields.transfer (hm.transfers t (by simp [htransfers]))
    dsimp only
    rw [houtcomes]
    refine ⟨rfl, ⟨rfl, hm.holds, hm.readings, ?_, hm.sleeps, hfields, ?_⟩, hstorable⟩
    · dsimp only
      rw [hm.sent]
    · exact fun t' ht' => hm.transfers t' (by rw [htransfers]; exact List.mem_cons_of_mem _ ht')

section Simulation

variable (hinj : Set.InjOn c.hash urls) (hclock : ∀ n, IsLong (c.clock n)) (hreq : req.url ∈ urls)
  (hlines : req.headers ≠ [])
include hinj hclock hreq

theorem mirrors_cacheAnswer (hm : Mirrors c urls h w) {r : Response}
    (hr : ∀ now, IsLong now → Storable (metaOf r now)) :
    Mirrors c urls (c.cacheAnswer req r h) (Http.cacheAnswer c.toClient req r w) := by
  have hstored : Disk.Holds c.hash urls (h.disk.cacheResponse c.hash c.policy (c.clock h.readings) req r)
      (Http.cacheResponse c.policy (c.clock h.readings) w.store req r) :=
    hm.holds.cacheResponse hinj hreq (hr _ (hclock h.readings))
  unfold DiskClient.cacheAnswer Http.cacheAnswer
  split
  · refine ⟨hm.outcomes, ?_, congrArg (· + 1) hm.readings, hm.sent, hm.sleeps, hm.fields, hm.transfers⟩
    show Disk.Holds c.hash urls _ (Http.cacheResponse c.policy (c.clock w.readings) w.store req r)
    rw [hm.readings]
    exact hstored
  · exact hm

include hlines

theorem mirrors_getFromServer (hm : Mirrors c urls h w) {hit : Option Hit}
    (hhit : ∀ x ∈ hit, x.url = req.url ∧ w.store.lookup req.url = some x.entry) :
    (c.getFromServer req hit h).1 = (Http.getFromServer c.toClient req hit w).1 ∧
      Mirrors c urls (c.getFromServer req hit h).2 (Http.getFromServer c.toClient req hit w).2 := by
  obtain ⟨hanswer, hafter, hstorable⟩ :=
    mirrors_perform hm req (List.append_ne_nil_of_left_ne_nil hlines ((hit.map conditionalHeaders).getD []))
  have hstore : (Http.perform req (req.headers ++ (hit.map conditionalHeaders).getD []) w).2.store = w.store := by
    unfold Http.perform
    dsimp only
    split <;> rfl
  unfold DiskClient.getFromServer Http.getFromServer
  rcases hh : c.performWith req (req.headers ++ (hit.map conditionalHeaders).getD []) h with ⟨rh, h'⟩
  rcases hw : Http.perform req (req.headers ++ (hit.map conditionalHeaders).getD []) w with ⟨rw', w'⟩
  rw [hh, hw] at hanswer hafter
  rw [hh] at hstorable
  rw [hw] at hstore
  obtain rfl : rh = rw' := hanswer
  rcases rh with e | r
  · exact ⟨rfl, hafter⟩
  · have hcached := mirrors_cacheAnswer hinj hclock hreq hafter (hstorable r rfl)
    rcases hit with _ | x
    · exact ⟨rfl, hcached⟩
    · obtain ⟨hurl, hentry⟩ := hhit x rfl
      dsimp only
      split
      · refine ⟨rfl, hafter.outcomes, ?_, congrArg (· + 1) hafter.readings, hafter.sent, hafter.sleeps, hafter.fields,
          hafter.transfers⟩
        have hentry' : w'.store.lookup x.url = some x.entry := by rw [hstore, hurl, hentry]
        show Disk.Holds c.hash urls (h'.disk.refreshMetaTimestamp c.hash (c.clock h'.readings) x)
          (Http.refreshMetaTimestamp (c.clock w'.readings) w'.store x)
        rw [show w'.readings = h'.readings from hafter.readings]
        exact hafter.holds.refreshMetaTimestamp hinj (hurl ▸ hreq) hentry' (hclock h'.readings)
      · exact ⟨rfl, hcached⟩

/-- `get` on the machine returns what `get` over the store returns. -/
theorem mirrors_get (hm : Mirrors c urls h w) :
    (c.get req h).1 = (Http.get c.toClient req w).1 ∧
      Mirrors c urls (c.get req h).2 (Http.get c.toClient req w).2 := by
  unfold DiskClient.get Http.get
  rw [hm.holds.probe_eq hreq, ← hm.readings]
  rcases hprobe : Http.probe c.policy w.store req with _ | hit
  · exact mirrors_getFromServer hinj hclock hreq hlines hm fun x hx => by cases hx
  · have hhit : hit.url = req.url ∧ w.store.lookup req.url = some hit.entry := by
      unfold Http.probe at hprobe
      split at hprobe
      · obtain ⟨entry, hentry, rfl⟩ := Option.map_eq_some_iff.1 hprobe
        exact ⟨rfl, hentry⟩
      · cases hprobe
    dsimp only
    split
    · exact ⟨rfl, hm.tick.replay hit⟩
    · refine mirrors_getFromServer hinj hclock hreq hlines hm.tick fun x hx => ?_
      obtain rfl := Option.some.inj hx
      exact hhit

theorem simulates_attempts : Attempts.Simulates (Mirrors c urls) (c.attempts req) (c.toClient.attempts req) where
  get _ _ hm := mirrors_get hinj hclock hreq hlines hm
  now _ _ hm := congrArg c.clock hm.readings.symm
  tick _ _ hm := hm.tick
  jitter s t hm := by
    show c.jitter s.sleeps.length = c.jitter t.sleeps.length
    rw [hm.sleeps]
  sleepFor _ _ ms hm := hm.sleepFor ms

omit hreq hlines in
/-- Any calls of a new client with an empty cache directory, for requests with header lines and URLs without a common
hash, return, send and sleep what the client over a store does with the outcomes of the transfers, and the files hold
in the end what the store holds. -/
theorem runCalls_refines {calls : List Attempts.Call}
    (hcalls : ∀ next ∈ calls, next.req.url ∈ urls ∧ next.req.headers ≠ []) {transfers : List Transfer}
    (htransfers : ∀ t ∈ transfers, t.Deliverable) :
    let onDisk := Attempts.runCalls c.attempts calls { transfers }
    let onStore := Attempts.runCalls c.toClient.attempts calls { outcomes := outcomesOf {} transfers }
    onDisk.1 = onStore.1 ∧ onDisk.2.sent = onStore.2.sent ∧ onDisk.2.sleeps = onStore.2.sleeps ∧
      Disk.Holds c.hash urls onDisk.2.disk onStore.2.store := by
  have hfields : ({} : CurlEasy).Storable :=
    ⟨oneLine_nil, oneLine_nil, oneLine_nil, oneLine_nil, oneLine_nil, by constructor <;> decide,
      by constructor <;> decide⟩
  have hstart : Mirrors c urls { transfers } { outcomes := outcomesOf {} transfers } :=
    ⟨rfl, Disk.holds_empty, rfl, rfl, rfl, hfields, htransfers⟩
  obtain ⟨hanswers, hend⟩ := Attempts.Simulates.runCalls
    (fun next hnext => simulates_attempts hinj hclock (hcalls next hnext).1 (hcalls next hnext).2) hstart
  exact ⟨hanswers, hend.sent.symm, hend.sleeps.symm, hend.holds⟩

end Simulation

/-- A client whose clock goes on by a minute with each of a thousand readings, and whose hash is the length. -/
def minuteClient : DiskClient where
  policy := {}
  clock n := 1700000000 + 60 * min n 1000
  jitter _ := 7
  hash := List.length
  unset _ := 13
  freed _ := []

/-- A tagged answer that is stale at once, and the reply that it has not been modified. -/
def taggedTransfers : List Transfer :=
  [⟨["HTTP/2 200 \r\n", "ETag: \"v1\"\r\n", "Cache-Control: max-age=0\r\n", "\r\n"].map String.toList,
      .ok { status := 200, body := "[1]".toList }⟩,
    ⟨["HTTP/2 304 \r\n", "\r\n"].map String.toList, .ok { status := 304 }⟩]

/-- A request with a header line. -/
def jsonRequest : Request :=
  { url := "https://api.polygon.io".toList, headers := ["Accept: application/json".toList] }

/-- The second call, a plain `get`, asks with the tag of the first and returns the body from the file. -/
theorem runCalls_refines_tagged :
    let calls : List Attempts.Call := [.getWithRetries jsonRequest {}, .get jsonRequest]
    let onDisk := Attempts.runCalls minuteClient.attempts calls { transfers := taggedTransfers }
    let onStore := Attempts.runCalls minuteClient.toClient.attempts calls
      { outcomes := outcomesOf {} taggedTransfers }
    onDisk.2.sent.map (fun req => req.headers.map String.ofList) =
        [["Accept: application/json"], ["Accept: application/json", "If-None-Match: \"v1\""]] ∧
      onDisk.1.map (fun r => r.toOption.map Response.body) = [some "[1]".toList, some "[1]".toList] ∧
      onDisk.1 = onStore.1 ∧ onDisk.2.sent = onStore.2.sent ∧ onDisk.2.sleeps = onStore.2.sleeps ∧
        Disk.Holds minuteClient.hash {jsonRequest.url} onDisk.2.disk onStore.2.store := by
  refine ⟨by decide +kernel, by decide +kernel, ?_⟩
  have hinj : Set.InjOn minuteClient.hash {jsonRequest.url} := by simp
  refine runCalls_refines hinj (fun n => ?_) (fun next hnext => ?_) fun t ht => ?_
  · show IsLong (1700000000 + 60 * ((min n 1000 : ℕ) : ℤ))
    have := Nat.min_le_right n 1000
    constructor <;> simp only [Strings.int64Min, Strings.int64Max] <;> omega
  · have hreq : next.req = jsonRequest := by
      rcases List.mem_pair.1 hnext with rfl | rfl <;> rfl
    rw [hreq]
    exact ⟨rfl, by decide⟩
  · -- with the tests as functions, for only those of the characters at hand are to be evaluated
    have hline : ∀ text : String, (text.toList.all fun c => !isSpace c || Strings.isBlank c) = true →
        IsHeaderLine (text.toList ++ "\r\n".toList) := by
      intro text h
      refine ⟨_, _, rfl, fun c hc hspace => ?_, fun c hc => ?_⟩
      · have hblank := List.all_eq_true.1 h c hc
        simpa [hspace] using hblank
      · have hend : ("\r\n".toList.all isLineEnd) = true := by decide
        exact List.all_eq_true.1 hend c hc
    rcases List.mem_pair.1 ht with rfl | rfl
    · refine ⟨fun line hl => ?_, fun d hd => by cases hd; constructor <;> decide⟩
      simp only [List.map_cons, List.map_nil, List.mem_cons, List.not_mem_nil, or_false] at hl
      rcases hl with rfl | rfl | rfl | rfl
      · exact hline "HTTP/2 200 " (by decide)
      · exact hline "ETag: \"v1\"" (by decide)
      · exact hline "Cache-Control: max-age=0" (by decide)
      · exact hline "" (by decide)
    · refine ⟨fun line hl => ?_, fun d hd => by cases hd; constructor <;> decide⟩
      simp only [List.map_cons, List.map_nil, List.mem_cons, List.not_mem_nil, or_false] at hl
      rcases hl with rfl | rfl
      · exact hline "HTTP/2 304 " (by decide)
      · exact hline "" (by decide)

end DiskClient

end Http

end QuantForge
