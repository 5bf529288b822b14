import QuantForge.HttpClient

/-!
# Whose headers a response has

`CurlEasy` reads the header lines of a transfer into fields of its own (`header_cb`) and moves them into the response
when the transfer has succeeded (`make_response`).  A failed transfer leaves the texts in the client, and the two
numbers of the rate limit are never reset, so a response can have headers of earlier transfers: two histories give the
same response exactly if they leave the same behind in every field the transfer does not set itself
(`sameResponse_iff`).
-/

namespace QuantForge

namespace Http

/-! ### `network_cache.cpp`: `extract_header_value` -/

/-- `constants::ASCII_LOWERCASE_BIT`. -/
def asciiLowercaseBit : ℕ := 32

/-- The line begins with the key, up to the case of ASCII letters. -/
def matchesKey (buffer key : Text) : Bool :=
  decide (key.length ≤ buffer.length) &&
    (buffer.zip key).all fun p => p.1.toNat ||| asciiLowercaseBit = p.2.toNat ||| asciiLowercaseBit

def isLineEnd (c : Char) : Bool := c = '\r' || c = '\n' || c = ' ' || c = '\t'

/-- What stands behind the key, without the blanks around it. -/
def behindKey (buffer key : Text) : Text :=
  ((buffer.drop key.length).dropWhile Strings.isBlank).rdropWhile isLineEnd

/-- The text that is assigned to the property, if any. -/
def extractHeaderValue (buffer key : Text) : Option Text :=
  if matchesKey buffer key then some (behindKey buffer key) else none

/-- The number that is assigned to the property, if any. -/
def extractHeaderLong (buffer key : Text) : Option ℤ :=
  if matchesKey buffer key then
    let tmp := behindKey buffer key
    let value := Strings.strtol tmp
    if value.2 = Strings.cStr tmp then none else some value.1
  else none

/-! ### `curl_easy.cpp` -/

namespace HeaderKeys

def contentLength : Text := "content-length:".toList
def contentType : Text := "content-type:".toList
def etag : Text := "etag:".toList
def lastModified : Text := "last-modified:".toList
def retryAfter : Text := "retry-after:".toList
def xRatelimitRemaining : Text := "x-ratelimit-remaining:".toList
def xRatelimitReset : Text := "x-ratelimit-reset:".toList
def cacheControl : Text := "cache-control:".toList

end HeaderKeys

/-- The fields of the client that are about a response. -/
structure CurlEasy where
  lastContentLength : ℤ := -1
  lastRlRemaining : ℤ := -1
  lastRlReset : ℤ := -1
  lastEtag : Text := []
  lastLastModified : Text := []
  lastRetryAfter : Text := []
  lastContentType : Text := []
  lastCacheControl : Text := []
  lastResponseHeaders : List Text := []
  deriving DecidableEq

/-- What libcurl knows of a transfer that has succeeded. -/
structure Delivered where
  status : ℤ
  body : Text := []
  effectiveUrl : Text := []

/-- A transfer: the header lines that are delivered, and how it ends. -/
structure Transfer where
  headers : List Text
  result : Except Exception Delivered

namespace CurlEasy

def prepareForNewRequest (self : CurlEasy) : CurlEasy :=
  { self with lastResponseHeaders := [], lastContentLength := -1 }

def headerCb (self : CurlEasy) (buffer : Text) : CurlEasy where
  lastResponseHeaders := self.lastResponseHeaders ++ [buffer]
  lastContentLength := (extractHeaderLong buffer HeaderKeys.contentLength).getD self.lastContentLength
  lastContentType := (extractHeaderValue buffer HeaderKeys.contentType).getD self.lastContentType
  lastEtag := (extractHeaderValue buffer HeaderKeys.etag).getD self.lastEtag
  lastLastModified := (extractHeaderValue buffer HeaderKeys.lastModified).getD self.lastLastModified
  lastRetryAfter := (extractHeaderValue buffer HeaderKeys.retryAfter).getD self.lastRetryAfter
  lastRlRemaining := (extractHeaderLong buffer HeaderKeys.xRatelimitRemaining).getD self.lastRlRemaining
  lastRlReset := (extractHeaderLong buffer HeaderKeys.xRatelimitReset).getD self.lastRlReset
  lastCacheControl := (extractHeaderValue buffer HeaderKeys.cacheControl).getD self.lastCacheControl

/-- `make_response`: the texts are moved into the response, which leaves them empty. -/
def makeResponse (self : CurlEasy) (d : Delivered) : Response × CurlEasy :=
  ({ status := d.status, body := d.body, effectiveUrl := d.effectiveUrl, etag := self.lastEtag,
     lastModified := self.lastLastModified, retryAfter := self.lastRetryAfter,
     rateLimitRemaining := self.lastRlRemaining, rateLimitReset := self.lastRlReset,
     contentType := self.lastContentType, cacheControl := self.lastCacheControl },
   { self with lastEtag := [], lastLastModified := [], lastRetryAfter := [], lastContentType := [],
               lastCacheControl := [] })

/-- The part of `get` that asks the server: `prepare_for_new_request`, `perform_throw` and `make_response`. -/
def transfer (self : CurlEasy) (t : Transfer) : Except Exception Response × CurlEasy :=
  let self := t.headers.foldl headerCb self.prepareForNewRequest
  match t.result with
  | .error e => (.error e, self)
  | .ok d => (.ok (self.makeResponse d).1, (self.makeResponse d).2)

/-- The client after some transfers. -/
def after (history : List Transfer) : CurlEasy := history.foldl (fun self t => (self.transfer t).2) {}

/-- The outcome of a transfer that follows some others. -/
def outcome (history : List Transfer) (t : Transfer) : Except Exception Response := ((after history).transfer t).1

end CurlEasy

/-! ### The fields of a response -/

/-- The texts a response has from its headers. -/
inductive TextField
  | etag | lastModified | retryAfter | contentType | cacheControl
  deriving DecidableEq

/-- The numbers a response has from its headers. -/
inductive LongField
  | rateLimitRemaining | rateLimitReset
  deriving DecidableEq

namespace TextField

def key : TextField → Text
  | etag => HeaderKeys.etag
  | lastModified => HeaderKeys.lastModified
  | retryAfter => HeaderKeys.retryAfter
  | contentType => HeaderKeys.contentType
  | cacheControl => HeaderKeys.cacheControl

def inClient (self : CurlEasy) : TextField → Text
  | etag => self.lastEtag
  | lastModified => self.lastLastModified
  | retryAfter => self.lastRetryAfter
  | contentType => self.lastContentType
  | cacheControl => self.lastCacheControl

/-- The last value the header lines give to the field. -/
def lastIn (f : TextField) (lines : List Text) : Option Text :=
  (lines.filterMap fun line => extractHeaderValue line f.key).getLast?

end TextField

namespace LongField

def key : LongField → Text
  | rateLimitRemaining => HeaderKeys.xRatelimitRemaining
  | rateLimitReset => HeaderKeys.xRatelimitReset

def inClient (self : CurlEasy) : LongField → ℤ
  | rateLimitRemaining => self.lastRlRemaining
  | rateLimitReset => self.lastRlReset

/-- The last value the header lines give to the field. -/
def lastIn (f : LongField) (lines : List Text) : Option ℤ :=
  (lines.filterMap fun line => extractHeaderLong line f.key).getLast?

end LongField

/-! ### What a transfer leaves behind -/

/-- Assigning what a function finds in the lines, one after the other, leaves the last find. -/
theorem foldl_assign {α β : Type} (find : α → Option β) (lines : List α) (old : β) :
    lines.foldl (fun v line => (find line).getD v) old = ((lines.filterMap find).getLast?).getD old := by
  induction lines using List.reverseRecOn with
  | nil => rfl
  | append_singleton lines line ih =>
    rw [List.foldl_append, List.filterMap_append, List.foldl_cons, List.foldl_nil, ih]
    rcases h : find line with _ | v <;> simp [h]

namespace CurlEasy

theorem text_headers (f : TextField) (self : CurlEasy) (lines : List Text) :
    f.inClient (lines.foldl headerCb self) = (f.lastIn lines).getD (f.inClient self) := by
  unfold TextField.lastIn
  rw [← foldl_assign]
  induction lines generalizing self with
  | nil => rfl
  | cons line lines ih =>
    rw [List.foldl_cons, List.foldl_cons, ih]
    cases f <;> rfl

theorem long_headers (f : LongField) (self : CurlEasy) (lines : List Text) :
    f.inClient (lines.foldl headerCb self) = (f.lastIn lines).getD (f.inClient self) := by
  unfold LongField.lastIn
  rw [← foldl_assign]
  induction lines generalizing self with
  | nil => rfl
  | cons line lines ih =>
    rw [List.foldl_cons, List.foldl_cons, ih]
    cases f <;> rfl

theorem after_concat (history : List Transfer) (t : Transfer) :
    after (history ++ [t]) = ((after history).transfer t).2 := by
  simp [after]

end CurlEasy

/-- The transfer has failed. -/
def Transfer.failed (t : Transfer) : Bool := t.result.toOption.isNone

/-- The header lines delivered since the last transfer that has succeeded. -/
def linesSinceSuccess (history : List Transfer) : List Text :=
  (history.rtakeWhile Transfer.failed).flatMap Transfer.headers

/-- All header lines delivered. -/
def allLines (history : List Transfer) : List Text := history.flatMap Transfer.headers

/-- A text that earlier transfers have left in the client: the last one since the last success. -/
def TextField.leftover (f : TextField) (history : List Transfer) : Text :=
  (f.lastIn (linesSinceSuccess history)).getD []

/-- A number that earlier transfers have left in the client: the last one ever delivered. -/
def LongField.leftover (f : LongField) (history : List Transfer) : ℤ := (f.lastIn (allLines history)).getD (-1)

theorem TextField.lastIn_append (f : TextField) (l l' : List Text) :
    f.lastIn (l ++ l') = (f.lastIn l').or (f.lastIn l) := by
  simp [lastIn, List.filterMap_append, List.getLast?_append]

theorem LongField.lastIn_append (f : LongField) (l l' : List Text) :
    f.lastIn (l ++ l') = (f.lastIn l').or (f.lastIn l) := by
  simp [lastIn, List.filterMap_append, List.getLast?_append]

theorem linesSinceSuccess_concat (history : List Transfer) (t : Transfer) :
    linesSinceSuccess (history ++ [t]) = if t.failed then linesSinceSuccess history ++ t.headers else [] := by
  unfold linesSinceSuccess
  rcases h : t.failed with _ | _
  · rw [List.rtakeWhile_concat_neg _ _ _ (by simp [h])]
    rfl
  · rw [List.rtakeWhile_concat_pos _ _ _ h]
    simp

namespace CurlEasy

theorem text_after (f : TextField) (history : List Transfer) : f.inClient (after history) = f.leftover history := by
  induction history using List.reverseRecOn with
  | nil => cases f <;> rfl
  | append_singleton history t ih =>
    have hprepared : f.inClient (after history).prepareForNewRequest = f.leftover history := by
      rw [← ih]
      cases f <;> rfl
    unfold TextField.leftover at hprepared ⊢
    rw [after_concat, linesSinceSuccess_concat]
    unfold transfer Transfer.failed
    rcases t.result with e | d
    · rw [text_headers, hprepared]
      simp [Except.toOption, TextField.lastIn_append]
    · cases f <;> rfl

theorem long_after (f : LongField) (history : List Transfer) : f.inClient (after history) = f.leftover history := by
  induction history using List.reverseRecOn with
  | nil => cases f <;> rfl
  | append_singleton history t ih =>
    have hprepared : f.inClient (after history).prepareForNewRequest = f.leftover history := by
      rw [← ih]
      cases f <;> rfl
    have hmoved : ∀ (self : CurlEasy) (d : Delivered), f.inClient (self.makeResponse d).2 = f.inClient self := by
      intro self d
      cases f <;> rfl
    unfold LongField.leftover at hprepared ⊢
    rw [after_concat, allLines, List.flatMap_append, List.flatMap_singleton, ← allLines, LongField.lastIn_append]
    unfold transfer
    rcases t.result with e | d
    · rw [long_headers, hprepared]
      simp
    · dsimp only
      rw [hmoved, long_headers, hprepared]
      simp

/-- Two clients make the same response exactly if they agree on all fields that go into it. -/
theorem makeResponse_eq_iff (self self' : CurlEasy) (d : Delivered) :
    (self.makeResponse d).1 = (self'.makeResponse d).1 ↔
      (∀ f : TextField, f.inClient self = f.inClient self') ∧
        ∀ f : LongField, f.inClient self = f.inClient self' := by
  constructor
  · intro h
    refine ⟨fun f => ?_, fun f => ?_⟩
    · cases f
      · exact congrArg Response.etag h
      · exact congrArg Response.lastModified h
      · exact congrArg Response.retryAfter h
      · exact congrArg Response.contentType h
      · exact congrArg Response.cacheControl h
    · cases f
      · exact congrArg Response.rateLimitRemaining h
      · exact congrArg Response.rateLimitReset h
  · rintro ⟨htext, hlong⟩
    have h1 : self.lastEtag = self'.lastEtag := htext .etag
    have h2 : self.lastLastModified = self'.lastLastModified := htext .lastModified
    have h3 : self.lastRetryAfter = self'.lastRetryAfter := htext .retryAfter
    have h4 : self.lastContentType = self'.lastContentType := htext .contentType
    have h5 : self.lastCacheControl = self'.lastCacheControl := htext .cacheControl
    have h6 : self.lastRlRemaining = self'.lastRlRemaining := hlong .rateLimitRemaining
    have h7 : self.lastRlReset = self'.lastRlReset := hlong .rateLimitReset
    simp only [makeResponse, h1, h2, h3, h4, h5, h6, h7]

theorem getD_eq_getD_iff {α : Type} (o : Option α) (a b : α) : o.getD a = o.getD b ↔ o.isSome = true ∨ a = b := by
  rcases o with _ | x <;> simp

/-- Two histories give a transfer that succeeds the same response exactly if, in every field that the transfer does
not set itself, they have left the same behind. -/
theorem sameResponse_iff (history history' : List Transfer) (t : Transfer) (ht : t.failed = false) :
    outcome history t = outcome history' t ↔
      (∀ f : TextField, (f.lastIn t.headers).isSome = true ∨ f.leftover history = f.leftover history') ∧
        ∀ f : LongField, (f.lastIn t.headers).isSome = true ∨ f.leftover history = f.leftover history' := by
  obtain ⟨headers, e | d⟩ := t
  · cases ht
  · have htext : ∀ (f : TextField) (h : List Transfer),
        f.inClient (headers.foldl headerCb (after h).prepareForNewRequest) =
          (f.lastIn headers).getD (f.leftover h) := by
      intro f h
      rw [text_headers, ← text_after]
      cases f <;> rfl
    have hlong : ∀ (f : LongField) (h : List Transfer),
        f.inClient (headers.foldl headerCb (after h).prepareForNewRequest) =
          (f.lastIn headers).getD (f.leftover h) := by
      intro f h
      rw [long_headers, ← long_after]
      cases f <;> rfl
    unfold outcome transfer
    rw [Except.ok.injEq, makeResponse_eq_iff]
    simp only [htext, hlong, getD_eq_getD_iff]

/-- A transfer that succeeds with the given status and header lines. -/
def answered (status : ℤ) (headers : List String) : Transfer := ⟨headers.map String.toList, .ok { status }⟩

/-- A transfer that fails behind the given header lines. -/
def broken (headers : List String) : Transfer := ⟨headers.map String.toList, .error performFailed⟩

theorem sameResponse_after_success :
    outcome [answered 200 ["ETag: \"a\"\r\n"]] (answered 200 ["Content-Type: application/json\r\n"]) =
      outcome [] (answered 200 ["Content-Type: application/json\r\n"]) := by
  refine (sameResponse_iff _ _ _ rfl).2 ⟨fun f => Or.inr ?_, fun f => Or.inr ?_⟩
  · cases f <;> rfl
  · cases f <;> rfl

/-- The rate limit of an earlier response, and the `Retry-After` of a transfer that has failed, are in the response to
a transfer without any header. -/
theorem headers_of_earlier_transfers :
    outcome [answered 429 ["X-RateLimit-Remaining: 0\r\n"]] (answered 200 []) =
        .ok { status := 200, rateLimitRemaining := 0 } ∧
      outcome [broken ["Retry-After: 60\r\n"]] (answered 200 []) =
        .ok { status := 200, retryAfter := "60".toList } ∧
      ∀ earlier ∈ [answered 429 ["X-RateLimit-Remaining: 0\r\n"], broken ["Retry-After: 60\r\n"]],
        outcome [earlier] (answered 200 []) ≠ outcome [] (answered 200 []) := by
  have hfresh : outcome [] (answered 200 []) = .ok { status := 200 } := rfl
  have hlimit : outcome [answered 429 ["X-RateLimit-Remaining: 0\r\n"]] (answered 200 []) =
      .ok { status := 200, rateLimitRemaining := 0 } := rfl
  have hretry : outcome [broken ["Retry-After: 60\r\n"]] (answered 200 []) =
      .ok { status := 200, retryAfter := "60".toList } := rfl
  refine ⟨hlimit, hretry, fun earlier hearlier => ?_⟩
  rw [hfresh]
  rcases List.mem_cons.1 hearlier with rfl | hearlier
  · rw [hlimit]
    decide
  · rw [List.mem_singleton.1 hearlier, hretry]
    decide

/-! ### The responses of `get` -/

/-- The outcomes of the transfers of one client, first to last. -/
def outcomes (history : List Transfer) : List Transfer → List (Except Exception Response)
  | [] => []
  | t :: ts => outcome history t :: outcomes (history ++ [t]) ts

end CurlEasy

/-- A server that makes these transfers with a new client. -/
def online (transfers : List Transfer) : World := { outcomes := CurlEasy.outcomes [] transfers }

/-- A response comes from the cache or is the outcome of the next transfer, and at most one transfer is made. -/
structure Asked (w : World) (attempt : Except Exception Response × World) : Prop where
  response : (∃ r ∈ attempt.2.replayed, attempt.1 = .ok r) ∨ attempt.1 = w.outcomes.head?.getD (.error performFailed)
  outcomes : attempt.2.outcomes = w.outcomes ∨ attempt.2.outcomes = w.outcomes.tail

theorem asked_getFromServer (client : Client) (req : Request) (hit : Option Hit) (w : World) :
    Asked w (getFromServer client req hit w) := by
  unfold getFromServer perform
  dsimp only
  rcases ho : w.outcomes with _ | ⟨e | r, outcomes⟩
  · exact ⟨Or.inr (by simp [ho]), Or.inl ho.symm⟩
  · exact ⟨Or.inr (by simp [ho]), Or.inr (by simp [ho])⟩
  · have hcache : ∀ w : World, (cacheAnswer client req r w).outcomes = w.outcomes := by
      intro w
      unfold cacheAnswer
      split <;> rfl
    rcases hit with _ | hit
    · exact ⟨Or.inr (by simp [ho]), Or.inr (by simp [ho, hcache])⟩
    · dsimp only
      split
      · exact ⟨Or.inl ⟨_, by simp [World.replay], rfl⟩, Or.inr (by simp [ho, World.replay, World.tick])⟩
      · exact ⟨Or.inr (by simp [ho]), Or.inr (by simp [ho, hcache])⟩

theorem asked_get (client : Client) (req : Request) (w : World) : Asked w (get client req w) := by
  unfold get
  rcases probe client.policy w.store req with _ | hit
  · exact asked_getFromServer client req none w
  · dsimp only
    split
    · exact ⟨Or.inl ⟨_, by simp [World.replay], rfl⟩, Or.inl rfl⟩
    · have h := asked_getFromServer client req (some hit) w.tick
      exact ⟨h.response, h.outcomes⟩

/-- Whatever has been requested before, with or without a cache: the transfers still to come follow those made. -/
theorem outcomes_online (client : Client) (transfers : List Transfer) (reqs : List Request) :
    ∃ history rest, transfers = history ++ rest ∧
      (reqs.foldl (fun w req => (get client req w).2) (online transfers)).outcomes =
        CurlEasy.outcomes history rest := by
  induction reqs using List.reverseRecOn with
  | nil => exact ⟨[], transfers, rfl, rfl⟩
  | append_singleton reqs req ih =>
    obtain ⟨history, rest, hsplit, ho⟩ := ih
    rw [List.foldl_append, List.foldl_cons, List.foldl_nil]
    rcases (asked_get client req (reqs.foldl (fun w req => (get client req w).2) (online transfers))).outcomes with
      h | h
    · exact ⟨history, rest, hsplit, h.trans ho⟩
    · rcases rest with _ | ⟨t, rest⟩
      · exact ⟨history, [], hsplit, by rw [h, ho]; rfl⟩
      · exact ⟨history ++ [t], rest, by simp [hsplit], by rw [h, ho]; rfl⟩

/-- In every sequence of `get` calls on one client, a response that is not from the cache is the outcome of a transfer
behind those made before. -/
theorem get_online (client : Client) (transfers : List Transfer) (reqs : List Request) (req : Request) :
    let w := reqs.foldl (fun w req => (get client req w).2) (online transfers)
    (∃ r ∈ (get client req w).2.replayed, (get client req w).1 = .ok r) ∨
      (get client req w).1 = .error performFailed ∨
      ∃ history t rest, transfers = history ++ t :: rest ∧ (get client req w).1 = CurlEasy.outcome history t := by
  intro w
  obtain ⟨history, rest, hsplit, ho⟩ := outcomes_online client transfers reqs
  rcases (asked_get client req w).response with h | h
  · exact Or.inl h
  · refine Or.inr ?_
    rw [show w.outcomes = CurlEasy.outcomes history rest from ho] at h
    rcases rest with _ | ⟨t, rest⟩
    · exact Or.inl h
    · exact Or.inr ⟨history, t, rest, hsplit, h⟩

end Http

end QuantForge
