import QuantForge.HttpClient

/-!
# Retries and the cache

The retry loop asks for a response, and `get` stores every answer of the server, whatever its status.  So the next
attempt finds the failure of the one before in the cache and returns it again, as long as it counts as fresh.  The
loop reaches the server exactly if every stored failure is stale when the next attempt begins, and no later answer is
`304 Not Modified`.
-/

namespace QuantForge

namespace Http

open HttpStatusCode

/-- A server that gives these answers, with an empty cache. -/
def serving (answers : List Response) : World := { outcomes := answers.map .ok }

/-- The first answer that is not retryable, among the first `tries`. -/
def firstFinal (tries : ℕ) (answers : List Response) : Option Response :=
  (answers.take tries).find? fun a => !isRetryableHttp a.status

/-- No response taken from the cache is retryable. -/
def NothingReplayed (w : World) : Prop := ∀ r ∈ w.replayed, isRetryableHttp r.status = false

/-- The first answer of the server that is not retryable is returned, and no retryable one is taken from the cache. -/
def ReachesServer (tries : ℕ) (answers : List Response) (run : Except Exception Response × World) : Prop :=
  (∀ a, firstFinal tries answers = some a → run.1 = .ok a) ∧ NothingReplayed run.2

/-- Every attempt that is made asks the server and gets an answer of its own: when it begins, the answer stored by the
attempt before is stale, and the server does not reply that it has not been modified.  `readings` counts the readings
of the clock so far and `stored` is the metadata in the cache. -/
def AsksServer (client : Client) : ℕ → ℕ → Option Meta → List Response → Prop
  | 0, _, _, _ => True
  | _ + 1, _, none, [] => True
  | left + 1, readings, none, a :: answers =>
    isRetryableHttp a.status = true →
      AsksServer client left (readings + 1) (some (metaOf a (client.clock readings))) answers
  | left + 1, readings, some m, [] =>
    freshEnough client.policy (client.clock readings) m = false ∧ AsksServer client left (readings + 1) (some m) []
  | left + 1, readings, some m, a :: answers =>
    freshEnough client.policy (client.clock readings) m = false ∧ a.status ≠ notModified ∧
      (isRetryableHttp a.status = true →
        AsksServer client left (readings + 2) (some (metaOf a (client.clock (readings + 1)))) answers)

/-! ### One attempt -/

/-- What the loop depends on: the readings of the clock, the entry for the URL, the answers to come, and what has been
taken from the cache. -/
structure Sees (req : Request) (w : World) (readings : ℕ) (entry : Option CacheEntry) (answers : List Response)
    (replayed : List Response) : Prop where
  readings : w.readings = readings
  entry : w.store.lookup req.url = entry
  answers : w.outcomes = answers.map .ok
  replayed : w.replayed = replayed

section Attempt

variable {client : Client} {req : Request} {w : World} {readings : ℕ} {e : CacheEntry} {a : Response}
  {answers replayed : List Response}

theorem Sees.getRetryDelay {entry : Option CacheEntry} (h : Sees req w readings entry answers replayed)
    (p : RetryPolicy) (delay : ℤ) : Sees req (getRetryDelay client p delay w).2 readings entry answers replayed :=
  ⟨h.readings, h.entry, h.answers, h.replayed⟩

variable (hc : client.policy.enableCaching = true)
include hc

/-- No entry and no answer: the attempt fails. -/
theorem get_unanswered (h : Sees req w readings none [] replayed) :
    (get client req w).1 = .error performFailed ∧ Sees req (get client req w).2 readings none [] replayed := by
  obtain ⟨rfl, hentry, hanswers, rfl⟩ := h
  simp only [get, probe, hc, hentry, Option.map_none, getFromServer, perform, hanswers, List.map_nil, ↓reduceIte,
    true_and]
  exact ⟨rfl, hentry, rfl, rfl⟩

/-- No entry: the answer of the server is stored and returned. -/
theorem get_answered (h : Sees req w readings none (a :: answers) replayed) :
    (get client req w).1 = .ok a ∧
      Sees req (get client req w).2 (readings + 1) (some ⟨metaOf a (client.clock readings), a.body⟩) answers
        replayed := by
  obtain ⟨rfl, hentry, hanswers, rfl⟩ := h
  simp only [get, probe, hc, hentry, Option.map_none, getFromServer, perform, hanswers, List.map_cons, cacheAnswer,
    cacheResponse, ↓reduceIte, true_and]
  exact ⟨rfl, AList.lookup_insert _, rfl, rfl⟩

/-- A fresh entry is returned. -/
theorem get_fresh (h : Sees req w readings (some e) answers replayed)
    (hf : freshEnough client.policy (client.clock readings) e.metadata = true) :
    getCachedResponse ⟨req.url, e⟩ ∈ (get client req w).2.replayed := by
  obtain ⟨rfl, hentry, hanswers, rfl⟩ := h
  simp [get, probe, hc, hentry, hf, World.replay]

/-- A stale entry and no answer: the attempt fails. -/
theorem get_stale_unanswered (h : Sees req w readings (some e) [] replayed)
    (hf : freshEnough client.policy (client.clock readings) e.metadata = false) :
    (get client req w).1 = .error performFailed ∧
      Sees req (get client req w).2 (readings + 1) (some e) [] replayed := by
  obtain ⟨rfl, hentry, hanswers, rfl⟩ := h
  simp only [get, probe, hc, hentry, Option.map_some, hf, getFromServer, perform, World.tick, hanswers, List.map_nil,
    ↓reduceIte, Bool.false_eq_true, true_and]
  exact ⟨rfl, hentry, rfl, rfl⟩

/-- `304 Not Modified`: the stale entry is returned. -/
theorem get_notModified (h : Sees req w readings (some e) (a :: answers) replayed)
    (hf : freshEnough client.policy (client.clock readings) e.metadata = false) (ha : a.status = notModified) :
    getCachedResponse ⟨req.url, e⟩ ∈ (get client req w).2.replayed := by
  obtain ⟨rfl, hentry, hanswers, rfl⟩ := h
  simp [get, probe, hc, hentry, hf, getFromServer, perform, World.tick, hanswers, ha, World.replay]

/-- A stale entry is replaced by any other answer. -/
theorem get_stale_answered (h : Sees req w readings (some e) (a :: answers) replayed)
    (hf : freshEnough client.policy (client.clock readings) e.metadata = false) (ha : a.status ≠ notModified) :
    (get client req w).1 = .ok a ∧
      Sees req (get client req w).2 (readings + 2) (some ⟨metaOf a (client.clock (readings + 1)), a.body⟩) answers
        replayed := by
  obtain ⟨rfl, hentry, hanswers, rfl⟩ := h
  simp only [get, probe, hc, hentry, Option.map_some, hf, getFromServer, perform, World.tick, hanswers, List.map_cons,
    ha, cacheAnswer, cacheResponse, ↓reduceIte, Bool.false_eq_true, true_and]
  exact ⟨rfl, AList.lookup_insert _, rfl, rfl⟩

end Attempt

/-! ### What the loop makes of an attempt -/

section Loop

variable {client : Client} {req : Request} {p : RetryPolicy} {left : ℕ} {delay : ℤ} {w : World} {r : Response}

@[simp] theorem replayed_perform (hdrs : List Text) : (perform req hdrs w).2.replayed = w.replayed := by
  unfold perform
  rcases w.outcomes with _ | ⟨outcome, outcomes⟩ <;> rfl

@[simp] theorem replayed_cacheAnswer (a : Response) : (cacheAnswer client req a w).replayed = w.replayed := by
  unfold cacheAnswer
  split <;> rfl

theorem replayed_getFromServer (hit : Option Hit) (hr : r ∈ w.replayed) :
    r ∈ (getFromServer client req hit w).2.replayed := by
  unfold getFromServer
  rcases hp : perform req (req.headers ++ (hit.map conditionalHeaders).getD []) w with ⟨_ | a, w'⟩
  all_goals
    have hw : r ∈ w'.replayed := by
      rw [← replayed_perform (req.headers ++ (hit.map conditionalHeaders).getD []), hp] at hr
      exact hr
  · exact hw
  · rcases hit with _ | hit
    · simpa using hw
    · by_cases ha : a.status = notModified
      · simpa [ha, World.replay, World.tick] using Or.inl hw
      · simpa [ha] using hw

theorem replayed_get (hr : r ∈ w.replayed) : r ∈ (get client req w).2.replayed := by
  unfold get
  rcases probe client.policy w.store req with _ | hit
  · exact replayed_getFromServer none hr
  · by_cases hf : freshEnough client.policy (client.clock w.readings) hit.entry.metadata = true
    · simpa [hf, World.replay, World.tick] using Or.inl hr
    · simp only [hf]
      exact replayed_getFromServer (some hit) hr

theorem replayed_retryLoop_succ
    (hloop : ∀ delay w, r ∈ w.replayed → r ∈ (retryLoop client req p left delay w).2.replayed)
    (hr : r ∈ (get client req w).2.replayed) : r ∈ (retryLoop client req p (left + 1) delay w).2.replayed := by
  unfold retryLoop
  generalize get client req w = attempt at hr ⊢
  obtain ⟨e | a, w'⟩ := attempt
  all_goals
    dsimp only at hr ⊢
    split_ifs
    all_goals first | exact hr | exact hloop _ _ hr

/-- What has been taken from the cache stays recorded. -/
theorem replayed_retryLoop (hr : r ∈ w.replayed) : r ∈ (retryLoop client req p left delay w).2.replayed := by
  induction left generalizing delay w with
  | zero => exact hr
  | succ left ih => exact replayed_retryLoop_succ (fun _ _ => ih) (replayed_get hr)

/-- A failed attempt is followed by the next one. -/
theorem retryLoop_error {e : Exception} (hg : (get client req w).1 = .error e) (hl : 0 < left) :
    retryLoop client req p (left + 1) delay w =
      retryLoop client req p left (getRetryDelay client p delay (get client req w).2).1
        (getRetryDelay client p delay (get client req w).2).2 := by
  rw [retryLoop]
  generalize get client req w = attempt at hg ⊢
  obtain ⟨_ | a, w'⟩ := attempt <;> cases hg
  simp only [hl, ↓reduceIte]

/-- A retryable response is followed by the next attempt. -/
theorem retryLoop_retryable (hg : (get client req w).1 = .ok r) (hr : isRetryableHttp r.status = true)
    (hl : 0 < left) :
    retryLoop client req p (left + 1) delay w =
      retryLoop client req p left (getRetryDelay client p delay (get client req w).2).1
        (getRetryDelay client p delay (get client req w).2).2 := by
  rw [retryLoop]
  generalize get client req w = attempt at hg ⊢
  obtain ⟨_ | a, w'⟩ := attempt <;> cases hg
  simp only [hr, hl, decide_true, Bool.and_self, ↓reduceIte]

/-- Any other response is returned. -/
theorem retryLoop_final (hg : (get client req w).1 = .ok r) (hr : isRetryableHttp r.status = false) :
    retryLoop client req p (left + 1) delay w = (.ok r, (get client req w).2) := by
  have h429 : r.status ≠ tooManyRequests := by
    intro h
    simp [isRetryableHttp, h] at hr
  rw [retryLoop]
  generalize get client req w = attempt at hg ⊢
  obtain ⟨_ | a, w'⟩ := attempt <;> cases hg
  simp only [hr, h429, Bool.false_and, Bool.false_eq_true, ↓reduceIte, ne_eq, not_false_eq_true]

/-- After the last attempt nothing more is taken from the cache. -/
theorem replayed_retryLoop_one :
    (retryLoop client req p 1 delay w).2.replayed = (get client req w).2.replayed := by
  rw [retryLoop]
  rcases get client req w with ⟨e | a, w'⟩
  · simp
  · dsimp only [retryLoop]
    split_ifs <;> rfl

end Loop

/-! ### The whole loop -/

section Run

variable {client : Client} {req : Request} {p : RetryPolicy}

theorem firstFinal_cons (left : ℕ) (a : Response) (answers : List Response) :
    firstFinal (left + 1) (a :: answers) =
      if isRetryableHttp a.status = true then firstFinal left answers else some a := by
  unfold firstFinal
  rw [List.take_succ_cons, List.find?_cons]
  by_cases ha : isRetryableHttp a.status = true <;> simp [ha]

theorem firstFinal_nil (left : ℕ) : firstFinal left [] = none := by simp [firstFinal]

/-- A retryable entry returned from the cache spoils the run. -/
theorem not_reachesServer {left : ℕ} {delay : ℤ} {w : World} {answers : List Response} {e : CacheEntry}
    (he : isRetryableHttp e.metadata.status = true)
    (hr : getCachedResponse ⟨req.url, e⟩ ∈ (get client req w).2.replayed) :
    ¬ ReachesServer (left + 1) answers (retryLoop client req p (left + 1) delay w) := by
  intro h
  have hstatus := h.2 _ (replayed_retryLoop_succ (fun _ _ => replayed_retryLoop) hr)
  rw [show (getCachedResponse ⟨req.url, e⟩).status = e.metadata.status from rfl, he] at hstatus
  cases hstatus

/-- After an attempt that failed or got a retryable answer, the run is as good as the rest of it. -/
theorem reachesServer_succ {left : ℕ} {delay : ℤ} {w : World} {answers rest : List Response}
    (hg : (∃ e, (get client req w).1 = .error e) ∨
      ∃ r, (get client req w).1 = .ok r ∧ isRetryableHttp r.status = true)
    (hfinal : firstFinal (left + 1) answers = firstFinal left rest) :
    ReachesServer (left + 1) answers (retryLoop client req p (left + 1) delay w) ↔
      ReachesServer left rest (retryLoop client req p left (getRetryDelay client p delay (get client req w).2).1
        (getRetryDelay client p delay (get client req w).2).2) := by
  rcases Nat.eq_zero_or_pos left with rfl | hl
  · -- the last attempt: its answer does not count, and the loop ends
    have hnone : firstFinal 0 rest = none := by simp [firstFinal]
    unfold ReachesServer NothingReplayed
    rw [hfinal, hnone, replayed_retryLoop_one]
    simp [retryLoop, getRetryDelay, World.sleepFor]
  · unfold ReachesServer
    rw [hfinal]
    rcases hg with ⟨e, he⟩ | ⟨r, hr, hstatus⟩
    · rw [retryLoop_error he hl]
    · rw [retryLoop_retryable hr hstatus hl]

/-- After an answer of the server: a final one is returned, and a retryable one leaves it to the rest of the run. -/
theorem reachesServer_answered {left readings : ℕ} {delay : ℤ} {w : World} {a : Response}
    {entry : Option CacheEntry} {answers replayed : List Response} (hg : (get client req w).1 = .ok a)
    (hs : Sees req (get client req w).2 readings entry answers replayed)
    (hreplayed : ∀ r ∈ replayed, isRetryableHttp r.status = false) :
    ReachesServer (left + 1) (a :: answers) (retryLoop client req p (left + 1) delay w) ↔
      (isRetryableHttp a.status = true →
        ReachesServer left answers (retryLoop client req p left (getRetryDelay client p delay (get client req w).2).1
          (getRetryDelay client p delay (get client req w).2).2)) := by
  by_cases ha : isRetryableHttp a.status = true
  · rw [reachesServer_succ (.inr ⟨a, hg, ha⟩) (by rw [firstFinal_cons, if_pos ha])]
    exact ⟨fun h _ => h, fun h => h ha⟩
  · refine ⟨fun _ ha' => (ha ha').elim, fun _ => ?_⟩
    rw [retryLoop_final hg (Bool.eq_false_iff.2 ha)]
    refine ⟨fun b hb => ?_, ?_⟩
    · rw [firstFinal_cons, if_neg ha] at hb
      rw [Option.some.inj hb]
    · rw [← hs.replayed] at hreplayed
      exact hreplayed

theorem reachesServer_retryLoop (hc : client.policy.enableCaching = true) {left readings : ℕ}
    {entry : Option CacheEntry} {answers replayed : List Response} {delay : ℤ} {w : World}
    (h : Sees req w readings entry answers replayed)
    (hentry : ∀ e ∈ entry, isRetryableHttp e.metadata.status = true)
    (hreplayed : ∀ r ∈ replayed, isRetryableHttp r.status = false) :
    ReachesServer left answers (retryLoop client req p left delay w) ↔
      AsksServer client left readings (entry.map CacheEntry.metadata) answers := by
  induction left generalizing readings entry answers delay w with
  | zero =>
    refine ⟨fun _ => by simp [AsksServer], fun _ => ⟨fun a ha => ?_, ?_⟩⟩
    · simp [firstFinal] at ha
    · rw [← h.replayed] at hreplayed
      exact hreplayed
  | succ left ih =>
    rcases entry with _ | e
    · rcases answers with _ | ⟨a, answers⟩
      · obtain ⟨hg, hs⟩ := get_unanswered hc h
        rw [reachesServer_succ (.inl ⟨_, hg⟩) (by rw [firstFinal_nil, firstFinal_nil]),
          ih (hs.getRetryDelay p delay) (by simp)]
        rcases left with _ | left <;> simp [AsksServer]
      · obtain ⟨hg, hs⟩ := get_answered hc h
        rw [reachesServer_answered hg hs hreplayed]
        exact imp_congr_right fun ha => ih (hs.getRetryDelay p delay) (by simpa [metaOf] using ha)
    · have he : isRetryableHttp e.metadata.status = true := hentry e rfl
      simp only [Option.map_some]
      rcases hf : freshEnough client.policy (client.clock readings) e.metadata with _ | _
      rotate_left
      · -- the stored failure is fresh
        have hbad := get_fresh hc h hf
        rcases answers with _ | ⟨a, answers⟩ <;> simp [AsksServer, hf, not_reachesServer he hbad]
      rcases answers with _ | ⟨a, answers⟩
      · obtain ⟨hg, hs⟩ := get_stale_unanswered hc h hf
        rw [reachesServer_succ (.inl ⟨_, hg⟩) (by rw [firstFinal_nil, firstFinal_nil]),
          ih (hs.getRetryDelay p delay) (by simpa using he)]
        simp [AsksServer, hf]
      · by_cases h304 : a.status = notModified
        · simp [AsksServer, h304, not_reachesServer he (get_notModified hc h hf h304)]
        · obtain ⟨hg, hs⟩ := get_stale_answered hc h hf h304
          simp only [AsksServer, hf, ne_eq, h304, not_false_eq_true, true_and]
          rw [reachesServer_answered hg hs hreplayed]
          exact imp_congr_right fun ha => ih (hs.getRetryDelay p delay) (by simpa [metaOf] using ha)

end Run

/-- With caching enabled and an empty cache, the loop returns the server's first answer that is not retryable and
never takes a failure from the cache, exactly if every stored failure is stale at the next attempt and no later answer
is `304 Not Modified`. -/
theorem reachesServer_iff (client : Client) (hc : client.policy.enableCaching = true) (req : Request)
    (p : RetryPolicy) (answers : List Response) :
    ReachesServer p.maxTries answers (getWithRetries client req p (serving answers)) ↔
      AsksServer client p.maxTries 0 none answers := by
  have h : Sees req (serving answers) 0 none answers [] := ⟨rfl, rfl, rfl, rfl⟩
  exact reachesServer_retryLoop hc h (by simp) (by simp)

/-- A client with the default policy, within one second. -/
def defaultClient : Client := ⟨{}, fun _ => 1700000000, fun _ => 0⟩

def barsRequest : Request := { url := "https://api.polygon.io/v2/aggs".toList }

/-- A failure that must not be stored, then the bars. -/
def uncachedAnswers : List Response := [{ status := 503, cacheControl := "no-store".toList }, { status := 200 }]

theorem reachesServer_no_store :
    defaultClient.policy.enableCaching = true ∧ AsksServer defaultClient 3 0 none uncachedAnswers ∧
      ReachesServer 3 uncachedAnswers (getWithRetries defaultClient barsRequest {} (serving uncachedAnswers)) := by
  have hasks : AsksServer defaultClient 3 0 none uncachedAnswers := by
    intro _
    exact ⟨by decide, by decide, fun h => absurd h (by decide)⟩
  exact ⟨rfl, hasks, (reachesServer_iff defaultClient rfl barsRequest {} uncachedAnswers).2 hasks⟩

/-- A failure, then the bars. -/
def outageAnswers : List Response := [{ status := 503 }, { status := 200 }]

/-- The server is asked once; the two retries are answered by the stored failure. -/
theorem failure_replayed :
    (getWithRetries defaultClient barsRequest {} (serving outageAnswers)).1 =
        .ok { status := 503, effectiveUrl := barsRequest.url } ∧
      (getWithRetries defaultClient barsRequest {} (serving outageAnswers)).2.sent = [barsRequest] ∧
      firstFinal 3 outageAnswers = some { status := 200 } ∧
      ¬ ReachesServer 3 outageAnswers (getWithRetries defaultClient barsRequest {} (serving outageAnswers)) := by
  have hrun : (getWithRetries defaultClient barsRequest {} (serving outageAnswers)).1 =
      .ok { status := 503, effectiveUrl := barsRequest.url } := by rfl
  have hfinal : firstFinal 3 outageAnswers = some { status := 200 } := by decide
  refine ⟨hrun, by decide, hfinal, fun h => ?_⟩
  have := hrun.symm.trans (h.1 _ hfinal)
  exact absurd this (by decide)

end Http

end QuantForge
