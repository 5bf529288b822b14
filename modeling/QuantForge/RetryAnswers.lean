import QuantForge.Retries

/-!
# What the retry loop returns

Without a cache every attempt asks the server, and `get_with_retries` should return the first answer that is not
retryable, or else the outcome of the last attempt.  It does, except that a `429` at the last attempt that says how
long to wait is waited for and then forgotten: the loop ends, and an empty response is returned (`realAnswer_iff`).
-/

namespace QuantForge

namespace Http

open HttpStatusCode

/-! ### The loop as it is meant -/

/-- The outcomes of the first attempts; those beyond the last outcome fail. -/
def attempts : ℕ → List (Except Exception Response) → List (Except Exception Response)
  | 0, _ => []
  | tries + 1, [] => .error performFailed :: attempts tries []
  | tries + 1, outcome :: outcomes => outcome :: attempts tries outcomes

/-- A response that is not retryable. -/
def isFinal : Except Exception Response → Bool
  | .ok resp => !isRetryableHttp resp.status
  | .error _ => false

/-- The first final outcome, or else the last one. -/
def reference (attempts : List (Except Exception Response)) : Except Exception Response :=
  (attempts.find? isFinal).getD (attempts.getLastD (.ok {}))

/-- A `429` that says how long to wait. -/
def saysHowLong (resp : Response) : Bool :=
  resp.status = tooManyRequests &&
    (resp.retryAfter ≠ [] || (resp.rateLimitRemaining = 0 && decide (0 < resp.rateLimitReset)))

/-- What the loop makes of the outcomes of its attempts. -/
def answerOf : List (Except Exception Response) → Except Exception Response
  | [] => .ok {}
  | [.ok resp] => if saysHowLong resp then .ok {} else .ok resp
  | [.error e] => .error e
  | outcome :: outcomes => if isFinal outcome then outcome else answerOf outcomes

/-- The loop returns what it is meant to, and a response it returns is one it got. -/
def RealAnswer (attempts : List (Except Exception Response)) (answer : Except Exception Response) : Prop :=
  answer = reference attempts ∧ ∀ resp, answer = .ok resp → .ok resp ∈ attempts

/-! ### Attempts without a cache -/

section Attempt

variable {client : Client} {req : Request} {p : RetryPolicy} {delay : ℤ} {w : World}

theorem get_uncached (hc : client.policy.enableCaching = false) (req : Request) (w : World) :
    (get client req w).1 = w.outcomes.head?.getD (.error performFailed) ∧
      (get client req w).2.outcomes = w.outcomes.tail := by
  rcases ho : w.outcomes with _ | ⟨e | a, outcomes⟩ <;>
    simp [get, probe, hc, getFromServer, perform, ho, cacheAnswer]

theorem attempts_succ (tries : ℕ) (outcomes : List (Except Exception Response)) :
    attempts (tries + 1) outcomes = outcomes.head?.getD (.error performFailed) :: attempts tries outcomes.tail := by
  rcases outcomes with _ | ⟨o, os⟩ <;> rfl

/-- The last attempt. -/
theorem retryLoop_one : (retryLoop client req p 1 delay w).1 = answerOf [(get client req w).1] := by
  rw [retryLoop]
  rcases get client req w with ⟨e | resp, w'⟩
  · rfl
  · unfold answerOf saysHowLong
    by_cases h429 : resp.status = tooManyRequests
    · by_cases hretry : resp.retryAfter = []
      · by_cases hreset : resp.rateLimitRemaining = 0 ∧ 0 < resp.rateLimitReset
        · simp [h429, hretry, hreset, retryLoop]
        · simp [h429, hretry, hreset]
      · simp [h429, hretry, retryLoop]
    · simp [h429]

/-- An attempt that is not the last one. -/
theorem retryLoop_succ {left : ℕ} (hl : 0 < left) :
    (retryLoop client req p (left + 1) delay w).1 =
      if isFinal (get client req w).1 then (get client req w).1
      else (retryLoop client req p left (getRetryDelay client p delay (get client req w).2).1
        (getRetryDelay client p delay (get client req w).2).2).1 := by
  rcases hg : (get client req w).1 with e | resp
  · rw [retryLoop_error hg hl]
    rfl
  · rcases hr : isRetryableHttp resp.status with _ | _
    · rw [retryLoop_final hg hr]
      simp [isFinal, hr]
    · rw [retryLoop_retryable hg hr hl]
      simp [isFinal, hr]

end Attempt

/-! ### The whole loop -/

section Answer

variable {o o' : Except Exception Response} {os : List (Except Exception Response)}

theorem answerOf_cons : answerOf (o :: o' :: os) = if isFinal o then o else answerOf (o' :: os) := by
  rcases o with e | resp <;> rfl

theorem reference_singleton : reference [o] = o := by
  rcases h : isFinal o with _ | _ <;> simp [reference, h]

theorem reference_cons : reference (o :: o' :: os) = if isFinal o then o else reference (o' :: os) := by
  unfold reference
  rw [List.find?_cons]
  rcases isFinal o with _ | _ <;> simp

end Answer

/-- Without a cache the answer depends on the outcomes only. -/
theorem retryLoop_uncached {client : Client} (hc : client.policy.enableCaching = false) {req : Request}
    {p : RetryPolicy} (left : ℕ) (delay : ℤ) (w : World) :
    (retryLoop client req p (left + 1) delay w).1 = answerOf (attempts (left + 1) w.outcomes) := by
  induction left generalizing delay w with
  | zero =>
    rw [retryLoop_one, (get_uncached hc req w).1, attempts_succ]
    rfl
  | succ left ih =>
    obtain ⟨hfst, hsnd⟩ := get_uncached hc req w
    rw [retryLoop_succ (Nat.succ_pos left), ih, hfst, attempts_succ (left + 1)]
    have houtcomes : (getRetryDelay client p delay (get client req w).2).2.outcomes = w.outcomes.tail := hsnd
    rw [houtcomes, attempts_succ left, answerOf_cons]

/-- No outcome is final, and the last one is a `429` that says how long to wait. -/
def WaitsAtTheEnd (attempts : List (Except Exception Response)) : Prop :=
  (∀ o ∈ attempts, isFinal o = false) ∧ ∃ resp, attempts.getLast? = some (.ok resp) ∧ saysHowLong resp = true

theorem not_isFinal_of_saysHowLong {resp : Response} (h : saysHowLong resp = true) : isFinal (.ok resp) = false := by
  have h429 : resp.status = tooManyRequests := by
    unfold saysHowLong at h
    rw [Bool.and_eq_true, decide_eq_true_eq] at h
    exact h.1
  simp [isFinal, isRetryableHttp, h429]

theorem answerOf_eq_reference_iff {attempts : List (Except Exception Response)} (hne : attempts ≠ []) :
    answerOf attempts = reference attempts ↔ ¬ WaitsAtTheEnd attempts := by
  induction attempts with
  | nil => exact absurd rfl hne
  | cons o os ih =>
    rcases os with _ | ⟨o', os⟩
    · -- the last attempt
      rw [reference_singleton]
      rcases o with e | resp
      · simp [answerOf, WaitsAtTheEnd]
      · rcases hlong : saysHowLong resp with _ | _
        · simp [answerOf, WaitsAtTheEnd, hlong]
        · have hfinal := not_isFinal_of_saysHowLong hlong
          have hempty : ({} : Response) ≠ resp := by
            rintro rfl
            exact absurd hlong (by decide)
          simp [answerOf, WaitsAtTheEnd, hlong, hfinal, hempty]
    · rw [answerOf_cons, reference_cons]
      rcases hf : isFinal o with _ | _
      · simp only [Bool.false_eq_true, ↓reduceIte]
        rw [ih (by simp)]
        simp [WaitsAtTheEnd, hf]
      · simp [WaitsAtTheEnd, hf]

theorem reference_mem {attempts : List (Except Exception Response)} (hne : attempts ≠ []) :
    reference attempts ∈ attempts := by
  unfold reference
  rcases hfind : attempts.find? isFinal with _ | o
  · rw [Option.getD_none, List.getLastD_eq_getLast?, List.getLast?_eq_some_getLast hne, Option.getD_some]
    exact List.getLast_mem hne
  · exact List.mem_of_find?_eq_some hfind

/-- Without a cache, `get_with_retries` returns the first final answer, or else the outcome of the last attempt,
exactly unless no attempt gets a final answer and the last one gets a `429` that says how long to wait. -/
theorem realAnswer_iff (client : Client) (hc : client.policy.enableCaching = false) (req : Request) (p : RetryPolicy)
    (htries : 1 ≤ p.maxTries) (w : World) :
    RealAnswer (attempts p.maxTries w.outcomes) (getWithRetries client req p w).1 ↔
      ¬ WaitsAtTheEnd (attempts p.maxTries w.outcomes) := by
  obtain ⟨left, hleft⟩ : ∃ left, p.maxTries = left + 1 := ⟨p.maxTries - 1, by omega⟩
  unfold getWithRetries
  rw [hleft, retryLoop_uncached hc]
  have hne : attempts (left + 1) w.outcomes ≠ [] := by simp [attempts_succ]
  rw [← answerOf_eq_reference_iff hne]
  constructor
  · exact And.left
  · intro h
    refine ⟨h, fun resp hresp => ?_⟩
    rw [← hresp, h]
    exact reference_mem hne

/-- A client without a cache. -/
def uncachedClient : Client := ⟨{ enableCaching := false }, fun _ => 1700000000, fun _ => 0⟩

/-- A failure, then the bars. -/
theorem realAnswer_after_outage :
    (getWithRetries uncachedClient barsRequest {} (serving outageAnswers)).1 = .ok { status := 200 } := by
  have hnot : ¬ WaitsAtTheEnd (attempts 3 (serving outageAnswers).outcomes) := by
    intro h
    exact absurd (h.1 (.ok { status := 200 }) (by decide)) (by decide)
  have h := (realAnswer_iff uncachedClient rfl barsRequest {} (by decide) (serving outageAnswers)).2 hnot
  exact h.1

/-- Three times `429` with a `Retry-After`. -/
def limitedAnswers : List Response := List.replicate 3 { status := 429, retryAfter := "1".toList }

/-- The client waits after the last attempt and returns an empty response. -/
theorem empty_response_returned :
    (getWithRetries uncachedClient barsRequest {} (serving limitedAnswers)).1 = .ok {} ∧
      reference (attempts 3 (serving limitedAnswers).outcomes) = .ok { status := 429, retryAfter := "1".toList } ∧
      ¬ RealAnswer (attempts 3 (serving limitedAnswers).outcomes)
        (getWithRetries uncachedClient barsRequest {} (serving limitedAnswers)).1 := by
  have hrun : (getWithRetries uncachedClient barsRequest {} (serving limitedAnswers)).1 = .ok {} := by rfl
  have href : reference (attempts 3 (serving limitedAnswers).outcomes) =
      .ok { status := 429, retryAfter := "1".toList } := by rfl
  refine ⟨hrun, href, fun h => ?_⟩
  have := (hrun.symm.trans h.1).trans href
  exact absurd this (by decide)

end Http

end QuantForge
