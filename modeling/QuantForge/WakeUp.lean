import QuantForge.ThreadPool

/-!
# The wake-up of `wait_all`

A worker decrements `active_tasks_` and notifies without the mutex.  If both happen between the failed check of
`wait_all` and its block, nobody wakes it any more (`wakeUp_lost`); in interleavings without such a notification no
wake-up is lost (`no_lostWakeUp`).
-/

namespace QuantForge

namespace ThreadPool

open Interleaving System

variable {n : ℕ} {s : ThreadPool n} {i : Fin n}

/-- The thread in `wait_all` is blocked although nothing is left to do, and all workers are back at their wait. -/
structure LostWakeUp (s : ThreadPool n) : Prop where
  blocked : s.waiter.isBlocked = true
  tasks : s.tasks = []
  active : s.active = 0
  workers : ∀ i, s.workers i = .waiting ∨ s.workers i = .ready

/-- Between the failed check of `wait_all` and its block, a worker notifies only while there is something to come: a
task in the queue, an active worker, or the notification of another worker. -/
def NotifiesInTime : PoolAction n → ThreadPool n → Prop
  | .notifyAll i, s =>
    s.waiter.isChecked = true → s.tasks ≠ [] ∨ 0 < s.active ∨ ∃ j, j ≠ i ∧ s.workers j = .notifying
  | _, _ => True

instance : ∀ (a : PoolAction n) (s : ThreadPool n), Decidable (NotifiesInTime a s)
  | .notifyAll i, s => inferInstanceAs (Decidable (s.waiter.isChecked = true →
      s.tasks ≠ [] ∨ 0 < s.active ∨ ∃ j, j ≠ i ∧ s.workers j = .notifying))
  | .enqueue, _ => isTrue trivial
  | .notifyOne _, _ => isTrue trivial
  | .takeTask _, _ => isTrue trivial
  | .finishTask _, _ => isTrue trivial
  | .retire _, _ => isTrue trivial
  | .waitAll, _ => isTrue trivial
  | .check, _ => isTrue trivial
  | .block, _ => isTrue trivial
  | .wakeWorker _, _ => isTrue trivial
  | .wakeWaiter, _ => isTrue trivial
  | .destroy, _ => isTrue trivial
  | .notifyStop, _ => isTrue trivial

/-- Something is to come that wakes the thread in `wait_all`. -/
def Pending (s : ThreadPool n) : Prop := s.tasks ≠ [] ∨ 0 < s.active ∨ ∃ j, s.workers j = .notifying

/-- Moving a worker on which nothing depends. -/
private theorem Pending.move (h : s.tasks ≠ [] ∨ 0 < s.active ∨ ∃ j, j ≠ i ∧ s.workers j = .notifying) (w : Worker) :
    Pending (s.setWorker i w) := by
  rcases h with h | h | ⟨j, hne, hj⟩
  · exact Or.inl h
  · exact Or.inr (Or.inl h)
  · refine Or.inr (Or.inr ⟨j, ?_⟩)
    show Function.update s.workers i w j = .notifying
    rw [Function.update_of_ne hne]
    exact hj

/-- Moving a worker that is not about to notify. -/
private theorem Pending.setWorker (h : Pending s) (hi : s.workers i ≠ .notifying) (w : Worker) :
    Pending (s.setWorker i w) := by
  refine Pending.move ?_ w
  rcases h with h | h | ⟨j, hj⟩
  · exact Or.inl h
  · exact Or.inr (Or.inl h)
  · exact Or.inr (Or.inr ⟨j, fun he => hi (he ▸ hj), hj⟩)

/-- A worker about to notify is not one that waits. -/
private theorem Pending.wake (h : Pending s) : Pending { s with workers := fun j => (s.workers j).wake } := by
  rcases h with h | h | ⟨j, hj⟩
  · exact Or.inl h
  · exact Or.inr (Or.inl h)
  · refine Or.inr (Or.inr ⟨j, ?_⟩)
    show (s.workers j).wake = .notifying
    rw [hj]
    rfl

/-- While the thread in `wait_all` is about to block or blocked, something is to come that wakes it. -/
def Informed (s : ThreadPool n) : Prop := s.waiter.isChecked = true ∨ s.waiter.isBlocked = true → Pending s

/-- The thread that has been woken looks again; only if it was about to block does the wake-up pass it by. -/
private theorem isChecked_of_wake {w : Waiter} (h : w.wake.isChecked = true ∨ w.wake.isBlocked = true) :
    w.isChecked = true := by
  cases w with
  | checked _ => rfl
  | _ => rcases h with h | h <;> cases h

private theorem Informed.takeTask (h : Informed s) (hacc : Accounted s) (hi : s.workers i = .ready) :
    Informed (s.takeTask i) := by
  rcases htasks : s.tasks with _ | ⟨t, tasks⟩
  · rw [takeTask_nil htasks]
    exact fun hw => (h hw).setWorker (by rw [hi]; nofun) _
  · rw [takeTask_cons htasks]
    -- the worker is active now
    refine fun _ => Or.inr (Or.inl ?_)
    have hnonneg := hacc.active_nonneg
    show 0 < s.active + 1
    omega

private theorem Informed.finishTask (h : Informed s) : Informed (s.finishTask i) := by
  unfold ThreadPool.finishTask
  split
  · rename_i t ht
    exact fun hw => (h hw).setWorker (by rw [ht]; nofun) _
  · exact h

/-- The check fails only while a task is in the queue or a worker is active. -/
private theorem Informed.check (h : Informed s) (hacc : Accounted s) : Informed s.check := by
  unfold ThreadPool.check
  split
  · rename_i before hb
    by_cases hd : s.isDone = true
    · simp only [hd, if_true]
      intro hw
      rcases hw with hw | hw <;> cases hw
    · intro _
      have hdone : ¬ (s.tasks = [] ∧ s.active = 0) := by simpa [isDone] using hd
      by_cases htasks : s.tasks = []
      · have hne : s.active ≠ 0 := fun ha => hdone ⟨htasks, ha⟩
        have hpos : 0 < s.active := lt_of_le_of_ne hacc.active_nonneg hne.symm
        exact Or.inr (Or.inl hpos)
      · exact Or.inl htasks
  · exact h

private theorem Informed.block (h : Informed s) (hc : s.waiter.isChecked = true) : Informed s.block := by
  unfold ThreadPool.block
  split
  · exact fun _ => h (Or.inl hc)
  · exact h

private theorem Informed.effect {a : PoolAction n} (h : Informed s) (hacc : Accounted s) (hen : Enabled a s)
    (hG : NotifiesInTime a s) : Informed (effect a s) := by
  cases a with
  | enqueue => exact fun _ => Or.inl (by simp [ThreadPool.effect])
  | notifyOne woken =>
    cases woken with
    | none => exact h
    | some i => exact fun hw => (h hw).setWorker (by rw [hen.2]; nofun) _
  | takeTask i => exact h.takeTask hacc hen.2
  | finishTask i => exact h.finishTask
  | retire i => exact fun _ => Or.inr (Or.inr ⟨i, Function.update_self _ _ _⟩)
  | notifyAll i =>
    intro hw
    have hpending : Pending (s.setWorker i .ready) := Pending.move (hG (isChecked_of_wake hw)) .ready
    exact hpending
  | waitAll =>
    intro hw
    rcases hw with hw | hw <;> cases hw
  | check => exact h.check hacc
  | block => exact h.block hen
  | wakeWorker i =>
    have hi : s.workers i = .waiting := hen
    exact fun hw => (h hw).setWorker (by rw [hi]; nofun) _
  | wakeWaiter =>
    intro hw
    have hc := isChecked_of_wake hw
    exact h (Or.inl hc)
  | destroy => exact h
  | notifyStop => exact fun hw => (h hw).wake

/-- In every interleaving whose notifications come in time, no wake-up of `wait_all` is lost. -/
theorem no_lostWakeUp (hr : (threads n).Reaches NotifiesInTime {} s) : ¬ LostWakeUp s := by
  have h : Accounted s ∧ Informed s := by
    refine hr.invariant (J := fun s => Accounted s ∧ Informed s) ⟨accounted_init, fun hw => ?_⟩ ?_
    · rcases hw with hw | hw <;> cases hw
    · exact fun a s h hen hG => ⟨h.1.effect hen, h.2.effect h.1 hen hG⟩
  intro hlost
  rcases h.2 (Or.inr hlost.blocked) with ht | ha | ⟨j, hj⟩
  · exact ht hlost.tasks
  · rw [hlost.active] at ha
    exact absurd ha (lt_irrefl 0)
  · rcases hlost.workers j with hw | hw <;> rw [hw] at hj <;> cases hj

/-- `wait_all` blocks while the one task runs; the worker retires it and goes back to its wait. -/
def blockedFirst : List (PoolAction 1) :=
  [.enqueue, .notifyOne none, .takeTask 0, .waitAll, .check, .block, .finishTask 0, .retire 0,
    .notifyAll 0, .takeTask 0]

theorem no_lostWakeUp_blocked_first :
    ∃ s, (threads 1).run NotifiesInTime blockedFirst {} = some s ∧ s.workers 0 = .waiting ∧
      s.waiter = .entering 1 ∧ ¬ LostWakeUp s := by
  refine ⟨((threads 1).run NotifiesInTime blockedFirst {}).get (by decide), by simp, by decide, by decide, ?_⟩
  exact no_lostWakeUp (reaches_of_run (Option.some_get _).symm)

/-- `wait_all` finds the task active; before it blocks, the worker decrements and notifies. -/
def notifiedFirst : List (PoolAction 1) :=
  [.enqueue, .notifyOne none, .takeTask 0, .waitAll, .check, .finishTask 0, .retire 0, .notifyAll 0,
    .block, .takeTask 0]

/-- The notification came too early: `wait_all` is blocked, there is nothing left to do, and the worker waits for a
task. -/
theorem wakeUp_lost :
    ∃ s : ThreadPool 1, (threads 1).Reaches Anything {} s ∧ (∀ i, s.workers i = .waiting) ∧ LostWakeUp s := by
  refine ⟨((threads 1).run Anything notifiedFirst {}).get (by decide), reaches_of_run (Option.some_get _).symm,
    by decide, ?_⟩
  exact ⟨by decide, by decide, by decide, by decide⟩

end ThreadPool

end QuantForge
