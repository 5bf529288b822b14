import QuantForge.Interleaving

/-!
# The thread pool

`thread_pool.cpp` as a system of threads: the workers, the callers of `enqueue`, one thread that calls `wait_all`, and
the destructor.  A region under `queue_mutex_` is one action, with one exception: `wait_all` evaluates its predicate
and blocks in two actions, and holds the mutex between them.  The decrement of `active_tasks_` and the `notify_all` of
a worker are actions of their own that do not need the mutex.  Tasks do not throw; they are numbered in the order in
which they are enqueued.
-/

namespace QuantForge

/-- Where a worker stands in its loop. -/
inductive Worker
  /-- about to lock the mutex and look at the queue -/
  | ready
  /-- blocked on `condition_variable_` -/
  | waiting
  /-- in `activate_task_from_queue()` -/
  | running (task : ℕ)
  /-- before `--active_tasks_` -/
  | retiring
  /-- before `completion_cv_.notify_all()` -/
  | notifying
  /-- returned -/
  | exited
  deriving DecidableEq

/-- Where the thread stands that calls `wait_all`; a call remembers how many tasks had been enqueued before it. -/
inductive Waiter
  | outside
  /-- about to lock the mutex and evaluate the predicate -/
  | entering (before : ℕ)
  /-- the predicate was false; the mutex is held until the thread blocks -/
  | checked (before : ℕ)
  /-- blocked on `completion_cv_` -/
  | blocked (before : ℕ)
  | returned (before : ℕ)
  deriving DecidableEq

/-- `ThreadPool` with `n` threads.  `enqueued` counts the tasks so far, `finished` lists those that have returned, and
`unnotified` counts the calls of `enqueue` that have still to notify a worker. -/
structure ThreadPool (n : ℕ) where
  tasks : List ℕ := []
  active : ℤ := 0
  stop : Bool := false
  workers : Fin n → Worker := fun _ => .ready
  waiter : Waiter := .outside
  enqueued : ℕ := 0
  unnotified : ℕ := 0
  finished : List ℕ := []

/-- The actions of the threads. -/
inductive PoolAction (n : ℕ)
  /-- the locked region of `enqueue` -/
  | enqueue
  /-- `condition_variable_.notify_one()`: wakes a worker that waits, if there is one -/
  | notifyOne (woken : Option (Fin n))
  /-- the locked region of a worker -/
  | takeTask (i : Fin n)
  /-- the task of a worker returns -/
  | finishTask (i : Fin n)
  /-- `--active_tasks_` -/
  | retire (i : Fin n)
  /-- `completion_cv_.notify_all()` -/
  | notifyAll (i : Fin n)
  /-- `wait_all` is called -/
  | waitAll
  /-- `wait_all` evaluates its predicate -/
  | check
  /-- `wait_all` releases the mutex and blocks -/
  | block
  /-- a spurious wake-up of a worker -/
  | wakeWorker (i : Fin n)
  /-- a spurious wake-up of the thread in `wait_all` -/
  | wakeWaiter
  /-- the locked region of the destructor -/
  | destroy
  /-- `condition_variable_.notify_all()` in the destructor -/
  | notifyStop

namespace Worker

/-- The worker is between `++active_tasks_` and `--active_tasks_`. -/
def isActive : Worker → Bool
  | running _ => true
  | retiring => true
  | _ => false

def isRunning : Worker → Bool
  | running _ => true
  | _ => false

/-- The worker runs the given task. -/
def runs (task : ℕ) : Worker → Bool
  | running t => t == task
  | _ => false

/-- The worker has been woken. -/
def wake : Worker → Worker
  | waiting => ready
  | w => w

end Worker

namespace Waiter

/-- The thread is not inside `wait_all`. -/
def isOutside : Waiter → Bool
  | outside => true
  | returned _ => true
  | _ => false

def isEntering : Waiter → Bool
  | entering _ => true
  | _ => false

/-- The thread holds `queue_mutex_`. -/
def isChecked : Waiter → Bool
  | checked _ => true
  | _ => false

def isBlocked : Waiter → Bool
  | blocked _ => true
  | _ => false

/-- How many tasks had been enqueued when `wait_all` was called. -/
def called : Waiter → ℕ
  | outside => 0
  | entering before => before
  | checked before => before
  | blocked before => before
  | returned before => before

/-- The thread has been woken. -/
def wake : Waiter → Waiter
  | blocked before => entering before
  | w => w

end Waiter

namespace ThreadPool

variable {n : ℕ}

def setWorker (s : ThreadPool n) (i : Fin n) (w : Worker) : ThreadPool n :=
  { s with workers := Function.update s.workers i w }

/-- The predicate of `wait_all`. -/
def isDone (s : ThreadPool n) : Bool := s.tasks.isEmpty && s.active = 0

/-- A worker that holds the mutex: it takes a task, returns, or waits. -/
def takeTask (s : ThreadPool n) (i : Fin n) : ThreadPool n :=
  match s.tasks with
  | task :: tasks => { s.setWorker i (.running task) with tasks := tasks, active := s.active + 1 }
  | [] => s.setWorker i (if s.stop then .exited else .waiting)

def finishTask (s : ThreadPool n) (i : Fin n) : ThreadPool n :=
  match s.workers i with
  | .running task => { s.setWorker i .retiring with finished := s.finished ++ [task] }
  | _ => s

/-- `wait_all` evaluates its predicate: it returns, or is about to block. -/
def check (s : ThreadPool n) : ThreadPool n :=
  match s.waiter with
  | .entering before => { s with waiter := if s.isDone then .returned before else .checked before }
  | _ => s

def block (s : ThreadPool n) : ThreadPool n :=
  match s.waiter with
  | .checked before => { s with waiter := .blocked before }
  | _ => s

/-- When an action can happen.  The locked regions need the mutex; the pool is used only before it is destroyed, and
it is not destroyed while a thread is in `wait_all`. -/
def Enabled : PoolAction n → ThreadPool n → Prop
  | .enqueue, s => s.waiter.isChecked = false ∧ s.stop = false
  | .notifyOne none, s => 0 < s.unnotified ∧ ∀ i, s.workers i ≠ .waiting
  | .notifyOne (some i), s => 0 < s.unnotified ∧ s.workers i = .waiting
  | .takeTask i, s => s.waiter.isChecked = false ∧ s.workers i = .ready
  | .finishTask i, s => (s.workers i).isRunning = true
  | .retire i, s => s.workers i = .retiring
  | .notifyAll i, s => s.workers i = .notifying
  | .waitAll, s => s.waiter.isOutside = true ∧ s.stop = false
  | .check, s => s.waiter.isEntering = true
  | .block, s => s.waiter.isChecked = true
  | .wakeWorker i, s => s.workers i = .waiting
  | .wakeWaiter, s => s.waiter.isBlocked = true
  | .destroy, s => s.waiter.isOutside = true ∧ s.stop = false
  | .notifyStop, s => s.stop = true

/-- What an action does. -/
def effect : PoolAction n → ThreadPool n → ThreadPool n
  | .enqueue, s =>
    { s with tasks := s.tasks ++ [s.enqueued], enqueued := s.enqueued + 1, unnotified := s.unnotified + 1 }
  | .notifyOne none, s => { s with unnotified := s.unnotified - 1 }
  | .notifyOne (some i), s => { s.setWorker i .ready with unnotified := s.unnotified - 1 }
  | .takeTask i, s => s.takeTask i
  | .finishTask i, s => s.finishTask i
  | .retire i, s => { s.setWorker i .notifying with active := s.active - 1 }
  | .notifyAll i, s => { s.setWorker i .ready with waiter := s.waiter.wake }
  | .waitAll, s => { s with waiter := .entering s.enqueued }
  | .check, s => s.check
  | .block, s => s.block
  | .wakeWorker i, s => s.setWorker i .ready
  | .wakeWaiter, s => { s with waiter := s.waiter.wake }
  | .destroy, s => { s with stop := true }
  | .notifyStop, s => { s with workers := fun i => (s.workers i).wake }

/-- The threads of a pool. -/
def threads (n : ℕ) : Interleaving.System (ThreadPool n) (PoolAction n) := ⟨Enabled, effect⟩

instance : ∀ (a : PoolAction n) (s : ThreadPool n), Decidable ((threads n).Enabled a s)
  | .enqueue, _ => inferInstanceAs (Decidable (_ ∧ _))
  | .notifyOne none, s => inferInstanceAs (Decidable (0 < s.unnotified ∧ ∀ i, s.workers i ≠ .waiting))
  | .notifyOne (some _), _ => inferInstanceAs (Decidable (_ ∧ _))
  | .takeTask _, _ => inferInstanceAs (Decidable (_ ∧ _))
  | .finishTask _, _ => inferInstanceAs (Decidable (_ = _))
  | .retire _, _ => inferInstanceAs (Decidable (_ = _))
  | .notifyAll _, _ => inferInstanceAs (Decidable (_ = _))
  | .waitAll, _ => inferInstanceAs (Decidable (_ ∧ _))
  | .check, _ => inferInstanceAs (Decidable (_ = _))
  | .block, _ => inferInstanceAs (Decidable (_ = _))
  | .wakeWorker _, _ => inferInstanceAs (Decidable (_ = _))
  | .wakeWaiter, _ => inferInstanceAs (Decidable (_ = _))
  | .destroy, _ => inferInstanceAs (Decidable (_ ∧ _))
  | .notifyStop, _ => inferInstanceAs (Decidable (_ = _))

open Interleaving System

/-! ### Where the tasks are -/

/-- The number of places a task is in: the queue, the workers, and the finished tasks. -/
def places (s : ThreadPool n) (task : ℕ) : ℕ :=
  s.tasks.count task + count (Worker.runs task) s.workers + s.finished.count task

/-- Every enqueued task is in one place, and `active_tasks_` is the number of workers between the increment and the
decrement. -/
structure Accounted (s : ThreadPool n) : Prop where
  active : s.active = count Worker.isActive s.workers
  places : ∀ task, s.places task = if task < s.enqueued then 1 else 0

variable {s : ThreadPool n} {i : Fin n}

theorem Accounted.active_nonneg (h : Accounted s) : 0 ≤ s.active := by
  rw [h.active]
  exact Int.natCast_nonneg _

/-- Moving a worker between two program points outside the region in which it has a task. -/
private theorem Accounted.setWorker (h : Accounted s) {w : Worker} (ha : w.isActive = (s.workers i).isActive)
    (hr : ∀ task, w.runs task = (s.workers i).runs task) : Accounted (s.setWorker i w) := by
  refine ⟨?_, fun task => ?_⟩
  · show s.active = count Worker.isActive (Function.update s.workers i w)
    rw [count_update_of_eq ha]
    exact h.active
  · show s.tasks.count task + count (Worker.runs task) (Function.update s.workers i w) + s.finished.count task = _
    rw [count_update_of_eq (hr task)]
    exact h.places task

theorem takeTask_nil (h : s.tasks = []) : s.takeTask i = s.setWorker i (if s.stop then .exited else .waiting) := by
  unfold takeTask
  rw [h]

theorem takeTask_cons {task : ℕ} {tasks : List ℕ} (h : s.tasks = task :: tasks) :
    s.takeTask i = { s.setWorker i (.running task) with tasks := tasks, active := s.active + 1 } := by
  unfold takeTask
  rw [h]

theorem finishTask_running {task : ℕ} (h : s.workers i = .running task) :
    s.finishTask i = { s.setWorker i .retiring with finished := s.finished ++ [task] } := by
  unfold finishTask
  rw [h]

private theorem Accounted.takeTask (h : Accounted s) (hi : s.workers i = .ready) : Accounted (s.takeTask i) := by
  rcases htasks : s.tasks with _ | ⟨t, tasks⟩
  · rw [takeTask_nil htasks]
    refine h.setWorker ?_ fun task => ?_ <;> rw [hi] <;> split <;> rfl
  · rw [takeTask_cons htasks]
    refine ⟨?_, fun task => ?_⟩
    · have hcount := count_update Worker.isActive s.workers i (.running t)
      rw [hi] at hcount
      show s.active + 1 = (count Worker.isActive (Function.update s.workers i (.running t)) : ℤ)
      rw [h.active]
      exact_mod_cast hcount.symm
    · have hcount := count_update (Worker.runs task) s.workers i (.running t)
      have hplaces := h.places task
      rw [hi] at hcount
      rw [ThreadPool.places, htasks, List.count_cons] at hplaces
      show tasks.count task + count (Worker.runs task) (Function.update s.workers i (.running t)) +
        s.finished.count task = if task < s.enqueued then 1 else 0
      rw [← hplaces]
      -- the task leaves the queue and the worker has it
      by_cases ht : t = task
      · simp [Worker.runs, ht] at hcount ⊢
        omega
      · have hb : (t == task) = false := beq_false_of_ne ht
        simp [Worker.runs, hb] at hcount ⊢
        omega

private theorem Accounted.finishTask (h : Accounted s) (hi : (s.workers i).isRunning = true) :
    Accounted (s.finishTask i) := by
  rcases hw : s.workers i with _ | _ | t | _ | _ | _ <;> rw [hw] at hi <;> try cases hi
  rw [finishTask_running hw]
  refine ⟨?_, fun task => ?_⟩
  · show s.active = (count Worker.isActive (Function.update s.workers i .retiring) : ℤ)
    rw [count_update_of_eq (by rw [hw]; rfl)]
    exact h.active
  · have hcount := count_update (Worker.runs task) s.workers i .retiring
    have hplaces := h.places task
    rw [hw] at hcount
    rw [ThreadPool.places] at hplaces
    show s.tasks.count task + count (Worker.runs task) (Function.update s.workers i .retiring) +
      (s.finished ++ [t]).count task = if task < s.enqueued then 1 else 0
    rw [← hplaces, List.count_append, List.count_singleton]
    by_cases ht : t = task
    · simp [Worker.runs, ht] at hcount ⊢
      omega
    · have hb : (t == task) = false := beq_false_of_ne ht
      simp [Worker.runs, hb] at hcount ⊢
      omega

private theorem Accounted.retire (h : Accounted s) (hi : s.workers i = .retiring) :
    Accounted { s.setWorker i .notifying with active := s.active - 1 } := by
  refine ⟨?_, fun task => ?_⟩
  · have hcount := count_update Worker.isActive s.workers i .notifying
    rw [hi] at hcount
    show s.active - 1 = (count Worker.isActive (Function.update s.workers i .notifying) : ℤ)
    rw [h.active, sub_eq_iff_eq_add]
    exact_mod_cast hcount.symm
  · show s.tasks.count task + count (Worker.runs task) (Function.update s.workers i .notifying) +
      s.finished.count task = if task < s.enqueued then 1 else 0
    rw [count_update_of_eq (by rw [hi]; rfl)]
    exact h.places task

private theorem Accounted.enqueue (h : Accounted s) :
    Accounted { s with tasks := s.tasks ++ [s.enqueued], enqueued := s.enqueued + 1,
                       unnotified := s.unnotified + 1 } := by
  refine ⟨h.active, fun task => ?_⟩
  have hplaces := h.places task
  rw [ThreadPool.places] at hplaces
  show (s.tasks ++ [s.enqueued]).count task + count (Worker.runs task) s.workers + s.finished.count task =
    if task < s.enqueued + 1 then 1 else 0
  rw [List.count_append, List.count_singleton]
  by_cases ht : s.enqueued = task
  · subst ht
    simp at hplaces ⊢
    omega
  · have hlt : task < s.enqueued + 1 ↔ task < s.enqueued := by omega
    simp only [beq_iff_eq, ht, if_false, hlt]
    omega

/-- Waking the workers moves those that wait to where they look at the queue. -/
private theorem count_wake {p : Worker → Bool} (hp : p .ready = p .waiting) (w : Fin n → Worker) :
    (count p fun i => (w i).wake) = count p w := by
  refine Finset.sum_congr rfl fun i _ => ?_
  have hi : p (w i).wake = p (w i) := by
    cases w i with
    | waiting => exact hp
    | _ => rfl
  rw [hi]

/-- Every action keeps the account. -/
theorem Accounted.effect {a : PoolAction n} (h : Accounted s) (hen : Enabled a s) : Accounted (effect a s) := by
  cases a with
  | enqueue => exact h.enqueue
  | notifyOne woken =>
    cases woken with
    | none => exact ⟨h.active, h.places⟩
    | some i =>
      have h' := h.setWorker (i := i) (w := .ready) (by rw [hen.2]; rfl) (fun _ => by rw [hen.2]; rfl)
      exact ⟨h'.active, h'.places⟩
  | takeTask i => exact h.takeTask hen.2
  | finishTask i => exact h.finishTask hen
  | retire i => exact h.retire hen
  | notifyAll i =>
    have hi : s.workers i = .notifying := hen
    have h' := h.setWorker (i := i) (w := .ready) (by rw [hi]; rfl) (fun _ => by rw [hi]; rfl)
    exact ⟨h'.active, h'.places⟩
  | waitAll => exact ⟨h.active, h.places⟩
  | check =>
    show Accounted s.check
    unfold ThreadPool.check
    split <;> exact ⟨h.active, h.places⟩
  | block =>
    show Accounted s.block
    unfold ThreadPool.block
    split <;> exact ⟨h.active, h.places⟩
  | wakeWorker i =>
    have hi : s.workers i = .waiting := hen
    exact h.setWorker (by rw [hi]; rfl) (fun _ => by rw [hi]; rfl)
  | wakeWaiter => exact ⟨h.active, h.places⟩
  | destroy => exact ⟨h.active, h.places⟩
  | notifyStop =>
    refine ⟨?_, fun task => ?_⟩
    · show s.active = (count Worker.isActive fun i => (s.workers i).wake : ℕ)
      rw [count_wake rfl]
      exact h.active
    · show s.tasks.count task + (count (Worker.runs task) fun i => (s.workers i).wake) + s.finished.count task =
        if task < s.enqueued then 1 else 0
      rw [count_wake rfl]
      exact h.places task

theorem accounted_init : Accounted ({} : ThreadPool n) := by
  refine ⟨?_, fun task => ?_⟩
  · show (0 : ℤ) = (count Worker.isActive fun _ : Fin n => Worker.ready : ℕ)
    rw [count_eq_zero.2 fun _ => rfl]
    rfl
  · show ([] : List ℕ).count task + (count (Worker.runs task) fun _ : Fin n => Worker.ready) +
      ([] : List ℕ).count task = 0
    rw [count_eq_zero.2 fun _ => rfl]
    rfl

/-- Every interleaving keeps the account. -/
theorem accounted {G : PoolAction n → ThreadPool n → Prop} (hr : (threads n).Reaches G {} s) : Accounted s :=
  hr.invariant accounted_init fun _ _ h hen _ => h.effect hen

/-! ### What `wait_all` waits for -/

/-- A call of `wait_all` that has returned has seen the tasks before it finish. -/
structure Waited (s : ThreadPool n) : Prop where
  called : s.waiter.called ≤ s.enqueued
  returned : ∀ before, s.waiter = .returned before → ∀ task < before, task ∈ s.finished

/-- With an empty queue and no active worker, every task has finished. -/
private theorem Accounted.finished_of_isDone (h : Accounted s) (hd : s.isDone = true) {task : ℕ}
    (ht : task < s.enqueued) : task ∈ s.finished := by
  obtain ⟨htasks, hactive⟩ : s.tasks = [] ∧ s.active = 0 := by simpa [isDone] using hd
  have hnone : count Worker.isActive s.workers = 0 := by
    have := h.active
    omega
  have hrun : count (Worker.runs task) s.workers = 0 := by
    refine count_eq_zero.2 fun i => ?_
    have hi := count_eq_zero.1 hnone i
    rcases hw : s.workers i with _ | _ | t | _ | _ | _ <;> first | rfl | rw [hw] at hi; cases hi
  have hplaces := h.places task
  rw [ThreadPool.places, htasks, hrun, if_pos ht, List.count_nil, zero_add, zero_add] at hplaces
  exact List.count_pos_iff.1 (by omega)

/-- An action that leaves the thread in `wait_all` alone and takes nothing away. -/
private theorem Waited.of_frame {s' : ThreadPool n} (h : Waited s) (hw : s'.waiter = s.waiter)
    (he : s.enqueued ≤ s'.enqueued) (hf : ∀ task ∈ s.finished, task ∈ s'.finished) : Waited s' := by
  refine ⟨by rw [hw]; exact h.called.trans he, fun before hb task ht => ?_⟩
  rw [hw] at hb
  exact hf task (h.returned before hb task ht)

/-- Waking the thread in `wait_all`. -/
private theorem Waited.wake {s' : ThreadPool n} (h : Waited s) (hw : s'.waiter = s.waiter.wake)
    (he : s'.enqueued = s.enqueued) (hf : s'.finished = s.finished) : Waited s' := by
  refine ⟨?_, fun before hb task ht => ?_⟩
  · rw [hw, he]
    have := h.called
    cases hs : s.waiter <;> rw [hs] at this <;> exact this
  · rw [hw] at hb
    rw [hf]
    refine h.returned before ?_ task ht
    cases hs : s.waiter <;> rw [hs] at hb <;> first | exact hb | cases hb

/-- The check succeeds only when every task has finished. -/
private theorem Waited.check (h : Waited s) (hacc : Accounted s) : Waited s.check := by
  unfold ThreadPool.check
  split
  · rename_i before hb
    have hcalled := h.called
    rw [hb] at hcalled
    by_cases hd : s.isDone = true
    · simp only [hd, if_true]
      refine ⟨hcalled, fun before' hb' task ht => ?_⟩
      cases hb'
      exact hacc.finished_of_isDone hd (ht.trans_le hcalled)
    · simp only [hd]
      exact ⟨hcalled, fun before' hb' => by cases hb'⟩
  · exact h

private theorem Waited.block (h : Waited s) : Waited s.block := by
  unfold ThreadPool.block
  split
  · rename_i before hb
    have hcalled := h.called
    rw [hb] at hcalled
    exact ⟨hcalled, fun before' hb' => by cases hb'⟩
  · exact h

private theorem Waited.effect {a : PoolAction n} (h : Waited s) (hacc : Accounted s) : Waited (effect a s) := by
  cases a with
  | enqueue => exact h.of_frame rfl (Nat.le_succ _) fun _ ht => ht
  | notifyOne woken => cases woken <;> exact h.of_frame rfl (le_refl _) fun _ ht => ht
  | takeTask i =>
    show Waited (s.takeTask i)
    rcases htasks : s.tasks with _ | ⟨t, tasks⟩
    · rw [takeTask_nil htasks]
      exact h.of_frame rfl (le_refl _) fun _ ht => ht
    · rw [takeTask_cons htasks]
      exact h.of_frame rfl (le_refl _) fun _ ht => ht
  | finishTask i =>
    show Waited (s.finishTask i)
    unfold ThreadPool.finishTask
    split
    · exact h.of_frame rfl (le_refl _) fun _ ht => List.mem_append_left _ ht
    · exact h
  | retire i => exact h.of_frame rfl (le_refl _) fun _ ht => ht
  | notifyAll i => exact h.wake rfl rfl rfl
  | waitAll => exact ⟨le_refl _, fun before hb => by cases hb⟩
  | check => exact h.check hacc
  | block => exact h.block
  | wakeWorker i => exact h.of_frame rfl (le_refl _) fun _ ht => ht
  | wakeWaiter => exact h.wake rfl rfl rfl
  | destroy => exact h.of_frame rfl (le_refl _) fun _ ht => ht
  | notifyStop => exact h.of_frame rfl (le_refl _) fun _ ht => ht

theorem waited {G : PoolAction n → ThreadPool n → Prop} (hr : (threads n).Reaches G {} s) : Waited s := by
  refine (hr.invariant (J := fun s => Accounted s ∧ Waited s) ⟨accounted_init, ?_⟩ ?_).2
  · exact ⟨le_refl 0, fun before hb => by cases hb⟩
  · exact fun a s h hen _ => ⟨h.1.effect hen, h.2.effect h.1⟩

/-- When `wait_all` has returned to a caller that enqueues nothing more, every task has finished, once. -/
theorem finished_perm {G : PoolAction n → ThreadPool n → Prop} (hr : (threads n).Reaches G {} s)
    (hret : s.waiter = .returned s.enqueued) : s.finished.Perm (List.range s.enqueued) := by
  refine List.perm_iff_count.2 fun task => ?_
  have hplaces := (accounted hr).places task
  unfold ThreadPool.places at hplaces
  by_cases ht : task < s.enqueued
  · have hpos : 0 < s.finished.count task := List.count_pos_iff.2 ((waited hr).returned _ hret task ht)
    rw [if_pos ht] at hplaces
    rw [List.count_eq_one_of_mem List.nodup_range (List.mem_range.2 ht)]
    omega
  · rw [if_neg ht] at hplaces
    rw [List.count_eq_zero_of_not_mem fun hm => ht (List.mem_range.1 hm)]
    omega

/-- Completion safety: in every interleaving of any number of workers, every enqueued task is in exactly one place,
`active_tasks_` stays between zero and the number of workers, and when `wait_all` has returned, the tasks enqueued
before the call have finished. -/
theorem completion_safety (hr : (threads n).Reaches Anything {} s) :
    (∀ task < s.enqueued,
      s.tasks.count task + count (Worker.runs task) s.workers + s.finished.count task = 1) ∧
      0 ≤ s.active ∧ s.active ≤ n ∧
      ∀ before, s.waiter = .returned before → ∀ task < before, task ∈ s.finished := by
  have hacc := accounted hr
  refine ⟨fun task ht => ?_, hacc.active_nonneg, ?_, (waited hr).returned⟩
  · have hplaces := hacc.places task
    rwa [if_pos ht] at hplaces
  · have hcard := count_le_card Worker.isActive s.workers
    rw [Fintype.card_fin] at hcard
    rw [hacc.active]
    exact_mod_cast hcard

/-- Two workers, three tasks and a call of `wait_all` before the third. -/
def twoWorkers : List (PoolAction 2) :=
  [.takeTask 0, .enqueue, .notifyOne (some 0), .enqueue, .notifyOne none, .takeTask 0, .takeTask 1, .waitAll, .check,
    .finishTask 1, .block, .retire 1, .notifyAll 1, .check, .block, .finishTask 0, .retire 0, .notifyAll 0, .check,
    .enqueue]

/-- `wait_all` returns when its two tasks have finished, and the third is still in the queue. -/
theorem completion_safety_two_workers :
    ∃ s, (threads 2).run Anything twoWorkers {} = some s ∧ s.waiter = .returned 2 ∧ s.tasks = [2] ∧
      (∀ task < s.enqueued,
        s.tasks.count task + count (Worker.runs task) s.workers + s.finished.count task = 1) ∧
      ∀ before, s.waiter = .returned before → ∀ task < before, task ∈ s.finished := by
  refine ⟨((threads 2).run Anything twoWorkers {}).get (by decide), by simp, by decide, by decide, ?_⟩
  obtain ⟨hplaces, -, -, hdone⟩ := completion_safety (reaches_of_run (Option.some_get _).symm)
  exact ⟨hplaces, hdone⟩

end ThreadPool

end QuantForge
