import Mathlib
import QuantForge.WakeUp

/-!
# Every task runs

Left to themselves, with no new calls and no spurious wake-ups, the threads of a pool come to a halt after a bounded
number of actions, in whatever order they are scheduled; and where they halt, every task enqueued so far has finished
(`every_task_runs`).  Nothing is forgotten on the way because a worker does not wait while there are more tasks than
notifications to come and workers about to look (`Notified`).
-/

namespace QuantForge

namespace ThreadPool

open Interleaving System

variable {n : ℕ} {s s' : ThreadPool n} {i : Fin n}

/-- The actions of the threads themselves: no new call, no spurious wake-up, and the destructor notifies only workers
that wait. -/
def Own : PoolAction n → ThreadPool n → Prop
  | .enqueue, _ => False
  | .waitAll, _ => False
  | .destroy, _ => False
  | .wakeWorker _, _ => False
  | .wakeWaiter, _ => False
  | .notifyStop, s => ∃ i, s.workers i = .waiting
  | _, _ => True

instance : ∀ (a : PoolAction n) (s : ThreadPool n), Decidable (Own a s)
  | .enqueue, _ => isFalse id
  | .waitAll, _ => isFalse id
  | .destroy, _ => isFalse id
  | .wakeWorker _, _ => isFalse id
  | .wakeWaiter, _ => isFalse id
  | .notifyStop, s => inferInstanceAs (Decidable (∃ i, s.workers i = .waiting))
  | .notifyOne _, _ => isTrue trivial
  | .takeTask _, _ => isTrue trivial
  | .finishTask _, _ => isTrue trivial
  | .retire _, _ => isTrue trivial
  | .notifyAll _, _ => isTrue trivial
  | .check, _ => isTrue trivial
  | .block, _ => isTrue trivial

/-- No thread can go on by itself. -/
def Halted (s : ThreadPool n) : Prop := ∀ a, Own a s → ¬ (threads n).Enabled a s

/-! ### The work that is left -/

/-- A worker passes from each place to one with less work; a worker that waits has work once the pool is destroyed. -/
def workerRank (stop : Bool) : Worker → ℕ
  | .running _ => 6
  | .retiring => 5
  | .notifying => 4
  | .waiting => if stop then 2 else 0
  | .ready => 1
  | .exited => 0

def waiterRank : Waiter → ℕ
  | .entering _ => 2
  | .checked _ => 1
  | _ => 0

/-- A bound on the actions the threads can still make by themselves. -/
def work (s : ThreadPool n) : ℕ :=
  7 * s.tasks.length + 2 * s.unnotified + ∑ i, workerRank s.stop (s.workers i) + waiterRank s.waiter

theorem waiterRank_wake (w : Waiter) : waiterRank w.wake ≤ waiterRank w + 2 := by
  cases w <;> simp [Waiter.wake, waiterRank]

/-- Moving a worker. -/
private theorem work_setWorker (s : ThreadPool n) (i : Fin n) (w : Worker) :
    (s.setWorker i w).work + workerRank s.stop (s.workers i) = s.work + workerRank s.stop w := by
  have h := sum_update (workerRank s.stop) s.workers i w
  unfold work setWorker
  dsimp only
  omega

/-- Waking the workers of a destroyed pool leaves less work if one of them waits. -/
private theorem work_notifyStop (hstop : s.stop = true) (hi : s.workers i = .waiting) :
    work { s with workers := fun j => (s.workers j).wake } < s.work := by
  have hlt : ∑ j, workerRank s.stop (s.workers j).wake < ∑ j, workerRank s.stop (s.workers j) := by
    refine Finset.sum_lt_sum (fun j _ => ?_) ⟨i, Finset.mem_univ i, ?_⟩
    · rw [hstop]
      cases s.workers j <;> simp [Worker.wake, workerRank]
    · rw [hstop, hi]
      simp [Worker.wake, workerRank]
  unfold work
  dsimp only
  omega

private theorem work_takeTask (hi : s.workers i = .ready) : (s.takeTask i).work < s.work := by
  rcases htasks : s.tasks with _ | ⟨t, tasks⟩
  · rw [takeTask_nil htasks]
    have h := work_setWorker s i (if s.stop then .exited else .waiting)
    rw [hi] at h
    cases hstop : s.stop <;> simp [hstop, workerRank] at h ⊢ <;> omega
  · rw [takeTask_cons htasks]
    have h := work_setWorker s i (.running t)
    rw [hi] at h
    simp only [workerRank] at h
    have hlen : (s.setWorker i (.running t)).tasks.length = tasks.length + 1 := by
      show s.tasks.length = _
      rw [htasks, List.length_cons]
    unfold work at h ⊢
    dsimp only at h ⊢
    omega

/-- Every action of the threads by themselves leaves less work. -/
theorem work_effect (a : PoolAction n) (s : ThreadPool n) (hen : (threads n).Enabled a s) (hown : Own a s) :
    ((threads n).effect a s).work < s.work := by
  show (effect a s).work < s.work
  have hen : Enabled a s := hen
  cases a with
  | enqueue => exact hown.elim
  | waitAll => exact hown.elim
  | destroy => exact hown.elim
  | wakeWorker i => exact hown.elim
  | wakeWaiter => exact hown.elim
  | notifyOne woken =>
    cases woken with
    | none =>
      have hpos : 0 < s.unnotified := hen.1
      simp only [effect, work]
      omega
    | some i =>
      have hpos : 0 < s.unnotified := hen.1
      have h := work_setWorker s i .ready
      rw [hen.2] at h
      unfold work at h
      simp only [effect, work]
      cases hstop : s.stop <;> simp only [hstop, workerRank, setWorker] at h ⊢ <;> simp at h ⊢ <;> omega
  | takeTask i => exact work_takeTask hen.2
  | finishTask i =>
    rcases hw : s.workers i with _ | _ | t | _ | _ | _ <;> rw [Enabled, hw] at hen <;> try cases hen
    have h := work_setWorker s i .retiring
    rw [hw] at h
    show (s.finishTask i).work < s.work
    rw [finishTask_running hw]
    simp only [workerRank] at h
    unfold work at h ⊢
    dsimp only at h ⊢
    omega
  | retire i =>
    have hw : s.workers i = .retiring := hen
    have h := work_setWorker s i .notifying
    rw [hw] at h
    simp only [workerRank] at h
    simp only [effect, work] at h ⊢
    omega
  | notifyAll i =>
    have hw : s.workers i = .notifying := hen
    have h := work_setWorker s i .ready
    rw [hw] at h
    have hwake := waiterRank_wake s.waiter
    simp only [workerRank] at h
    simp only [effect, work, setWorker] at h ⊢
    omega
  | check =>
    show s.check.work < s.work
    unfold check
    rcases hw : s.waiter with _ | b | b | b | b <;> rw [Enabled, hw] at hen <;> try cases hen
    simp only [work, hw]
    split <;> simp [waiterRank]
  | block =>
    show s.block.work < s.work
    unfold block
    rcases hw : s.waiter with _ | b | b | b | b <;> rw [Enabled, hw] at hen <;> try cases hen
    simp [work, hw, waiterRank]
  | notifyStop =>
    obtain ⟨i, hi⟩ := hown
    exact work_notifyStop hen hi

/-! ### No worker waits in vain -/

def isReady : Worker → Bool
  | .ready => true
  | _ => false

/-- While a worker waits, there are not more tasks than notifications to come and workers about to look.  Workers
leave only a destroyed pool without tasks, and nobody is in `wait_all` of a destroyed pool. -/
structure Notified (s : ThreadPool n) : Prop where
  waiting : ∀ i, s.workers i = .waiting → s.tasks.length ≤ s.unnotified + count isReady s.workers
  exited : ∀ i, s.workers i = .exited → s.stop = true ∧ s.tasks = []
  outside : s.stop = true → s.waiter.isOutside = true

/-- Moving a worker that does not wait afterwards. -/
private theorem Notified.setWorker (h : Notified s) {w : Worker} (hw : w ≠ .waiting) (hx : w ≠ .exited)
    (hr : (isReady (s.workers i)).toNat ≤ (isReady w).toNat) : Notified (s.setWorker i w) := by
  have hcount := count_update isReady s.workers i w
  have hworker : ∀ j, (s.setWorker i w).workers j = if j = i then w else s.workers j := fun j => by
    simp [ThreadPool.setWorker, Function.update_apply]
  refine ⟨fun j hj => ?_, fun j hj => ?_, h.outside⟩ <;> rw [hworker] at hj <;> split at hj
  · exact absurd hj hw
  · have hle := h.waiting j hj
    show s.tasks.length ≤ s.unnotified + count isReady (Function.update s.workers i w)
    omega
  · exact absurd hj hx
  · exact h.exited j hj

private theorem Notified.takeTask (h : Notified s) (hi : s.workers i = .ready) : Notified (s.takeTask i) := by
  rcases htasks : s.tasks with _ | ⟨t, tasks⟩
  · rw [takeTask_nil htasks]
    refine ⟨fun j _ => ?_, fun j hj => ?_, h.outside⟩
    · show s.tasks.length ≤ _
      rw [htasks]
      exact Nat.zero_le _
    · by_cases hji : j = i
      · rw [hji] at hj
        by_cases hstop : s.stop = true
        · exact ⟨hstop, htasks⟩
        · simp [ThreadPool.setWorker, hstop] at hj
      · exact h.exited j (by simpa [ThreadPool.setWorker, hji] using hj)
  · rw [takeTask_cons htasks]
    have hcount := count_update isReady s.workers i (.running t)
    rw [hi] at hcount
    refine ⟨fun j hj => ?_, fun j hj => ?_, h.outside⟩
    · by_cases hji : j = i
      · simp [ThreadPool.setWorker, hji] at hj
      · have hle := h.waiting j (by simpa [ThreadPool.setWorker, hji] using hj)
        rw [htasks, List.length_cons] at hle
        show tasks.length ≤ s.unnotified + count isReady (Function.update s.workers i (.running t))
        simp only [isReady, Bool.toNat_true, Bool.toNat_false] at hcount
        omega
    · by_cases hji : j = i
      · simp [ThreadPool.setWorker, hji] at hj
      · have hex := (h.exited j (by simpa [ThreadPool.setWorker, hji] using hj)).2
        rw [htasks] at hex
        cases hex

private theorem isOutside_wake {w : Waiter} (h : w.isOutside = true) : w.wake.isOutside = true := by
  cases w with
  | outside => rfl
  | returned _ => rfl
  | _ => cases h

private theorem Notified.effect {a : PoolAction n} (h : Notified s) (hen : Enabled a s) : Notified (effect a s) := by
  cases a with
  | enqueue =>
    have hstop : s.stop = false := hen.2
    refine ⟨fun i hi => ?_, fun i hi => ?_, fun hs => ?_⟩
    · have hle := h.waiting i hi
      show (s.tasks ++ [s.enqueued]).length ≤ s.unnotified + 1 + count isReady s.workers
      rw [List.length_append, List.length_singleton]
      omega
    · rw [(h.exited i hi).1] at hstop
      cases hstop
    · rw [show s.stop = true from hs] at hstop
      cases hstop
  | notifyOne woken =>
    cases woken with
    | none => exact ⟨fun i hi => absurd hi (hen.2 i), h.exited, h.outside⟩
    | some i =>
      have hpos : 0 < s.unnotified := hen.1
      have hset := h.setWorker (i := i) (w := .ready) (by simp) (by simp) (Bool.toNat_le _)
      have hcount := count_update isReady s.workers i .ready
      rw [hen.2] at hcount
      refine ⟨fun j hj => ?_, hset.exited, h.outside⟩
      by_cases hji : j = i
      · rw [hji] at hj
        simp [ThreadPool.effect, ThreadPool.setWorker] at hj
      · have hle := h.waiting j (by simpa [ThreadPool.effect, ThreadPool.setWorker, hji] using hj)
        show s.tasks.length ≤ s.unnotified - 1 + count isReady (Function.update s.workers i .ready)
        simp only [isReady, Bool.toNat_true, Bool.toNat_false] at hcount
        omega
  | takeTask i => exact h.takeTask hen.2
  | finishTask i =>
    rcases hw : s.workers i with _ | _ | t | _ | _ | _ <;> rw [Enabled, hw] at hen <;> try cases hen
    have hset := h.setWorker (i := i) (w := .retiring) (by simp) (by simp) (by rw [hw]; exact le_rfl)
    show Notified (s.finishTask i)
    rw [finishTask_running hw]
    exact ⟨hset.waiting, hset.exited, hset.outside⟩
  | retire i =>
    have hw : s.workers i = .retiring := hen
    have hset := h.setWorker (i := i) (w := .notifying) (by simp) (by simp) (by rw [hw]; exact le_rfl)
    exact ⟨hset.waiting, hset.exited, hset.outside⟩
  | notifyAll i =>
    have hset := h.setWorker (i := i) (w := .ready) (by simp) (by simp) (Bool.toNat_le _)
    exact ⟨hset.waiting, hset.exited, fun hs => isOutside_wake (h.outside hs)⟩
  | waitAll =>
    have hstop : s.stop = false := hen.2
    refine ⟨h.waiting, h.exited, fun hs => ?_⟩
    rw [show s.stop = true from hs] at hstop
    cases hstop
  | check =>
    show Notified s.check
    unfold check
    split
    · refine ⟨h.waiting, h.exited, fun hs => ?_⟩
      rename_i before hw
      have hout := h.outside hs
      rw [hw] at hout
      cases hout
    · exact h
  | block =>
    show Notified s.block
    unfold block
    split
    · refine ⟨h.waiting, h.exited, fun hs => ?_⟩
      rename_i before hw
      have hout := h.outside hs
      rw [hw] at hout
      cases hout
    · exact h
  | wakeWorker i => exact h.setWorker (by simp) (by simp) (Bool.toNat_le _)
  | wakeWaiter => exact ⟨h.waiting, h.exited, fun hs => isOutside_wake (h.outside hs)⟩
  | destroy => exact ⟨h.waiting, fun i hi => ⟨rfl, (h.exited i hi).2⟩, fun _ => hen.1⟩
  | notifyStop =>
    refine ⟨fun i hi => ?_, fun i hi => ?_, h.outside⟩
    · have hwake : (s.workers i).wake = .waiting := hi
      cases hw : s.workers i <;> rw [hw] at hwake <;> cases hwake
    · have hwake : (s.workers i).wake = .exited := hi
      refine h.exited i ?_
      cases hw : s.workers i <;> rw [hw] at hwake <;> first | rfl | cases hwake

theorem notified_init : Notified ({} : ThreadPool n) := by
  refine ⟨fun i hi => ?_, fun i hi => ?_, fun hs => ?_⟩
  · cases hi
  · cases hi
  · cases hs

theorem notified {G : PoolAction n → ThreadPool n → Prop} (hr : (threads n).Reaches G {} s) : Notified s :=
  hr.invariant notified_init fun _ _ h hen _ => h.effect hen

/-- Where the threads halt there is no task left, and the workers of a destroyed pool have returned. -/
theorem Notified.of_halted (h : Notified s) (hn : 0 < n) (hhalt : Halted s) :
    s.tasks = [] ∧ (∀ i, s.workers i = .waiting ∨ s.workers i = .exited) ∧
      (s.stop = true → ∀ i, s.workers i = .exited) := by
  have hfree : s.waiter.isChecked = false := by
    by_contra hc
    have hchecked : s.waiter.isChecked = true := by simpa using hc
    exact hhalt .block trivial hchecked
  have hplace : ∀ i, s.workers i = .waiting ∨ s.workers i = .exited := by
    intro i
    rcases hw : s.workers i with _ | _ | t | _ | _ | _
    · exact absurd ⟨hfree, hw⟩ (hhalt (.takeTask i) trivial)
    · exact Or.inl rfl
    · exact absurd (show (s.workers i).isRunning = true by rw [hw]; rfl) (hhalt (.finishTask i) trivial)
    · exact absurd hw (hhalt (.retire i) trivial)
    · exact absurd hw (hhalt (.notifyAll i) trivial)
    · exact Or.inr rfl
  refine ⟨?_, hplace, fun hstop i => ?_⟩
  · by_cases hwait : ∃ i, s.workers i = .waiting
    · obtain ⟨i, hi⟩ := hwait
      have hunnotified : s.unnotified = 0 := by
        by_contra hne
        exact hhalt (.notifyOne (some i)) trivial ⟨Nat.pos_of_ne_zero hne, hi⟩
      have hready : count isReady s.workers = 0 := by
        refine count_eq_zero.2 fun j => ?_
        rcases hplace j with hj | hj <;> rw [hj] <;> rfl
      have hle := h.waiting i hi
      rw [hunnotified, hready] at hle
      exact List.length_eq_zero_iff.1 (Nat.le_zero.1 hle)
    · have hex := (hplace ⟨0, hn⟩).resolve_left fun hi => hwait ⟨_, hi⟩
      exact (h.exited _ hex).2
  · refine (hplace i).resolve_left fun hi => ?_
    exact hhalt .notifyStop ⟨i, hi⟩ hstop

/-- Where every task has left the queue and its worker, every task has finished. -/
theorem Accounted.finished_perm (h : Accounted s) (htasks : s.tasks = [])
    (hplace : ∀ i, s.workers i = .waiting ∨ s.workers i = .exited) : s.finished.Perm (List.range s.enqueued) := by
  refine List.perm_iff_count.2 fun task => ?_
  have hruns : count (Worker.runs task) s.workers = 0 := by
    refine count_eq_zero.2 fun i => ?_
    rcases hplace i with hi | hi <;> rw [hi] <;> rfl
  have hplaces := h.places task
  rw [ThreadPool.places, htasks, hruns, List.count_nil, Nat.zero_add] at hplaces
  rw [hplaces]
  split
  · rename_i ht
    exact (List.count_eq_one_of_mem List.nodup_range (List.mem_range.2 ht)).symm
  · rename_i ht
    exact (List.count_eq_zero_of_not_mem fun hm => ht (List.mem_range.1 hm)).symm

/-- Whatever has happened before and however the threads are scheduled: left to themselves they make a bounded number
of actions, and where they halt every task has finished, once, and the workers of a destroyed pool have returned. -/
theorem every_task_runs (hn : 0 < n) (hr : (threads n).Reaches Anything {} s) {l : List (PoolAction n)}
    (hl : (threads n).run Own l s = some s') :
    l.length ≤ s.work ∧ (Halted s' → s'.finished.Perm (List.range s'.enqueued) ∧
      (s'.stop = true → ∀ i, s'.workers i = .exited)) := by
  refine ⟨le_of_add_le_left (length_le_of_run work_effect hl), fun hhalt => ?_⟩
  have hr' : (threads n).Reaches Anything {} s' :=
    Relation.ReflTransGen.trans hr ((reaches_of_run hl).mono fun _ _ _ => trivial)
  obtain ⟨htasks, hplace, hstop⟩ := (notified hr').of_halted hn hhalt
  exact ⟨(accounted hr').finished_perm htasks hplace, hstop⟩

/-- Where the threads halt after an interleaving whose notifications come in time, nobody is left in `wait_all`. -/
theorem waitAll_returns (hn : 0 < n) (hr : (threads n).Reaches NotifiesInTime {} s) (hhalt : Halted s) :
    s.waiter.isOutside = true ∧ s.finished.Perm (List.range s.enqueued) := by
  have hacc := accounted hr
  obtain ⟨htasks, hplace, -⟩ := (notified hr).of_halted hn hhalt
  refine ⟨?_, hacc.finished_perm htasks hplace⟩
  by_contra hout
  have hinside : s.waiter.isBlocked = true := by
    rcases hw : s.waiter with _ | b | b | b | b
    · rw [hw] at hout
      exact absurd rfl hout
    · exact absurd (show s.waiter.isEntering = true by rw [hw]; rfl) (hhalt .check trivial)
    · exact absurd (show s.waiter.isChecked = true by rw [hw]; rfl) (hhalt .block trivial)
    · rfl
    · rw [hw] at hout
      exact absurd rfl hout
  have hactive : count Worker.isActive s.workers = 0 := by
    refine count_eq_zero.2 fun i => ?_
    rcases hplace i with hi | hi <;> rw [hi] <;> rfl
  refine no_lostWakeUp hr ⟨hinside, htasks, ?_, fun i => Or.inl ((hplace i).resolve_right fun hi => ?_)⟩
  · rw [hacc.active, hactive]
    rfl
  · exact hout ((notified hr).outside ((notified hr).exited i hi).1)

/-- A pool has halted if its workers have returned, or wait and will not be notified, and nobody is in `wait_all`. -/
theorem halted_of_idle (hworkers : ∀ i, s.workers i = .exited ∨ s.workers i = .waiting ∧ s.stop = false)
    (hunnotified : s.unnotified = 0) (hwaiter : s.waiter.isOutside = true) : Halted s := by
  have hnot : ∀ i w, s.workers i = w → w = .exited ∨ w = .waiting := fun i w hw => by
    rcases hworkers i with h | ⟨h, -⟩ <;> rw [← hw, h]
    · exact Or.inl rfl
    · exact Or.inr rfl
  intro a hown hen
  cases a with
  | enqueue => exact hown
  | notifyOne woken =>
    have hpos : 0 < s.unnotified := by
      cases woken with
      | none => exact hen.1
      | some i => exact hen.1
    omega
  | takeTask i => exact absurd (hnot i _ hen.2) (by decide)
  | finishTask i =>
    have hrun : (s.workers i).isRunning = true := hen
    rcases hworkers i with h | ⟨h, -⟩ <;> rw [h] at hrun <;> cases hrun
  | retire i => exact absurd (hnot i _ hen) (by decide)
  | notifyAll i => exact absurd (hnot i _ hen) (by decide)
  | waitAll => exact hown
  | check =>
    have henter : s.waiter.isEntering = true := hen
    cases hw : s.waiter <;> simp [hw, Waiter.isEntering, Waiter.isOutside] at henter hwaiter
  | block =>
    have hcheck : s.waiter.isChecked = true := hen
    cases hw : s.waiter <;> simp [hw, Waiter.isChecked, Waiter.isOutside] at hcheck hwaiter
  | wakeWorker i => exact hown
  | wakeWaiter => exact hown
  | destroy => exact hown
  | notifyStop =>
    obtain ⟨i, hi⟩ := hown
    have hstop : s.stop = true := hen
    rcases hworkers i with h | ⟨-, h⟩
    · rw [h] at hi
      cases hi
    · rw [h] at hstop
      cases hstop

def onlyWorker : Fin 1 := Fin.last 0

/-- Two tasks and one worker, which waits when they are enqueued; the pool is destroyed before the worker has
looked. -/
def destroyedEarly : List (PoolAction 1) :=
  [.takeTask onlyWorker, .enqueue, .enqueue, .notifyOne (some onlyWorker), .destroy]

/-- A worker brings a task to its end. -/
def workOff : List (PoolAction 1) :=
  [.finishTask onlyWorker, .retire onlyWorker, .notifyAll onlyWorker]

/-- What the worker then does by itself. -/
def drained : List (PoolAction 1) :=
  List.flatten [[.notifyOne none, .takeTask onlyWorker], workOff, [.takeTask onlyWorker], workOff,
    [.takeTask onlyWorker]]

/-- The pool when it is destroyed. -/
def earlyPool : ThreadPool 1 := ((threads 1).run Anything destroyedEarly {}).get (by decide)

/-- The pool at the end. -/
def drainedPool : ThreadPool 1 := ((threads 1).run Own drained earlyPool).get (by decide)

theorem every_task_runs_drained :
    (threads 1).run Own drained earlyPool = some drainedPool ∧ drainedPool.enqueued = 2 ∧
      drained.length ≤ earlyPool.work ∧ drainedPool.finished.Perm (List.range drainedPool.enqueued) ∧
      ∀ i, drainedPool.workers i = .exited := by
  have hearly : (threads 1).Reaches Anything {} earlyPool := reaches_of_run (Option.some_get _).symm
  have hdrained : (threads 1).run Own drained earlyPool = some drainedPool := (Option.some_get _).symm
  obtain ⟨hwork, hend⟩ := every_task_runs Nat.one_pos hearly hdrained
  obtain ⟨hperm, hexited⟩ := hend (halted_of_idle (by decide) (by decide) (by decide))
  exact ⟨hdrained, by decide, hwork, hperm, hexited (by decide)⟩

/-- Two tasks; the worker retires the last one before `wait_all` looks. -/
def waitedFor : List (PoolAction 1) :=
  List.flatten [[.enqueue, .notifyOne none, .takeTask onlyWorker, .waitAll, .check, .block], workOff,
    [.check, .takeTask onlyWorker]]

/-- The pool after `wait_all`. -/
def waitedPool : ThreadPool 1 := ((threads 1).run NotifiesInTime waitedFor {}).get (by decide)

theorem waitAll_returns_waited :
    waitedPool.waiter = .returned 1 ∧ waitedPool.waiter.isOutside = true ∧
      waitedPool.finished.Perm (List.range waitedPool.enqueued) := by
  have hr : (threads 1).Reaches NotifiesInTime {} waitedPool := reaches_of_run (Option.some_get _).symm
  exact ⟨by decide, waitAll_returns Nat.one_pos hr (halted_of_idle (by decide) (by decide) (by decide))⟩

end ThreadPool

end QuantForge
