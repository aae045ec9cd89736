import Odtone.Support.DeadlineTimer

/-! # The timer tasks of the Link SAP

A `timer_task` waits on its timer, and the handler of the wait executes the task and waits again.
One thread runs the handlers and makes the calls of `start` and `stop` and of the destructor, so a
run is a sequence of these with expirations of the timer in between.

The handler asks whether the wait was aborted and not whether the task is running. A completion that
is queued when the task is stopped executes it all the same and makes it wait again. If no call
comes while a completion is queued, the task behaves. -/

namespace Odtone.Sap80211

open List
open DeadlineTimer (Completion Timer)

/-- A `timer_task`, with the number of times the task has been executed. -/
structure TimerTask where
  alive : Bool := true
  running : Bool := false
  timer : Timer := {}
  executed : Nat := 0
deriving DecidableEq

namespace TimerTask

def start (s : TimerTask) : TimerTask :=
  { s with timer := s.timer.expiresFromNow.asyncWait, running := true }

def stop (s : TimerTask) : TimerTask := { s with timer := s.timer.cancel, running := false }

/-- The destructor; that of the timer cancels its waits. -/
def destroy (s : TimerTask) : TimerTask := { s with timer := s.timer.cancel, alive := false }

/-- `task_handler`, which looks at nothing but the error code -/
def taskHandler (s : TimerTask) : Completion → TimerTask
  | .success =>
    { s with executed := s.executed + 1, timer := s.timer.expiresFromNow.asyncWait }
  | .aborted => s

inductive Event where
  | start
  | stop
  | destroy
  /-- The timer expires. -/
  | expire
  /-- The handler of the first completion queued runs. -/
  | handle
deriving DecidableEq

def step (s : TimerTask) : Event → Option TimerTask
  | .start => if s.alive then some s.start else none
  | .stop => if s.alive then some s.stop else none
  | .destroy => if s.alive then some s.destroy else none
  | .expire => if 0 < s.timer.waits then some { s with timer := s.timer.expire } else none
  | .handle =>
    match s.timer.queue with
    | [] => none
    | c :: queue => some ({ s with timer := { s.timer with queue } }.taskHandler c)

/-- Whether a task that was started or not is so after an event. -/
def Event.started (on : Bool) : Event → Bool
  | start => true
  | stop | destroy => false
  | expire | handle => on

/-- The last call was `start`. -/
def started (es : List Event) : Bool := es.foldl Event.started false

/-- An event is not a call that comes while a successful completion is queued. -/
def Undisturbed (s : TimerTask) : Event → Prop
  | .start | .stop | .destroy => .success ∉ s.timer.queue
  | .expire | .handle => True

/-- Runs from the construction of a task, whose events all satisfy `P`. -/
inductive Run (P : TimerTask → Event → Prop) : List Event → TimerTask → Prop where
  | init : Run P [] {}
  | step {es s e s'} (h : Run P es s) (hP : P s e) (hs : s.step e = some s') : Run P (es ++ [e]) s'

/-! ## Single steps -/

variable {s s' : TimerTask} {e : Event}

/-- What a step does to the flags, the expirations and the count of executions. -/
theorem step_cases (h : s.step e = some s') :
    (e = .start ∧ s.alive ∧ s' = s.start) ∨ (e = .stop ∧ s.alive ∧ s' = s.stop) ∨
      (e = .destroy ∧ s.alive ∧ s' = s.destroy) ∨
      (e = .expire ∧ s' = { s with timer := s.timer.expire }) ∨
      (e = .handle ∧ ∃ c queue, s.timer.queue = c :: queue ∧
        s' = { s with timer := { s.timer with queue } }.taskHandler c) := by
  cases e with
  | start | stop | destroy | expire =>
    simp only [step] at h
    split_ifs at h with hc
    simp [← Option.some.inj h, hc]
  | handle =>
    simp only [step] at h
    split at h
    · cases h
    · rename_i c queue hq
      simp [← Option.some.inj h, hq]

/-- The task is executed only by the handler of a successful completion. -/
theorem success_of_executed (h : s.step e = some s') (hx : s'.executed ≠ s.executed) :
    .success ∈ s.timer.queue := by
  rcases step_cases h with ⟨-, -, rfl⟩ | ⟨-, -, rfl⟩ | ⟨-, -, rfl⟩ | ⟨-, rfl⟩
    | ⟨-, c, queue, hq, rfl⟩
  · exact absurd rfl hx
  · exact absurd rfl hx
  · exact absurd rfl hx
  · exact absurd rfl hx
  · cases c with
    | success =>
      rw [hq]
      exact mem_cons_self
    | aborted => exact absurd rfl hx

/-- An undisturbed step keeps one expiration for a task that is started and none for another. -/
theorem expirations_step {on : Bool} (h : s.step e = some s') (hu : s.Undisturbed e)
    (hs : s.timer.expirations = on.toNat) : s'.timer.expirations = (e.started on).toNat := by
  rcases step_cases h with ⟨rfl, -, rfl⟩ | ⟨rfl, -, rfl⟩ | ⟨rfl, -, rfl⟩ | ⟨rfl, rfl⟩ |
    ⟨rfl, c, queue, hq, rfl⟩
  · simp [start, Event.started, count_eq_zero.mpr hu]
  · simp [stop, Event.started, count_eq_zero.mpr hu]
  · simp [destroy, Event.started, count_eq_zero.mpr hu]
  · simpa [Event.started] using hs
  · have hcount : s.timer.waits + (c :: queue).count .success = on.toNat := hq ▸ hs
    cases c with
    | success =>
      rw [count_cons_self] at hcount
      have hon := on.toNat_le
      simp only [taskHandler, Timer.expirations_asyncWait, Timer.expirations_expiresFromNow,
        Event.started]
      omega
    | aborted =>
      exact hcount

/-! ## Runs -/

theorem started_concat (es : List Event) (e : Event) :
    started (es ++ [e]) = e.started (started es) :=
  foldl_concat ..

/-- The flag says whether the task is started, as long as there is a task. -/
theorem Run.started_eq {P : TimerTask → Event → Prop} {es : List Event} (h : Run P es s) :
    started es = (s.alive && s.running) := by
  induction h with
  | init => rfl
  | @step es s e s' _ _ hs ih =>
    rw [started_concat, ih]
    rcases step_cases hs with ⟨rfl, ha, rfl⟩ | ⟨rfl, ha, rfl⟩ | ⟨rfl, -, rfl⟩ | ⟨rfl, rfl⟩ |
      ⟨rfl, c, queue, -, rfl⟩
    · simp [Event.started, start, ha]
    · simp [Event.started, stop]
    · simp [Event.started, destroy]
    · rfl
    · cases c with
      | success | aborted => rfl

theorem Run.expirations_eq {es : List Event} (h : Run Undisturbed es s) :
    s.timer.expirations = (started es).toNat := by
  induction h with
  | init => rfl
  | @step es s e s' _ hP hs ih =>
    rw [started_concat]
    exact expirations_step hs hP ih

/-- In an undisturbed run, the task is executed only if it is started, and a task that is running
has exactly one expiration pending. -/
theorem executed_only_started {es : List Event} {s : TimerTask} (h : Run Undisturbed es s) :
    (∀ e s', s.step e = some s' → s'.executed ≠ s.executed → started es) ∧
      (s.alive → s.running → s.timer.expirations = 1) := by
  constructor
  · intro e s' hs hx
    have hpos : 0 < s.timer.queue.count .success := count_pos_iff.mpr (success_of_executed hs hx)
    have hle : s.timer.queue.count .success ≤ s.timer.expirations := Nat.le_add_left _ _
    rw [h.expirations_eq] at hle
    cases hst : started es with
    | true => rfl
    | false =>
      rw [hst] at hle
      exact absurd hle (Nat.not_le.mpr hpos)
  · intro ha hr
    rw [h.expirations_eq, h.started_eq, ha, hr]
    rfl

/-- A task that has been started and has expired. -/
theorem executed_only_started_sample :
    let s : TimerTask := ⟨true, true, ⟨0, [.success]⟩, 0⟩
    Run Undisturbed [.start, .expire] s ∧ s.timer.expirations = 1 :=
  have h := (Run.init.step (by nofun) rfl).step trivial rfl
  ⟨h, (executed_only_started h).2 rfl rfl⟩

/-- The timer expires, the task is stopped, and then the handler runs: the task is executed, and it
waits on its timer again though it is not running. -/
theorem executed_after_stop :
    let s : TimerTask := ⟨true, false, ⟨0, [.success]⟩, 0⟩
    let s' : TimerTask := ⟨true, false, ⟨1, []⟩, 1⟩
    Run (fun _ _ => True) [.start, .expire, .stop] s ∧ ¬ started [.start, .expire, .stop] ∧
      s.step .handle = some s' :=
  ⟨((Run.init.step trivial rfl).step trivial rfl).step trivial rfl, by decide, rfl⟩

end TimerTask

end Odtone.Sap80211
