import Mathlib.Data.List.Basic

/-! # A timer with queued completions

Waits on a timer complete when it expires, or are aborted when it is cancelled or set anew. A
completion is queued, and its handler runs later: cancelling does not recall what is queued already.
-/

namespace DeadlineTimer

open List

inductive Completion where
  | success
  | aborted
deriving DecidableEq

/-- A timer by the number of its waits, with the completions queued. -/
structure Timer where
  waits : Nat := 0
  queue : List Completion := []
deriving DecidableEq

namespace Timer

def cancel (t : Timer) : Timer := ⟨0, t.queue ++ replicate t.waits .aborted⟩

/-- A timer that is set anew is cancelled first. -/
def expiresFromNow (t : Timer) : Timer := t.cancel

def asyncWait (t : Timer) : Timer := { t with waits := t.waits + 1 }

def expire (t : Timer) : Timer := ⟨0, t.queue ++ replicate t.waits .success⟩

/-- The expirations to come, and those whose handler has not run yet. -/
def expirations (t : Timer) : Nat := t.waits + t.queue.count .success

variable (t : Timer)

@[simp] theorem expirations_cancel : t.cancel.expirations = t.queue.count .success := by
  simp [cancel, expirations, count_replicate]

@[simp] theorem expirations_expiresFromNow :
    t.expiresFromNow.expirations = t.queue.count .success :=
  t.expirations_cancel

@[simp] theorem expirations_asyncWait : t.asyncWait.expirations = t.expirations + 1 := by
  simp only [asyncWait, expirations]
  omega

@[simp] theorem expirations_expire : t.expire.expirations = t.expirations := by
  simp only [expire, expirations, count_append, count_replicate_self]
  omega

end Timer

end DeadlineTimer
