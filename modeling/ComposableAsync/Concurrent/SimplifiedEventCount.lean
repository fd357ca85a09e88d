import Mathlib.Tactic.Common

/-!
# The event count

The fields of `SimplifiedEventCount` and their accesses, each a separate step of
the thread that makes it: the waiter owns `_Spurious` and `_EpochStarted`,
`_InWait` and `_Epoch` are shared, a lock section is one step, and `_Semaphore`
is its count, at most two. `_Epoch` is a 32-bit counter that wraps.
-/
namespace ComposableAsync.Concurrent

structure EventCount where
  permits : ℕ := 0
  epoch : UInt32 := 0
  epochStarted : UInt32 := 0
  spurious : Bool := false
  inWait : Bool := false
  semaphoreDisposed : Bool := false
  deriving DecidableEq, Repr

namespace EventCount
variable (ec : EventCount)

/-- The maximum of `new Semaphore(0, 2)`. -/
def maximum : ℕ := 2

/-- `_Semaphore.WaitOne()` takes a permit, or blocks. -/
def waitOne : Option EventCount :=
  if 0 < ec.permits then some { ec with permits := ec.permits - 1 } else none

/-- The lock section of `NotifyOne`, and whether it goes on to `Release`. -/
def notifyLock : Bool × EventCount :=
  if ec.inWait then (true, { ec with epoch := ec.epoch + 1, inWait := false }) else (false, ec)

/-- The lock section of `RetireWait`. -/
def retireLock : EventCount :=
  if ec.inWait then { ec with inWait := false, spurious := false } else ec

/-- How `_Semaphore.Release()` can throw. -/
inductive ReleaseError where
  | objectDisposed | semaphoreFull
  deriving DecidableEq, Repr

def release : Except ReleaseError EventCount :=
  if ec.semaphoreDisposed then .error .objectDisposed
  else if ec.permits < maximum then .ok { ec with permits := ec.permits + 1 }
  else .error .semaphoreFull

end EventCount
end ComposableAsync.Concurrent
