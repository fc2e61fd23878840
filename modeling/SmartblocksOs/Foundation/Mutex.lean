/-
# SmartblocksOs.Foundation.Mutex -- what a set of mutual exclusion locks is

A set of locks is a map from locks to owners. A free lock can be acquired, and its owner can release
it: no more is promised, and mutual exclusion is built in, since a map has one value at each lock. An
implementation is right when it refines this system; the logic of `SmartblocksOs.Foundation.Locking`
is stated over it.

Nothing here mentions the operating system; threads and locks are arbitrary types.
-/
import SmartblocksOs.Foundation.Runs

namespace SmartblocksOs.Foundation

universe u v

variable {ι : Type u} {ρ : Type v}

/-- What a thread can do to a lock. -/
inductive MutexEvent (ι : Type u) (ρ : Type v) where
  | acquire (t : ι) (r : ρ)
  | release (t : ι) (r : ρ)

variable [DecidableEq ι] [DecidableEq ρ]

/-- A free lock can be acquired, and its owner can release it. Nothing else can happen. -/
def mutexStep (owner : ρ → Option ι) : MutexEvent ι ρ → Option (ρ → Option ι)
  | .acquire t r => if owner r = none then some (Function.update owner r (some t)) else none
  | .release t r => if owner r = some t then some (Function.update owner r none) else none

/-- A free lock can be taken. -/
theorem mutexStep_acquire {owner : ρ → Option ι} {r : ρ} (h : owner r = none) (t : ι) :
    mutexStep owner (.acquire t r) = some (Function.update owner r (some t)) :=
  if_pos h

/-- The owner of a lock can release it. -/
theorem mutexStep_release {owner : ρ → Option ι} {r : ρ} {t : ι} (h : owner r = some t) :
    mutexStep owner (.release t r) = some (Function.update owner r none) :=
  if_pos h

end SmartblocksOs.Foundation
