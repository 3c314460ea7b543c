/-!
# TreeSync.Machine.Polling

Asking again and again until there is an answer or the time is up.
-/

namespace TreeSync

/-- A clock that counts in some unit of time, and sleeping by it. -/
structure Clock (m : Type → Type) where
  now : m Nat
  sleep : Nat → m Unit

namespace Clock

variable {m : Type → Type} [Monad m] {α : Type}

/-- Ask at most `calls` times.  After an answer nothing is asked any more; after
a refusal the time decides whether there is a next time. -/
def pollWithin (clock : Clock m) (deadline interval : Nat) (check : m (Option α)) :
    Nat → m (Option α)
  | 0 => pure none
  | calls + 1 => do
      match ← check with
      | some value => pure (some value)
      | none =>
          if deadline ≤ (← clock.now) then pure none
          else
            clock.sleep interval
            clock.pollWithin deadline interval check calls

/-- Most calls that fit into a time, when every sleep takes the interval or
longer, and one unit at least. -/
def maxCalls (timeout interval : Nat) : Nat := timeout / max 1 interval + 2

/-- Ask once in every `interval` until there is an answer or the time `timeout` has
passed.  It is asked once in any case.

The clock has no last reading, so `start + timeout` always is a time.  A system whose
clock has one cannot begin to wait where the deadline would lie behind it; both
callers wait for a few seconds. -/
def waitFor (clock : Clock m) (timeout interval : Nat) (check : m (Option α)) :
    m (Option α) := do
  let start ← clock.now
  clock.pollWithin (start + timeout) interval check (maxCalls timeout interval)

end Clock

end TreeSync
