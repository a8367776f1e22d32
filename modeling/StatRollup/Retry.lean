import StatRollup.Powers
/-!
# Retry policy

A transient failure is tried again up to a number of attempts, after a delay that doubles with
every attempt up to a ceiling.  A quarter of the delay is left to chance, taken off so that the
ceiling is never exceeded.
-/
namespace StatRollup

/-- How often and how fast to retry. -/
structure RetryPolicy where
  /-- Attempts in all, the first one included. -/
  maxAttempts : Nat := 5
  /-- Delay in milliseconds before the first retry. -/
  initialBackoff : Nat := 50
  /-- Longest delay in milliseconds. -/
  maxBackoff : Nat := 5000
  deriving DecidableEq, Repr, Inhabited

namespace RetryPolicy

/-- Longest delay before retry number `attempt`, counted from 1.  It stops doubling after twenty
times. -/
def longestDelay (p : RetryPolicy) (attempt : Nat) : Nat :=
  min (p.initialBackoff * 2 ^ min (attempt - 1) 20) p.maxBackoff

/-- Shortest delay before retry number `attempt`. -/
def shortestDelay (p : RetryPolicy) (attempt : Nat) : Nat :=
  p.longestDelay attempt - p.longestDelay attempt / 4

/-- Whether a failure of attempt number `attempt` is followed by another attempt. -/
def retries (p : RetryPolicy) (transient : Bool) (attempt : Nat) : Bool :=
  transient && decide (attempt < p.maxAttempts)

/-! ## Examples -/

example : (List.range 9).map (fun n => longestDelay {} (n + 1))
    = [50, 100, 200, 400, 800, 1600, 3200, 5000, 5000] := by decide
example : shortestDelay {} 1 = 38 := by decide

end RetryPolicy

end StatRollup
