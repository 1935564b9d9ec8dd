import Mathlib.Data.List.Basic

/-!
# The circuit breaker (`pipeline/circuit_breaker.go`)

Times are nanoseconds of the clock the caller passes in.
-/

namespace OpenEtl.Pipeline

structure CircuitBreakerCfg where
  maxFailures : Int := 0
  windowSec : Int := 0
  cooldownSec : Int := 0
deriving DecidableEq, Repr

inductive BreakerState
  | closed | opened | halfOpen
deriving DecidableEq, Repr

structure CircuitBreaker where
  cfg : CircuitBreakerCfg
  failures : List Int := []
  state : BreakerState := .closed
  trippedAt : Int := 0
deriving DecidableEq, Repr

def second : Int := 1000000000

/-- `time.Duration(sec) * time.Second`, which has 64 bits. -/
def duration (sec : Int) : Int := (sec * second + 9223372036854775808) % 18446744073709551616 - 9223372036854775808

/-- `NewCircuitBreaker` fills the defaults. -/
def newCircuitBreaker (cfg : CircuitBreakerCfg) : CircuitBreaker where
  cfg :=
    { maxFailures := if cfg.maxFailures ≤ 0 then 5 else cfg.maxFailures
      windowSec := if cfg.windowSec ≤ 0 then 60 else cfg.windowSec
      cooldownSec := if cfg.cooldownSec ≤ 0 then 30 else cfg.cooldownSec }

/-- `Allow`: an open breaker lets a probe through once the cooldown is over. -/
def CircuitBreaker.allow (cb : CircuitBreaker) (now : Int) : CircuitBreaker × Bool :=
  match cb.state with
  | .closed => (cb, true)
  | .opened =>
    if now - cb.trippedAt ≥ duration cb.cfg.cooldownSec then ({ cb with state := .halfOpen }, true)
    else (cb, false)
  | .halfOpen => (cb, true)

/-- `RecordSuccess`. -/
def CircuitBreaker.recordSuccess (cb : CircuitBreaker) : CircuitBreaker :=
  { cb with failures := [], state := .closed }

/-- `RecordFailure`: failures outside the window are forgotten; a failed probe, or the
`MaxFailures`-th failure in the window, trips the breaker. -/
def CircuitBreaker.recordFailure (cb : CircuitBreaker) (now : Int) : CircuitBreaker :=
  let recent := cb.failures.filter (fun t => now - t < duration cb.cfg.windowSec) ++ [now]
  if cb.state = .halfOpen ∨ (recent.length : Int) ≥ cb.cfg.maxFailures then
    { cb with failures := recent, state := .opened, trippedAt := now }
  else { cb with failures := recent }

end OpenEtl.Pipeline
