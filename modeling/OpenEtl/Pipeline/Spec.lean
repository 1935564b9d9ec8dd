import OpenEtl.Retry.Do

/-!
# The retry section of a pipeline spec

| here | there |
| --- | --- |
| `RetrySpec` | `pipeline.RetrySpec` (spec.go:46), `orchestrator.RetryConfig` (executor.go:33) |
| `applyRetryDefaults` | `ApplyDefaults` (spec.go:487) and the server's DAG defaults (server.go:157, 1924, 2133) |
| `retryProblems` | the retry part of `ValidateSpec` (spec.go:547) |
| `retryConfig` | `NewRunner` (pipeline.go:240), `NewDAGExecutor` (executor.go:161), `NewDAGReplayer` (replay.go:41), `replayDLQItems` (server.go:4881) |

`ValidateSpec` is only called on linear specs. A DAG spec is checked by `DAG.validateProduction`, which
does not look at its retry section.
-/

namespace OpenEtl.Pipeline

open Retry

structure RetrySpec where
  maxAttempts : Int
  initialIntervalMs : Int
  maxIntervalMs : Int
deriving DecidableEq, Repr

def applyRetryDefaults : Option RetrySpec → Option RetrySpec
  | none => some { maxAttempts := 3, initialIntervalMs := 1000, maxIntervalMs := 30000 }
  | some r => some r

def retryProblems : Option RetrySpec → List String
  | none => []
  | some r =>
    (if r.maxAttempts ≤ 0 then ["retry.max_attempts must be > 0"] else []) ++
    (if r.initialIntervalMs ≤ 0 then ["retry.initial_interval_ms must be > 0"] else []) ++
    (if r.maxIntervalMs ≤ 0 then ["retry.max_interval_ms must be > 0"] else [])

/-- The same four lines in each of the four places. -/
def retryConfig : Option RetrySpec → Config
  | none => defaultConfig
  | some r =>
    { maxAttempts := r.maxAttempts, initialInterval := r.initialIntervalMs, maxInterval := r.maxIntervalMs }

theorem retryConfig_pos_iff (r : Option RetrySpec) :
    0 < (retryConfig r).maxAttempts ↔ ∀ spec, r = some spec → 0 < spec.maxAttempts := by
  cases r with
  | none => simp [retryConfig, defaultConfig]
  | some spec => simp [retryConfig]

/-- A retry section that `ValidateSpec` accepts allows at least one attempt. -/
theorem retryConfig_pos_of_valid {r : Option RetrySpec} (h : retryProblems r = []) :
    0 < (retryConfig r).maxAttempts := by
  rw [retryConfig_pos_iff]
  rintro spec rfl
  by_contra hneg
  simp [retryProblems, show spec.maxAttempts ≤ 0 by omega] at h

end OpenEtl.Pipeline
