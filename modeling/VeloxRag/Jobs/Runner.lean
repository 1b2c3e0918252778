import VeloxRag.Jobs.Repository

/-!
# The runner

The runner claims a job, runs its handler, and ends the job according to how the handler came
out.  A typed error says itself whether it may be retried; any other exception ends the job for
good.

## Main definitions

* `JobExecutionError`, `Raised` — what a handler raises, as the runner sees it.
* `afterRaised` — what the runner writes then.
-/

namespace VeloxRag.Jobs

/-- `JobExecutionError`; its constructor refuses empty and long texts. -/
structure JobExecutionError where
  retryable : Bool
  code : Str
  message : Str
deriving DecidableEq, Repr

/-- What a handler raises: a typed error, a lost lease, or anything else. -/
inductive Raised
  | jobError (error : JobExecutionError)
  | lostLease
  | other
deriving DecidableEq, Repr

/-- `PermanentJobError("JOB_HANDLER_FAILED", …)`. -/
def handlerFailed : JobExecutionError :=
  ⟨false, "JOB_HANDLER_FAILED".toList, "Job handler failed".toList⟩

/-- `_record_failure`; `delay` is the backoff. -/
def recordError (lease : JobLease) (error : JobExecutionError) (delay : ℕ) : Tx Unit := fun db => do
  let (_, db) ← recordFailure lease error.retryable error.code error.message
    (if error.retryable then delay else 0) db
  pure ((), db)

/-- The `except` clauses of `run_once`, for a job that no domain action has ended. -/
def afterRaised (lease : JobLease) (raised : Raised) (delay : ℕ) : Tx Unit :=
  match raised with
  | .jobError error => recordError lease error delay
  | .lostLease => fun _ => .error .lostLease
  | .other => recordError lease handlerFailed delay

end VeloxRag.Jobs
