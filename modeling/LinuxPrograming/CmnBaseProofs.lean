/-!
# Shared definitions (`CmnBase/`)

What every program of the repository includes: how `terminate` ends a process, and the exit codes.
-/

namespace CmnBase

def EXIT_SUCCESS : Nat := 0
def EXIT_FAILURE : Nat := 1

/-- The ways in which a process ends of its own accord. -/
inductive Ending where
  | exit (status : Nat)
  | _exit (status : Nat)
  | abort
deriving DecidableEq

/-- `terminate` of `error_handler.c`; `dumpcore` is the environment variable `EF_DUMPCORE`. -/
def terminate (dumpcore : Option String) (status : Nat) (useExit3 : Bool) : Ending :=
  if dumpcore ≠ none ∧ dumpcore ≠ some "" then .abort
  else if useExit3 then .exit status
  else ._exit status

/-- The process did not report success: it was killed by `SIGABRT`, or its status is not `0`. -/
def Ending.Failed : Ending → Prop
  | .exit status | ._exit status => status ≠ EXIT_SUCCESS
  | .abort => True

instance : DecidablePred Ending.Failed := fun e => by
  cases e <;> unfold Ending.Failed <;> infer_instance

/-- `terminate` with a failure status never reports success, whatever the environment. -/
theorem terminate_failed (dumpcore : Option String) {status : Nat} (useExit3 : Bool)
    (h : status ≠ EXIT_SUCCESS) : (terminate dumpcore status useExit3).Failed := by
  rw [terminate]
  split
  · trivial
  · split
    · exact h
    · exact h

end CmnBase
