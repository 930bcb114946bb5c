import Mathlib.Data.List.TakeDrop
import LinuxPrograming.CmnBaseProofs
import LinuxPrograming.DispatcherProofs

/-!
# A command through the environment (`3-Process/task2.c`)

The parent puts the requested command into `MY_COMMAND`; the child takes it out again, copies it to
an array of `CMD_SIZE` bytes and executes it.

A failure of `setenv` is logged and nothing more, so that the child finds what the parent had
inherited; and `snprintf` cuts a command that does not fit, so that the child finds another one.

* **`get_cmd_set_cmd`** — what arrives in the child's array.
* **`command_arrives_iff`** — the inputs with which the child executes what was requested, or nothing.
-/

namespace ProcessCommand

open CmnBase
open TaskQueue (CString)

/-! ## The program -/

def CMD_SIZE : Nat := 64

/-- `"ls"`. -/
def COMMAND_DEFAULT : CString := ⟨[108, 115], by decide⟩

def COMMAND_OVERRIDE : Nat := 1

/-- The environment variables that the program reads: its own and that of `terminate`. -/
structure Environ where
  MY_COMMAND  : Option CString
  EF_DUMPCORE : Option String

/-- What a run finds: whether `setenv` and `fork` succeed, and under which names there is a program
    that `execlp` can execute. -/
structure Kernel where
  setenv     : Bool
  fork       : Bool
  executable : List UInt8 → Bool

/-- `setenv(COMMAND_ENV, …)`; `none` if it fails. -/
def setenv (k : Kernel) (env : Environ) (value : CString) (overwrite : Nat) : Option Environ :=
  if k.setenv = false then none
  else if env.MY_COMMAND.isSome ∧ overwrite = 0 then some env
  else some { env with MY_COMMAND := some value }

/-- A failure is only logged. -/
def set_cmd (k : Kernel) (env : Environ) (cmd : CString) : Environ :=
  match setenv k env cmd COMMAND_OVERRIDE with
  | some env => env
  | none     => env

/-- The string that is left in an array of `size` bytes; `snprintf` keeps one of them for the
    NUL. -/
def get_cmd (env : Environ) (size : Nat) : List UInt8 :=
  match env.MY_COMMAND with
  | some command => command.bytes.take (size - 1)
  | none         => []

/-- What becomes of the child. -/
inductive Child where
  | executed (name : List UInt8)
  | ended (e : Ending)

/-- The branch of `main` that the child takes. -/
def child (k : Kernel) (env : Environ) : Child :=
  let command := get_cmd env CMD_SIZE
  if command = [] then .ended (terminate env.EF_DUMPCORE EXIT_FAILURE false)
  else if k.executable command then .executed command
  else .ended (terminate env.EF_DUMPCORE EXIT_FAILURE false)

/-- What a run has done: what has become of the child, if there is one, and how the parent ended. -/
structure Result where
  child  : Option Child
  parent : Ending

/-- The command that is asked for: `agrc > 1 ? argv[1] : COMMAND_DEFAULT`. -/
def requested (argv : List CString) : CString := argv.getD 1 COMMAND_DEFAULT

def main (k : Kernel) (env : Environ) (argv : List CString) : Result :=
  let env := set_cmd k env (requested argv)
  if k.fork then ⟨some (child k env), .exit 0⟩
  else ⟨none, terminate env.EF_DUMPCORE EXIT_FAILURE true⟩

/-! ## What arrives -/

/-- The parent's variable reaches the child, cut; without it the inherited one does. -/
theorem get_cmd_set_cmd (k : Kernel) (env : Environ) (cmd : CString) (size : Nat) :
    get_cmd (set_cmd k env cmd) size
      = if k.setenv then cmd.bytes.take (size - 1) else get_cmd env size := by
  rw [set_cmd, setenv]
  cases k.setenv with
  | false => rfl
  | true =>
      have hover : ¬ (env.MY_COMMAND.isSome = true ∧ COMMAND_OVERRIDE = 0) := fun h => by cases h.2
      simp only [Bool.true_eq_false, if_false, if_neg hover, if_true, get_cmd]

/-- The child executes the command that was asked for, or it executes nothing and fails. -/
def Child.Proper (cmd : CString) : Child → Prop
  | .executed name => name = cmd.bytes
  | .ended e       => e.Failed

/-- **What the child needs**: another command in its array must be none, or one that there is not. -/
theorem child_proper_iff (k : Kernel) (env : Environ) (cmd : CString) :
    (child k env).Proper cmd ↔ get_cmd env CMD_SIZE = cmd.bytes ∨ get_cmd env CMD_SIZE = [] ∨
      k.executable (get_cmd env CMD_SIZE) = false := by
  have hfailed : (terminate env.EF_DUMPCORE EXIT_FAILURE false).Failed :=
    terminate_failed _ _ (by decide)
  rw [child]
  by_cases hempty : get_cmd env CMD_SIZE = []
  · rw [if_pos hempty]
    exact iff_of_true hfailed (Or.inr (Or.inl hempty))
  · rw [if_neg hempty]
    cases hexec : k.executable (get_cmd env CMD_SIZE) with
    | true => simp [Child.Proper, hempty]
    | false => simpa [Child.Proper] using hfailed

/-! ## When the command arrives -/

/-- With `setenv` the command fits, or there is no program under what is left of it; without it
    nothing has been inherited, or what is left of that is the command, or no program. -/
def Arrives (k : Kernel) (env : Environ) (cmd : CString) : Prop :=
  if k.setenv then
    cmd.bytes.length < CMD_SIZE ∨ k.executable (cmd.bytes.take (CMD_SIZE - 1)) = false
  else
    ∀ old, env.MY_COMMAND = some old → old.bytes = [] ∨
      old.bytes.take (CMD_SIZE - 1) = cmd.bytes ∨
      k.executable (old.bytes.take (CMD_SIZE - 1)) = false

/-- A string that has been cut to nothing was empty. -/
theorem take_eq_nil_iff (bytes : List UInt8) : bytes.take (CMD_SIZE - 1) = [] ↔ bytes = [] := by
  simp [CMD_SIZE]

/-- **WHEN THE REQUESTED COMMAND IS EXECUTED, OR NONE.** -/
theorem command_arrives_iff (k : Kernel) (env : Environ) (argv : List CString) :
    (∀ c, (main k env argv).child = some c → c.Proper (requested argv)) ↔
      (k.fork = true → Arrives k env (requested argv)) := by
  have hchild : (∀ c, (main k env argv).child = some c → c.Proper (requested argv)) ↔
      (k.fork = true → (child k (set_cmd k env (requested argv))).Proper (requested argv)) := by
    rw [main]
    cases k.fork with
    | true => simp
    | false => simp
  rw [hchild, child_proper_iff, get_cmd_set_cmd, Arrives]
  refine imp_congr_right fun _ => ?_
  cases k.setenv with
  | true =>
      -- the array holds the command, or what is left of it
      have hfits : (requested argv).bytes.take (CMD_SIZE - 1) = (requested argv).bytes ↔
          (requested argv).bytes.length < CMD_SIZE := by
        rw [eq_comm, List.take_self_eq_iff, CMD_SIZE]
        omega
      simp only [if_true]
      rw [hfits, take_eq_nil_iff]
      constructor
      · rintro (hlt | hempty | hnone)
        · exact Or.inl hlt
        · exact Or.inl (by rw [hempty]; decide)
        · exact Or.inr hnone
      · rintro (hlt | hnone)
        · exact Or.inl hlt
        · exact Or.inr (Or.inr hnone)
  | false =>
      simp only [Bool.false_eq_true, if_false, get_cmd]
      cases env.MY_COMMAND with
      | none => simp
      | some old =>
          have hold : ∀ P : CString → Prop, (∀ o, some old = some o → P o) ↔ P old := by
            intro P
            exact ⟨fun h => h old rfl, fun h o ho => Option.some.inj ho ▸ h⟩
          rw [hold]
          simp only [take_eq_nil_iff]
          exact or_left_comm

/-- A command of `n` times `a`. -/
def letters (n : Nat) : CString := ⟨List.replicate n 97, by simp [List.mem_replicate]⟩

/-- **A cut command is executed**: of 64 letters 63 arrive, and there is a program of that name. -/
theorem cut_command_executed :
    ¬ ∀ (k : Kernel) (env : Environ) (argv : List CString) (c : Child),
      (main k env argv).child = some c → c.Proper (requested argv) := by
  intro hall
  have hproper : (letters 63).bytes = (letters 64).bytes :=
    hall ⟨true, true, fun _ => true⟩ ⟨none, none⟩ [letters 5, letters 64]
      (.executed (letters 63).bytes) rfl
  exact absurd (congrArg List.length hproper) (by decide)

/-- **An inherited command is executed**: `setenv` fails, and `MY_COMMAND` was there before. -/
theorem inherited_command_executed (old cmd : CString) (hne : old.bytes ≠ [])
    (hfits : old.bytes.length < CMD_SIZE) :
    child ⟨false, true, fun _ => true⟩ (set_cmd ⟨false, true, fun _ => true⟩ ⟨some old, none⟩ cmd)
      = .executed old.bytes := by
  have htake : old.bytes.take (CMD_SIZE - 1) = old.bytes :=
    List.take_of_length_le (Nat.le_of_lt_succ hfits)
  rw [child, get_cmd_set_cmd]
  simp only [Bool.false_eq_true, if_false, get_cmd, htake, if_neg hne, if_true]

end ProcessCommand
