/-
`ctl.rs` and `main.rs`: the commands that control the service, and the processes of the
module side by side.

Daemons are started by the boot script and by `start`, commands by the user: any number
of each may run at once, and any of them may be killed. They have in common the files of
the state directory: `paused`, the two lock files and `lock/pid`. A daemon writes its pid
before it looks for `paused`; `stop` writes `paused` before it reads the pid.

`doctor` and `verify` take no lock and are no processes here; they change no hook.
-/
import Nfqttl.Ctl
import Nfqttl.Lib.Conc
import Nfqttl.Lifetime

namespace Nfqttl.Processes

open Effect

/-! ## What a process asks for -/

inductive ProcOp
  /-- `--module-dir`, or where the program lies. -/
  | moduleDir
  | ensureState
  /-- `control.flock` is opened. -/
  | openControl
  /-- `flock()`, without waiting. -/
  | flock
  | readConfig
  /-- The number in `lock/pid`, when there is one. -/
  | readPid
  /-- `owned_pid(pid, "daemon")`. -/
  | owns (pid : Nat)
  | signal (pid : Nat)
  /-- Whether the 45 seconds are not over. -/
  | beforeDeadline
  | sleep (ms : Nat)
  deriving DecidableEq, Repr

/-- The operations of the daemon, of the commands, and of the locks and pids they meet at. -/
inductive AnyOp
  | life (op : Life.LifeOp)
  | ctl (op : Ctl.CtlOp)
  | proc (op : ProcOp)

@[reducible] def ProcOp.Ans : ProcOp → Type
  | .moduleDir | .ensureState | .openControl => Except IoError Unit
  | .readConfig => Except IoError (List Char)
  | .flock | .owns _ | .beforeDeadline => Bool
  | .readPid => Option Nat
  | .signal _ | .sleep _ => Unit

@[reducible] def AnySig : Sig where
  Op := AnyOp
  Ans := fun
    | .life op => Life.LifeSig.Ans op
    | .ctl op => Ctl.CtlSig.Ans op
    | .proc op => op.Ans

abbrev AnyProg := Prog AnySig

def ask (op : ProcOp) : AnyProg op.Ans := .op (.proc op) .ret

def lived {α : Type} (p : Life.LifeProg α) : AnyProg α := p.hoist fun op => .op (.life op) .ret

/-! ## The pid of the daemon -/

/-- `daemon_pid()`, filtered by `owned_pid`. -/
def livePid : AnyProg (Option Nat) := do
  match ← ask .readPid with
  | none => return none
  | some pid => if ← ask (.owns pid) then return some pid else return none

/-- The wait of `stop`: `n` more naps fill the 45 seconds. -/
def waitGone (pid : Nat) : Nat → AnyProg Unit
  | 0 => pure ()
  | n + 1 => do
    if !(← ask .beforeDeadline) then return
    if !(← ask (.owns pid)) then return
    ask (.sleep 100)
    waitGone pid n

/-- The operations of a command, with the pid that it has found. -/
def meaning (op : Ctl.CtlOp) (found : Option Nat) : AnyProg (Ctl.CtlSig.Ans op × Option Nat) :=
  match op with
  | .owned _ => do
    let pid ← livePid
    return (pid.isSome, pid)
  | .terminate =>
    match found with
    | none => return (false, none)
    | some pid => do
      ask (.signal pid)
      waitGone pid 450
      let still ← ask (.owns pid)
      return (still, some pid)
  | op => .op (.ctl op) fun a => .ret (a, found)

/-! ## The commands -/

abbrev AnyTry := ExceptT IoError AnyProg

def attempt {α : Type} (p : AnyProg α) : AnyTry α := ExceptT.lift p

def orFail {α : Type} (p : AnyProg (Except IoError α)) : AnyTry α := .mk p

/-- A function of `ctl.rs`, with the pids it looks for. -/
def controlled (x : Ctl.CtlProg Unit) : AnyTry Unit := .mk do
  let (result, _) ← x.run.interp meaning none
  return result

def restart : AnyTry Unit := do
  let text ← orFail (ask .readConfig)
  orFail (pure (Config.validate text))
  controlled Ctl.stop
  controlled Ctl.start

def toggle : AnyTry Unit := do
  if (← attempt livePid).isSome then controlled Ctl.stop else controlled Ctl.start

/-- The commands that take the control lock. -/
inductive Command
  | start | stop | restart | toggle
  | configure (settings : List (List Char))
  deriving DecidableEq

def Command.run : Command → AnyTry Unit
  | .start => do
    orFail (ask .moduleDir)
    controlled Ctl.start
  | .stop => controlled Ctl.stop
  | .restart => do
    orFail (ask .moduleDir)
    Processes.restart
  | .toggle => do
    orFail (ask .moduleDir)
    Processes.toggle
  | .configure settings => do
    orFail (ask .moduleDir)
    controlled (Ctl.configure settings)

/-- How a process ends: with the result of what it ran, or with the error that another control
operation is running. -/
inductive Outcome
  | done (result : Except IoError Unit)
  | busy

/-- `real_main` of a command: the control lock, then the command. -/
def control (cmd : Command) : AnyProg Outcome := do
  match ← ask .ensureState with
  | .error e => return .done (.error e)
  | .ok () =>
    match ← ask .openControl with
    | .error e => return .done (.error e)
    | .ok () =>
      if !(← ask .flock) then return .busy
      return .done (← cmd.run.run)

/-! ## The processes -/

/-- What a process does next: a round of a daemon's life, or a command. -/
inductive Job
  | daemon (stage : Life.Stage)
  | control (cmd : Command)

def body : Job → AnyProg (Job ⊕ Outcome)
  | .daemon stage => do
    match ← lived (Life.round stage) with
    | .inl stage => return .inl (.daemon stage)
    | .inr result => return .inr (.done result)
  | .control cmd => return .inr (← control cmd)

/-- What the processes share. -/
structure Shared where
  paused : Bool
  /-- Who has `daemon.flock`, and who `control.flock`. -/
  lock : Option Nat
  control : Option Nat
  /-- What `lock/pid` says. -/
  pidFile : Option Nat
  /-- The processes that run as `nfqttl daemon`. -/
  daemons : Nat → Bool
  /-- Some hook of the module is in the tables. -/
  attached : Bool
  /-- Only recorded: the daemon that has found itself not halted and still has its pid file. -/
  armed : Option Nat

/-- A cleanup attaches nothing, whatever it answers. -/
def Shared.Lowered (s s' : Shared) : Prop := ∃ left, (left = true → s.attached = true) ∧ s' = { s with attached := left }

variable (pid : Nat)

/-- What the operations of the loop do. -/
def loops : Sem Daemon.DaemonSig Shared := fun op s a s' =>
  match op, a with
  | .halted, true => s' = s
  | .halted, false => s.paused = false ∧ s' = { s with armed := some pid }
  | .cleanup, _ => s.Lowered s'
  | .install4 .., _ | .install6 .., _ => ∃ attached, s' = { s with attached := attached }
  | _, _ => s' = s

/-- What the operations of `run` do. A write that fails may leave a part of the text. -/
def runs (op : Life.RunOp) (s : Shared) (a : op.Ans) (s' : Shared) : Prop :=
  match op, a with
  | .flock, true => s.lock = none ∧ s' = { s with lock := some pid }
  | .createPid, .ok () => s' = { s with pidFile := none }
  | .writePid, .ok () => s' = { s with pidFile := some pid }
  | .writePid, .error _ => ∃ text, s' = { s with pidFile := text }
  | .removePid, _ => ∃ text, s' = { s with pidFile := text, armed := none }
  | .unlock, _ => s' = { s with lock := none }
  | _, _ => s' = s

/-- What the operations of a command do. -/
def controls : Sem Ctl.CtlSig Shared := fun op s a s' =>
  match op, a with
  | .writePaused, .ok () => s' = { s with paused := true }
  | .writePaused, .error _ => s' = s ∨ s' = { s with paused := true }
  | .removePaused, _ => s' = s ∨ s' = { s with paused := false }
  | .cleanup, _ => s.Lowered s'
  | _, _ => s' = s

/-- The locks and the pids. A daemon that runs is recognised; of any other process nothing is known. -/
def meets (op : ProcOp) (s : Shared) (a : op.Ans) (s' : Shared) : Prop :=
  match op, a with
  | .flock, true => s.control = none ∧ s' = { s with control := some pid }
  | .readPid, text => s' = s ∧ text = s.pidFile
  | .owns q, owned => s' = s ∧ (s.daemons q = true → owned = true)
  | _, _ => s' = s

def does : Sem AnySig Shared := fun op =>
  match op with
  | .life (.loop op) => loops pid op
  | .life (.run op) => runs pid op
  | .ctl op => controls op
  | .proc op => meets pid op

/-- `owner` once process `pid` has ended. -/
def without (owner : Option Nat) : Option Nat := if owner = some pid then none else owner

/-- The locks of a process end with it. -/
def Shared.without (s : Shared) : Shared :=
  { s with
    lock := Processes.without pid s.lock
    control := Processes.without pid s.control
    armed := Processes.without pid s.armed
    daemons := Function.update s.daemons pid false }

/-- Daemons start with `run`. -/
def starts : Job → Shared → Shared → Prop
  | .daemon .run, s, s' => s' = { s with daemons := Function.update s.daemons pid true }
  | .daemon _, _, _ => False
  | .control _, s, s' => s' = s

/-- All processes of the module. The hooks may also be lost, as when the system flushes the tables. -/
def device : System AnySig Job Outcome Shared where
  body := body
  does := does
  born := starts
  gone := fun pid _ s s' => s' = s.without pid
  env := fun s s' => s' = { s with attached := false }

end Nfqttl.Processes
