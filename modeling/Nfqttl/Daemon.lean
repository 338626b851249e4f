/-
`daemon.rs`: the supervisor's loop, which keeps rules and workers in step with the
interfaces found, and `recover`, which takes all of it down after a failure.

Everything outside the loop's own variables is an operation: timers, the interfaces
found, the firewall's functions, processes and files. Each of them may answer
anything its type allows, at any time.
-/
import Nfqttl.Config
import Nfqttl.Firewall
import Nfqttl.Lib.OrdMap

namespace Nfqttl.Daemon

open Effect

inductive EffectiveBackend
  | kernel | nfqueue
  deriving DecidableEq, Repr

structure Worker where
  queue : Nat
  pid : Nat
  deriving DecidableEq, Repr

structure QStats where
  rows : Nat
  len : Nat
  kdrops : Nat
  udrops : Nat
  /-- Queue, length and sequence number of each row. -/
  entries : List (Nat × Nat × Nat)
  deriving Repr

/-- The `Instant`s of `run_inner`. -/
inductive Timer
  | scan | check | offload | sqm | stable | monitor
  deriving DecidableEq

/-- Where `Workers::stop` is called from. -/
inductive Site
  | idle | recover | shutdown | drop | start
  deriving DecidableEq, Repr

/-! ## What the loop asks for -/

inductive DaemonOp
  /-- `STOP.load()`. -/
  | stopping
  /-- Whether `disable`, `remove` or `paused` is there. -/
  | halted
  | paused
  | elapsed (timer : Timer) (ms : Nat)
  | reset (timer : Timer)
  | discover
  | syncQos (links : Links)
  | rulesOk (v6 : Bool) (active : Option String) (links : Links) (kernel : Bool) (workers value : Nat) (mode : V6Mode)
  | cleanup
  | install4 (links : Links) (kernel : Bool) (workers ttl : Nat) (active : Option String)
  | install6 (links : Links) (mode : V6Mode) (hl : Nat) (active : Option String)
  /-- `SIGTERM`, from one of the calls of `Workers::stop`. The answer, whether the worker was
  still running, is the model's: the code does not ask. -/
  | terminate (site : Site) (pid : Nat)
  /-- Whether the worker has exited. -/
  | tryWait (pid : Nat)
  | kill (pid : Nat)
  | reap (pid : Nat)
  | queueOwner (queue : Nat)
  | openLog (queue : Nat)
  | cloneLog (queue : Nat)
  /-- The program is started with the arguments, and `--module-dir` and its directory behind them. -/
  | spawn (queue : Nat) (args : List (List Char))
  | ready (queue : Nat)
  | queueStats (count : Nat)
  | trimLogs (workers : List Worker)
  | sleep (ms : Nat)
  | wait (ms : Int)
  | writeState (name value : String)
  | removeState (name : String)
  | log (text : String)
  | offloadApply (disable : Bool)
  | offloadRestore

@[reducible] def DaemonSig : Sig where
  Op := DaemonOp
  Ans := fun
    | .stopping | .halted | .paused | .elapsed .. | .rulesOk .. | .cleanup | .terminate .. | .tryWait _ | .openLog _
    | .cloneLog _ | .ready _ | .wait _ => Bool
    | .discover => Links
    | .install4 .. | .install6 .. => Bool × Option String
    | .queueOwner _ => Option Int
    | .spawn .. => Option Nat
    | .queueStats _ => QStats
    | _ => Unit

abbrev DaemonProg := Prog DaemonSig

@[simp] def ask (op : DaemonOp) : DaemonProg (DaemonSig.Ans op) := .op op .ret

@[simp] def log (text : String) : DaemonProg Unit := ask (.log text)
@[simp] def writeState (name value : String) : DaemonProg Unit := ask (.writeState name value)

/-- `b || timer.elapsed() >= ms`. -/
def orElapsed (b : Bool) (timer : Timer) (ms : Nat) : DaemonProg Bool :=
  if b then pure true else ask (.elapsed timer ms)

/-! ## The workers -/

namespace Workers

/-- The names of the state files. -/
def pidFile (queue : Nat) : String := "worker." ++ toString queue ++ ".pid"

/-- `stop`, without the `clear` of the list at its end. -/
def stop (site : Site) (items : List Worker) : DaemonProg Unit := do
  items.forM fun w => do
    let _ ← ask (.terminate site w.pid)
  if !items.isEmpty then ask (.sleep 100)
  items.forM fun w => do
    if !(← ask (.tryWait w.pid)) then ask (.kill w.pid)
    ask (.reap w.pid)
    ask (.removeState (pidFile w.queue))
  ask (.removeState "worker.pid")

/-- Every worker lives and owns its queue, up to the first that does not. -/
def allOwn : List Worker → DaemonProg Bool
  | [] => pure true
  | w :: ws => do
    if ← ask (.tryWait w.pid) then return false
    if (← ask (.queueOwner w.queue)) != some (w.pid : Int) then return false
    allOwn ws

def healthy (items : List Worker) (count : Nat) : DaemonProg Bool :=
  if items.length != count then pure false else allOwn items

def queues (count : Nat) : List Nat := (List.range count).map (queueBase + ·)

/-- The queues have no owner, up to the first that has one. -/
def allFree : List Nat → DaemonProg Bool
  | [] => pure true
  | q :: qs => do
    match ← ask (.queueOwner q) with
    | some owner =>
      log ("ERROR: queue " ++ toString q ++ " already owned by pid=" ++ toString owner)
      return false
    | none => allFree qs

/-- The arguments of the worker of queue `q`, but for the last two. -/
def args (c : Config) (q : Nat) : List (List Char) :=
  ["worker".toList,
    "--queue".toList, Nat.toDigits 10 q,
    "--ttl".toList, Nat.toDigits 10 c.ttl,
    "--queue-maxlen".toList, Nat.toDigits 10 c.queueMaxlen,
    "--rcvbuf-mb".toList, Nat.toDigits 10 c.rcvbufMb,
    "--gso".toList, if c.gso then ['1'] else ['0']]

/-- Start a worker for each queue, or stop those started. -/
def spawnAll (c : Config) (items : List Worker) : List Nat → DaemonProg (Bool × List Worker)
  | [] => pure (true, items)
  | q :: qs => do
    if !(← ask (.openLog q)) then
      log "ERROR: worker log"
      stop .start items
      return (false, [])
    if !(← ask (.cloneLog q)) then
      stop .start items
      return (false, [])
    match ← ask (.spawn q (args c q)) with
    | none =>
      stop .start items
      return (false, [])
    | some pid =>
      writeState (pidFile q) (toString pid)
      if q = queueBase then writeState "worker.pid" (toString pid)
      spawnAll c (items ++ [⟨q, pid⟩]) qs

def allReady : List Worker → DaemonProg Bool
  | [] => pure true
  | w :: ws => do
    if ← ask (.ready w.queue) then allReady ws else return false

/-- Wait for the workers to be ready, with `n` looks at them left. -/
def awaitReady (items : List Worker) (count : Nat) : Nat → DaemonProg (Bool × List Worker)
  | 0 => pure (false, items)
  | n + 1 => do
    if ← ask .stopping then
      stop .start items
      return (false, [])
    if ← healthy items count then
      if ← allReady items then return (true, items)
    ask (.sleep 100)
    awaitReady items count n

/-- Whether `count` workers run and are ready, and the workers there are. -/
def start (c : Config) (items : List Worker) (count : Nat) : DaemonProg (Bool × List Worker) := do
  stop .start items
  if !(← allFree (queues count)) then return (false, [])
  let (ok, items) ← spawnAll c [] (queues count)
  if !ok then return (false, items)
  awaitReady items count 80

end Workers

/-! ## The monitor's sample -/

/-- How often in a row each queue stood still, by queue: its length, its sequence number and
that count. -/
abbrev Progress := OrdMap Nat (Nat × Nat × Nat)

/-- One row of `stall_sample`. -/
def stallRow (acc : Progress × Nat) (row : Nat × Nat × Nat) : Progress × Nat :=
  let (q, len, seq) := row
  let n := match acc.1.find q with
    | some (oldLen, oldSeq, n) => if len > 0 && len == oldLen && seq == oldSeq then min (n + 1) 255 else 0
    | none => 0
  (acc.1.insert q (len, seq, n), max acc.2 n)

def stallSample (previous : Progress) (sample : QStats) : Progress × Nat :=
  sample.entries.foldl stallRow (previous.retain fun q => sample.entries.any (·.1 == q), 0)

/-! ## The loop -/

/-- What is fixed before the loop. -/
structure Setup where
  config : Config
  backend : EffectiveBackend
  v6 : V6Mode
  /-- Whether the route watcher could be opened. -/
  watcher : Bool

def Setup.kernel (c : Setup) : Bool := c.backend == .kernel

/-- The variables of the loop. -/
structure Loop where
  links : Links
  active4 : Option String
  active6 : Option String
  last : String
  failures : Nat
  activeWorkers : Nat
  queueProgress : Progress
  lastDrops : String
  warnBacklog : Nat
  changed : Bool
  first : Bool
  items : List Worker

/-- The variables before the first turn, with `workers` queues to serve. -/
def Loop.initial (workers : Nat) : Loop where
  links := .default
  active4 := none
  active6 := none
  last := ""
  failures := 0
  activeWorkers := workers
  queueProgress := .empty
  lastDrops := ""
  warnBacklog := 0
  changed := true
  first := true
  items := []

/-- The new `failures` and `active_workers` of a recovery, and its delay in seconds. -/
def backoff (c : Config) (failures workers : Nat) : Nat × Nat × Nat :=
  let failures := min (failures + 1) 255
  let delay := min (c.cooldown * 2 ^ min failures 5) (2 ^ 64 - 1)
  if failures ≥ c.maxFailures then
    if workers > 1 then (0, (workers + 1) / 2, 30) else (failures, workers, 30)
  else (failures, workers, delay)

/-- The sleep of `recover`, `n` tenths of a second left. -/
def coolDown : Nat → DaemonProg Unit
  | 0 => pure ()
  | n + 1 => do
    if ← ask .stopping then return
    if ← ask .paused then return
    ask (.sleep 100)
    coolDown n

/-- What `recover` does after its `cleanup`. -/
def takeDown (c : Setup) (l : Loop) : DaemonProg Loop := do
  Workers.stop .recover l.items
  let (failures, workers, delay) := backoff c.config l.failures l.activeWorkers
  if workers != l.activeWorkers then
    writeState "workers" (toString workers)
    log ("DEGRADE: workers=" ++ toString workers)
  coolDown (min delay 60 * 10)
  return { l with active4 := none, active6 := none, failures := failures, activeWorkers := workers, items := [] }

def recover (c : Setup) (l : Loop) (why : String) : DaemonProg Loop := do
  log ("RECOVERY: " ++ why)
  writeState "last-recovery" why
  writeState "phase" "recovering"
  if !(← ask .cleanup) then log "WARNING: recovery cleanup incomplete"
  takeDown c l

/-- How a part of the loop's body ends: it goes on, or to the next turn at once (`continue`). -/
inductive Step
  | go (l : Loop)
  | again (l : Loop)

/-- Recover, and `continue` with everything to be looked at again. -/
def recoverFirst (c : Setup) (l : Loop) (why : String) : DaemonProg Step := do
  let l ← recover c l why
  return .again { l with first := true }

/-- The interfaces, looked for again when it is time. -/
def rescan (c : Setup) (l : Loop) : DaemonProg Loop := do
  if ← orElapsed (l.first || l.changed) .scan c.config.rescanMs then
    let links ← ask .discover
    ask (.reset .scan)
    return { l with links := links }
  else return l

def syncQos (l : Loop) : DaemonProg Unit := do
  if ← orElapsed (l.first || l.links.signature != l.last) .sqm 30000 then
    ask (.syncQos l.links)
    ask (.reset .sqm)

/-- Whether the rules are as installed, as far as it is time to look. -/
def intact (c : Setup) (l : Loop) : DaemonProg Bool := do
  let due ← orElapsed (l.first || l.changed) .check c.config.checkMs
  if l.links.active && due then
    ask (.reset .check)
    if !(← ask (.rulesOk false l.active4 l.links c.kernel l.activeWorkers c.config.ttl c.v6)) then return false
    if c.v6 == .normalize || c.v6 == .block then
      ask (.rulesOk true l.active6 l.links true l.activeWorkers c.config.ipv6Hl c.v6)
    else return true
  else return true

def interfaces (links : Links) : String :=
  "downstream:" ++ " ".intercalate links.down ++ " upstream:" ++ " ".intercalate links.up

/-- Rules go first, then workers; the flags go whether the rules did or not. -/
def detach (l : Loop) : DaemonProg Loop := do
  let cleaned ← ask .cleanup
  if !cleaned then log "WARNING: cleanup failed; retrying"
  Workers.stop .idle l.items
  return { l with first := l.first || !cleaned, active4 := none, active6 := none, items := [] }

/-- Without interfaces there are no rules and no workers. -/
def idle (l : Loop) : DaemonProg Loop := do
  let l ← if l.active4.isSome || l.active6.isSome then detach l else pure l
  writeState "phase" "idle"
  writeState "interfaces" (interfaces l.links)
  return l

/-- Whether the workers run, started anew if they are not healthy, and the workers there are. -/
def ensureWorkers (c : Setup) (l : Loop) : DaemonProg (Bool × List Worker) := do
  if c.backend == .nfqueue then
    if ← Workers.healthy l.items l.activeWorkers then return (true, l.items)
    Workers.start c.config l.items l.activeWorkers
  else return (true, l.items)

def installRules (c : Setup) (l : Loop) : DaemonProg (Bool × Loop) := do
  let (ok, active4) ← ask (.install4 l.links c.kernel l.activeWorkers c.config.ttl l.active4)
  let l := { l with active4 := active4 }
  if !ok then return (false, l)
  let (ok, active6) ← ask (.install6 l.links c.v6 c.config.ipv6Hl l.active6)
  return (ok, { l with active6 := active6 })

/-- Workers first, then the rules. -/
def install (c : Setup) (l : Loop) : DaemonProg Step := do
  writeState "phase" "installing"
  let (ok, items) ← ensureWorkers c l
  let l := { l with items := items }
  if !ok then recoverFirst c l "worker startup failed"
  else
    let (ok, l) ← installRules c l
    if !ok then recoverFirst c l "rule installation failed"
    else
      writeState "interfaces" (interfaces l.links)
      writeState "phase" "active"
      log ("rules active: " ++ interfaces l.links)
      return .go l

/-- The interfaces are dealt with, unless the turn was broken off. -/
def settle (sig : String) : Step → DaemonProg Step
  | .again l => pure (.again l)
  | .go l => do
    ask (.reset .stable)
    return .go { l with last := sig, queueProgress := .empty, lastDrops := "" }

/-- Bring rules and workers in step with the interfaces. -/
def update (c : Setup) (l : Loop) (whole : Bool) : DaemonProg Step := do
  if l.first || l.links.signature != l.last || !whole then
    let l := { l with first := false }
    if l.links.active then
      let step ← install c l
      settle l.links.signature step
    else
      let l ← idle l
      settle l.links.signature (.go l)
  else return .go l

/-- The drops as the loop compares them. -/
def QStats.drops (qs : QStats) : String := toString qs.kdrops ++ ":" ++ toString qs.udrops

/-- What the monitor reports of a sample, and how long the worst queue stood still. -/
def report (c : Setup) (l : Loop) (qs : QStats) : DaemonProg (Loop × Nat) := do
  let (progress, stalled) := stallSample l.queueProgress qs
  if !l.lastDrops.isEmpty && qs.drops != l.lastDrops then
    log ("WARNING: NFQUEUE drops " ++ l.lastDrops ++ " -> " ++ qs.drops ++ ", backlog=" ++ toString qs.len)
  let warnBacklog := if qs.len ≥ c.config.maxBacklog then l.warnBacklog + 1 else 0
  if warnBacklog % 20 = 1 then log ("WARNING: NFQUEUE backlog=" ++ toString qs.len)
  writeState "queue.stats" ("backlog=" ++ toString qs.len ++ " kernel_drops=" ++ toString qs.kdrops ++
    " userspace_drops=" ++ toString qs.udrops ++ " stalled=" ++ toString stalled)
  return ({ l with queueProgress := progress, warnBacklog := warnBacklog }, stalled)

/-- The watchdog over workers and queues, when it is due. -/
def sample (c : Setup) (l : Loop) : DaemonProg Step := do
  ask (.reset .monitor)
  let qs ← ask (.queueStats l.activeWorkers)
  let healthy ← Workers.healthy l.items l.activeWorkers
  if !healthy || qs.rows != l.activeWorkers then recoverFirst c l "worker/queue disappeared"
  else
    let (l, stalled) ← report c l qs
    if stalled ≥ c.config.stallLimit then recoverFirst c l "queue stalled"
    else return .go { l with lastDrops := qs.drops }

def monitor (c : Setup) (l : Loop) : DaemonProg Step := do
  if c.backend == .nfqueue && l.active4.isSome then
    if ← ask (.elapsed .monitor c.config.watchdogMs.toNat) then sample c l else return .go l
  else return .go l

/-- The offload settings and the workers' logs, looked after now and then. -/
def housekeep (c : Setup) (l : Loop) : DaemonProg Unit := do
  if ← ask (.elapsed .offload 30000) then
    ask (.offloadApply c.config.disableOffload)
    ask (.trimLogs l.items)
    ask (.reset .offload)

/-- The wait for the next turn, and whether routes changed in it. -/
def waitNext (c : Setup) (l : Loop) : DaemonProg Bool := do
  let delay : Int :=
    if l.links.active && c.backend == .nfqueue then c.config.watchdogMs
    else if l.links.active then min c.config.checkMs 2147483647
    else c.config.idleMs
  if c.watcher then
    let changed ← ask (.wait delay)
    if changed then ask (.sleep 100)
    return changed
  else
    ask (.sleep delay.toNat)
    return false

def rest (c : Setup) (l : Loop) : DaemonProg Loop := do
  let stable ← ask (.elapsed .stable 60000)
  housekeep c l
  let changed ← waitNext c l
  return { l with failures := if stable then 0 else l.failures, changed := changed }

/-- One turn of the loop. It answers with the variables after it, or that the loop is left. -/
def turn (c : Setup) (l : Loop) : DaemonProg (Option Loop) := do
  if ← ask .stopping then return none
  if ← ask .halted then
    log "stopping: disabled/removed/paused"
    return none
  let l ← rescan c l
  syncQos l
  let whole ← intact c l
  match ← update c l whole with
  | .again l => return some l
  | .go l =>
    match ← monitor c l with
    | .again l => return some l
    | .go l => return some (← rest c l)

/-- After the loop. The last `stop` is that of `Workers::drop`, which finds no workers. -/
def shutdown (l : Loop) : DaemonProg Bool := do
  let cleaned ← ask .cleanup
  Workers.stop .shutdown l.items
  ask .offloadRestore
  ask (.removeState "queue.stats")
  writeState "phase" (if cleaned then "stopped" else "cleanup-error")
  Workers.stop .drop []
  return cleaned

end Nfqttl.Daemon
