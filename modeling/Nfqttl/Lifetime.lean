/-
`daemon.rs`: `run`, the daemon's life from the lock to the end of the process, around the
loop of `Nfqttl.Daemon`.

Only one daemon supervises at a time: `run` goes on when it gets the lock of
`daemon.flock`, and ends without a word when another process has it. What comes before
the loop (`prepare`) chooses the backend, the number of workers and the IPv6 mode.
-/
import Nfqttl.ConfigFile
import Nfqttl.Daemon

namespace Nfqttl.Life

open Effect Daemon

def version : String := "4.4.0-eclipse"

/-- An `io::Error` by its kind `AlreadyExists`, or another one. -/
inductive LockError
  | alreadyExists
  | io (e : IoError)
  deriving DecidableEq, Repr

/-! ## What `run` asks for -/

inductive RunOp
  | ensureState
  /-- `daemon.flock` is opened. -/
  | openLock
  /-- `flock()`, without waiting. -/
  | flock
  /-- `lock` becomes a directory. -/
  | createLock
  /-- The two steps of the `fs::write` of `lock/pid`: the file is emptied, and has the pid. -/
  | createPid
  | writePid
  | removePid
  | removeLock
  /-- The guard is dropped, and `daemon.flock` closed. -/
  | unlock
  /-- `qos::cleanup`. -/
  | cleanupQos
  /-- Whether `sys.boot_completed` is 1. -/
  | bootCompleted
  /-- `config.conf` as `Config::validate` reads it, and as `Config::load` does. -/
  | readConfig
  | loadConfig
  | select
  | probeTtl (ttl : Nat)
  | probeHl (hl : Nat)
  | probeBalance (workers : Nat)
  | currentExe
  | openWatcher
  /-- The text of the system's last error. -/
  | strerror
  deriving DecidableEq, Repr

/-- The operations of the loop, and those of `run`. -/
inductive LifeOp
  | loop (op : DaemonOp)
  | run (op : RunOp)

@[reducible] def RunOp.Ans : RunOp → Type
  | .ensureState | .openLock | .createLock | .createPid | .writePid => Except LockError Unit
  | .cleanupQos | .currentExe => Except IoError Unit
  | .flock | .bootCompleted | .probeTtl _ | .probeHl _ | .probeBalance _ | .openWatcher => Bool
  | .readConfig => Except IoError (List Char)
  | .loadConfig => Option (List Char)
  | .select => Option Firewall
  | .removePid | .removeLock | .unlock => Unit
  | .strerror => String

@[reducible] def LifeSig : Sig where
  Op := LifeOp
  Ans := fun
    | .loop op => DaemonSig.Ans op
    | .run op => op.Ans

abbrev LifeProg := Prog LifeSig

def ask (op : RunOp) : LifeProg op.Ans := .op (.run op) .ret

/-- An operation of the loop. -/
def say (op : DaemonOp) : LifeProg (DaemonSig.Ans op) := .op (.loop op) .ret

/-- A program of the loop. -/
def looped {α : Type} (p : DaemonProg α) : LifeProg α := p.hoist say

def log (text : String) : LifeProg Unit := say (.log text)
def writeState (name value : String) : LifeProg Unit := say (.writeState name value)

/-! ## The lock -/

inductive Acquired
  | held
  | already
  | failed (e : IoError)
  deriving DecidableEq, Repr

/-- How `run` takes an error of `acquire_lock`. -/
def LockError.acquired : LockError → Acquired
  | .alreadyExists => .already
  | .io e => .failed e

/-- A step of `acquire_lock` with the lock in hand, which an error gives back. -/
def holding (step : LifeProg (Except LockError Unit)) (next : LifeProg Acquired) : LifeProg Acquired := do
  match ← step with
  | .ok () => next
  | .error e =>
    ask .unlock
    return e.acquired

def acquireLock : LifeProg Acquired := do
  match ← ask .ensureState with
  | .error e => return e.acquired
  | .ok () =>
    match ← ask .openLock with
    | .error e => return e.acquired
    | .ok () =>
      if !(← ask .flock) then return .already
      holding (ask .createLock) <| holding (ask .createPid) <| holding (ask .writePid) <| return .held

def releaseLock : LifeProg Unit := do
  ask .removePid
  ask .removeLock

/-! ## Before the loop -/

/-- `boot_wait`, with `n` looks left. -/
def bootWait : Nat → LifeProg Unit
  | 0 => pure ()
  | n + 1 => do
    if ← say .stopping then return
    if ← ask .bootCompleted then return
    say (.sleep 1000)
    bootWait n

/-- As `{:?}` prints them. -/
def backendDebug : Backend → String
  | .auto => "Auto"
  | .kernel => "Kernel"
  | .nfqueue => "Nfqueue"

def ipv6Debug : Ipv6Mode → String
  | .auto => "Auto"
  | .normalize => "Normalize"
  | .block => "Block"
  | .pass => "Pass"

def backendName : EffectiveBackend → String
  | .kernel => "kernel"
  | .nfqueue => "nfqueue"

def modeName : V6Mode → String
  | .pass => "pass"
  | .passNoIp6tables => "pass-no-ip6tables"
  | .block => "block"
  | .normalize => "normalize"

abbrev TryProg := ExceptT IoError LifeProg

def attempt {α : Type} (p : LifeProg α) : TryProg α := ExceptT.lift p

/-- An operation whose error ends the function. -/
def orFail {α : Type} (p : LifeProg (Except IoError α)) : TryProg α := .mk p

def other (text : String) : IoError := .new .other text

def chooseBackend (c : Config) : TryProg EffectiveBackend :=
  match c.backend with
  | .nfqueue => pure .nfqueue
  | .kernel => do
    if ← attempt (ask (.probeTtl c.ttl)) then return .kernel
    else throw (other "kernel TTL target unavailable")
  | .auto => do
    if ← attempt (ask (.probeTtl c.ttl)) then return .kernel else return .nfqueue

def chooseWorkers (backend : EffectiveBackend) (c : Config) : LifeProg Nat := do
  if backend == .nfqueue then
    if ← ask (.probeBalance c.workers) then return c.workers else return 1
  else return 1

def chooseV6 (fw : Firewall) (c : Config) : TryProg V6Mode :=
  match c.ipv6Mode with
  | .pass => pure .pass
  | .block =>
    if fw.ip6t.isSome then pure .block
    else do
      attempt (log "WARNING: ip6tables unavailable; IPv6 block cannot be enforced")
      return .passNoIp6tables
  | .normalize =>
    if fw.ip6t.isNone then throw (other "IPv6 normalization requested but ip6tables unavailable")
    else do
      if ← attempt (ask (.probeHl c.ipv6Hl)) then return .normalize else throw (other "IPv6 HL target unavailable")
  | .auto =>
    if fw.ip6t.isNone then do
      attempt (log "WARNING: ip6tables unavailable; forwarded IPv6 cannot be normalized or blocked")
      return .passNoIp6tables
    else do
      if ← attempt (ask (.probeHl c.ipv6Hl)) then return .normalize else return .block

/-- What the daemon says and leaves in its state once all is chosen. -/
def announce (c : Config) (backend : EffectiveBackend) (workers : Nat) (v6 : V6Mode) : LifeProg Unit := do
  writeState "backend" (backendName backend)
  writeState "workers" (if backend == .kernel then "0" else toString workers)
  writeState "ipv6_mode" (modeName v6)
  if c.disableOffload then say (.offloadApply true) else say .offloadRestore
  log ("backend=" ++ backendName backend ++ " workers=" ++ toString workers ++ " ipv6=" ++ modeName v6 ++
    "; restart hotspot if already active")

/-- The choice of everything the loop works with, on the tools found. -/
def setUp (fw : Firewall) : TryProg (Setup × Nat) := do
  let c := Config.load (← attempt (ask .loadConfig))
  attempt (log ("v" ++ version ++ " starting; requested=" ++ backendDebug c.backend ++ " ttl=" ++ toString c.ttl ++
    " workers=" ++ toString c.workers ++ " ipv6=" ++ ipv6Debug c.ipv6Mode))
  let backend ← chooseBackend c
  let workers ← attempt (chooseWorkers backend c)
  let v6 ← chooseV6 fw c
  orFail (ask .currentExe)
  attempt (announce c backend workers v6)
  let watcher ← attempt (ask .openWatcher)
  return (⟨c, backend, v6, watcher⟩, workers)

/-- `run_inner` up to its loop, once the system has booted. -/
def prepareBooted : TryProg (Setup × Nat) := do
  let text ← orFail (ask .readConfig)
  orFail (pure (Config.validate text))
  match ← attempt (ask .select) with
  | none => throw (.new .notFound "usable Android iptables not found")
  | some fw =>
    if !(← attempt (say .cleanup)) then throw (other "initial firewall cleanup failed")
    setUp fw

/-- `run_inner` up to its loop, once it is clear that the daemon may run. -/
def prepareUnhalted : TryProg (Option (Setup × Nat)) := do
  attempt (writeState "phase" "boot-wait")
  attempt (bootWait 120)
  if ← attempt (say .stopping) then
    attempt (writeState "phase" "stopped")
    return none
  some <$> prepareBooted

/-- `run_inner` up to its loop: what the loop works with, unless it is not to run. -/
def prepare : TryProg (Option (Setup × Nat)) := do
  if ← attempt (say .halted) then
    attempt (writeState "phase" "stopped")
    return none
  prepareUnhalted

/-! ## After the loop -/

/-- `to_string` of an error. -/
def describe : IoError → LifeProg String
  | .new _ text => pure text
  | .last => ask .strerror

/-- The end of `run`: an error is written down, and the lock given up. -/
def finish (result : Except IoError Unit) : LifeProg (Except IoError Unit) := do
  match result with
  | .ok () => pure ()
  | .error e =>
    let text ← describe e
    log ("ERROR: " ++ text)
    writeState "phase" "error"
    writeState "last-error" text
  releaseLock
  ask .unlock
  return result

/-- What `run` does with the result of `run_inner`. -/
def conclude (result : Except IoError Unit) : LifeProg (Except IoError Unit) := do
  match ← ask .cleanupQos with
  | .ok () => finish result
  | .error e =>
    log ("SQM cleanup failed: " ++ (← describe e))
    match result with
    | .ok () => finish (.error e)
    | .error e' => finish (.error e')

theorem describe_within {P : LifeOp → Prop} (h : P (.run .strerror)) (e : IoError) :
    Within P (fun _ => True) (describe e) := by
  cases e with
  | new kind text => trivial
  | last => exact ⟨h, fun _ => trivial⟩

/-! ## The rounds of a life -/

/-- Where a round of the daemon starts: with `run`, with a turn of the loop, or behind it. -/
inductive Stage
  | run
  | turn (c : Setup) (l : Loop)
  | shutdown (l : Loop)

/-- One round: `run` up to the loop, one turn of it, or what comes after it. -/
def round : Stage → LifeProg (Stage ⊕ Except IoError Unit)
  | .run => do
    match ← acquireLock with
    | .already => return .inr (.ok ())
    | .failed e => return .inr (.error e)
    | .held =>
      match ← prepare.run with
      | .ok (some (c, workers)) => return .inl (.turn c (.initial workers))
      | .ok none => return .inr (← conclude (.ok ()))
      | .error e => return .inr (← conclude (.error e))
  | .turn c l => do
    match ← looped (Daemon.turn c l) with
    | some l' => return .inl (.turn c l')
    | none => return .inl (.shutdown l)
  | .shutdown l => do
    let cleaned ← looped (Daemon.shutdown l)
    return .inr (← conclude (if cleaned then .ok () else .error (other "firewall cleanup incomplete")))

/-! ## What comes before the loop -/

/-- The operations by which the daemon finds out what there is to choose from. -/
def asking : LifeOp → Bool
  | .loop op =>
    match op with
    | .stopping | .sleep _ | .log _ => true
    | _ => false
  | .run op =>
    match op with
    | .bootCompleted | .readConfig | .select | .probeTtl _ | .probeHl _ | .probeBalance _ | .currentExe
    | .openWatcher => true
    | _ => false

/-- The operations between the lock and the loop, the question whether to run at all apart. -/
def early : LifeOp → Bool
  | .loop op =>
    match op with
    | .stopping | .sleep _ | .log _ | .writeState .. | .cleanup | .offloadApply _ | .offloadRestore => true
    | _ => false
  | .run op =>
    match op with
    | .bootCompleted | .readConfig | .loadConfig | .select | .probeTtl _ | .probeHl _ | .probeBalance _ | .currentExe
    | .openWatcher => true
    | _ => false

theorem early_of_asking (op : LifeOp) (h : asking op = true) : early op = true := by
  cases op with
  | loop op => cases op <;> first | rfl | cases h
  | run op => cases op <;> first | rfl | cases h

section
variable {P : LifeOp → Prop} {α β : Type}

theorem within_attempt {p : LifeProg α} (h : Within P (fun _ => True) p) :
    Within P (fun _ => True) (attempt p).run := by
  exact within_bind.mpr (h.mono fun _ _ => trivial)

theorem within_try {x : TryProg α} {f : α → TryProg β} (hx : Within P (fun _ => True) x.run)
    (hf : ∀ a, Within P (fun _ => True) (f a).run) : Within P (fun _ => True) (x >>= f).run := by
  rw [ExceptT.run_bind]
  refine within_bind.mpr (hx.mono ?_)
  intro r _
  cases r with
  | ok a => exact hf a
  | error e => trivial

end

abbrev Asking {α : Type} (p : LifeProg α) : Prop := Within (asking · = true) (fun _ => True) p

abbrev Early {α : Type} (p : LifeProg α) : Prop := Within (early · = true) (fun _ => True) p

theorem Asking.early {α : Type} {p : LifeProg α} (h : Asking p) : Early p := h.ops early_of_asking

theorem bootWait_asking : ∀ n, Asking (bootWait n)
  | 0 => trivial
  | n + 1 => by
    refine ⟨rfl, fun stopping => ?_⟩
    cases stopping
    case true => trivial
    refine ⟨rfl, fun booted => ?_⟩
    cases booted
    case true => trivial
    exact ⟨rfl, fun _ => bootWait_asking n⟩

variable {c : Config} {fw : Firewall}

theorem chooseBackend_asking : Asking (chooseBackend c).run := by
  unfold chooseBackend
  split
  · trivial
  · refine ⟨rfl, fun ok => ?_⟩
    cases ok <;> trivial
  · refine ⟨rfl, fun ok => ?_⟩
    cases ok <;> trivial

theorem chooseWorkers_asking {backend : EffectiveBackend} : Asking (chooseWorkers backend c) := by
  cases backend with
  | kernel => trivial
  | nfqueue =>
    refine ⟨rfl, fun ok => ?_⟩
    cases ok <;> trivial

theorem chooseV6_asking : Asking (chooseV6 fw c).run := by
  unfold chooseV6
  split
  · trivial
  · split
    · trivial
    · exact ⟨rfl, fun _ => trivial⟩
  · split
    · trivial
    · refine ⟨rfl, fun ok => ?_⟩
      cases ok <;> trivial
  · split
    · exact ⟨rfl, fun _ => trivial⟩
    · refine ⟨rfl, fun ok => ?_⟩
      cases ok <;> trivial

theorem announce_early {backend : EffectiveBackend} {workers : Nat} {v6 : V6Mode} :
    Early (announce c backend workers v6) := by
  refine ⟨rfl, fun _ => ⟨rfl, fun _ => ⟨rfl, fun _ => ?_⟩⟩⟩
  cases c.disableOffload
  · exact ⟨rfl, fun _ => ⟨rfl, fun _ => trivial⟩⟩
  · exact ⟨rfl, fun _ => ⟨rfl, fun _ => trivial⟩⟩

theorem setUp_early : Early (setUp fw).run := by
  unfold setUp
  refine ⟨rfl, fun text => ⟨rfl, fun _ => ?_⟩⟩
  refine within_try chooseBackend_asking.early fun backend => ?_
  refine within_try (within_attempt chooseWorkers_asking.early) fun workers => ?_
  refine within_try chooseV6_asking.early fun v6 => ?_
  refine within_try ⟨rfl, fun _ => trivial⟩ fun _ => ?_
  refine within_try (within_attempt announce_early) fun _ => ?_
  exact ⟨rfl, fun _ => trivial⟩

theorem prepareBooted_early : Early prepareBooted.run := by
  unfold prepareBooted
  refine within_try ⟨rfl, fun _ => trivial⟩ fun text => ?_
  refine within_try trivial fun _ => ⟨rfl, fun fw => ?_⟩
  cases fw with
  | none => trivial
  | some fw =>
    refine ⟨rfl, fun cleaned => ?_⟩
    cases cleaned
    · trivial
    · exact setUp_early

theorem prepareUnhalted_early : Early prepareUnhalted.run := by
  unfold prepareUnhalted
  refine within_try ⟨rfl, fun _ => trivial⟩ fun _ => within_try (within_attempt (bootWait_asking 120).early) fun _ => ?_
  refine ⟨rfl, fun stopping => ?_⟩
  cases stopping
  · exact within_try prepareBooted_early fun _ => trivial
  · exact ⟨rfl, fun _ => trivial⟩

end Nfqttl.Life
