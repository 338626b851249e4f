/-
`ctl.rs`: `configure`, which rewrites `config.conf` and restarts a running service,
with the `stop` and `start` it calls.

What the functions do to files and processes are operations, told apart by the place
they are called from, so that any of them can be made to fail. The text they write is
computed by plain functions: `parseArgs` checks the arguments, `rewrite` edits the
lines.
-/
import Nfqttl.ConfigFile
import Nfqttl.Lib.OrdMap
import Nfqttl.Lib.Prog

namespace Nfqttl.Ctl

open Effect Text

/-! ## The text -/

/-- The requested settings, by key. -/
abbrev Entries := OrdMap (List Char) (List Char)

def invalidInput (text : String) : IoError := .new .invalidInput text

def validKey (k : List Char) : Bool := !k.isEmpty && k.all fun x => x.isUpper || x == '_' || x.isDigit

def parseArg (entries : Entries) (s : List Char) : Except IoError Entries :=
  match splitOnce '=' s with
  | none => .error (invalidInput "use KEY=VALUE")
  | some (k, v) =>
    if !validKey k || v.any ['\n', '\r', Char.ofNat 0].contains || (entries.find k).isSome then
      .error (invalidInput "invalid or duplicate setting")
    else .ok (entries.insert k v)

def parseArgs (settings : List (List Char)) : Except IoError Entries := do
  let entries ← settings.foldlM parseArg .empty
  if entries.isEmpty then throw (invalidInput "no settings supplied")
  return entries

def assignment (k v : List Char) : List Char := k ++ '=' :: v ++ ['\n']

/-- One line of the old text: replaced when a setting is left that it assigns. -/
def rewriteLine : List Char × Entries → List Char → List Char × Entries
  | (text, entries), line =>
    match splitOnce '=' line with
    | some (key, _) =>
      match entries.find (trim key) with
      | some v => (text ++ assignment (trim key) v, entries.erase (trim key))
      | none => (text ++ (line ++ ['\n']), entries)
    | none => (text ++ (line ++ ['\n']), entries)

/-- The old text with the settings replaced, those it lacks at the end. -/
def rewrite (old : List Char) (entries : Entries) : List Char :=
  let (text, rest) := (lines old).foldl rewriteLine ([], entries)
  rest.entries.foldl (fun text (k, v) => text ++ assignment k v) text

/-! ## What the functions ask for -/

/-- Where an operation is called from. -/
inductive Site
  | configure | stop | start
  deriving DecidableEq, Repr

inductive CtlOp
  | readConfig (site : Site)
  | writeTemp (text : List Char)
  | chmodTemp
  | readTemp
  | removeTemp
  /-- Whether the process in `lock/pid` is there and the daemon. -/
  | owned (site : Site)
  | ensureState (site : Site)
  | writePaused
  /-- SIGTERM, and at most 45 seconds of waiting: whether the process is there still. -/
  | terminate
  | select
  | cleanup
  | stopOrphans
  | cleanupQos
  | restoreOffload
  | writePhase (phase : String)
  | writeBackup (text : List Char)
  | rename
  /-- Whether `disable` or `remove` is there. -/
  | halted
  | removePaused
  | removeLastError
  | currentExe
  | spawn
  deriving DecidableEq, Repr

@[reducible] def CtlSig : Sig where
  Op := CtlOp
  Ans := fun
    | .readConfig _ | .readTemp => Except IoError (List Char)
    | .owned _ | .terminate | .select | .cleanup | .halted => Bool
    | .removeTemp | .stopOrphans | .restoreOffload | .writePhase _ | .removePaused | .removeLastError => Unit
    | _ => Except IoError Unit

abbrev CtlProg := ExceptT IoError (Prog CtlSig)

def readConfig (site : Site) : CtlProg (List Char) := .mk (.op (.readConfig site) .ret)
def writeTemp (text : List Char) : CtlProg Unit := .mk (.op (.writeTemp text) .ret)
def chmodTemp : CtlProg Unit := .mk (.op .chmodTemp .ret)
def readTemp : CtlProg (List Char) := .mk (.op .readTemp .ret)
def removeTemp : CtlProg Unit := .mk (.op .removeTemp fun a => .ret (.ok a))
def owned (site : Site) : CtlProg Bool := .mk (.op (.owned site) fun a => .ret (.ok a))
def ensureState (site : Site) : CtlProg Unit := .mk (.op (.ensureState site) .ret)
def writePaused : CtlProg Unit := .mk (.op .writePaused .ret)
def terminate : CtlProg Bool := .mk (.op .terminate fun a => .ret (.ok a))
def select : CtlProg Bool := .mk (.op .select fun a => .ret (.ok a))
def cleanup : CtlProg Bool := .mk (.op .cleanup fun a => .ret (.ok a))
def stopOrphans : CtlProg Unit := .mk (.op .stopOrphans fun a => .ret (.ok a))
/-- `qos::cleanup`, whose error is looked at later. -/
def cleanupQos : CtlProg (Except IoError Unit) := .mk (.op .cleanupQos fun a => .ret (.ok a))
def restoreOffload : CtlProg Unit := .mk (.op .restoreOffload fun a => .ret (.ok a))
def writePhase (phase : String) : CtlProg Unit := .mk (.op (.writePhase phase) fun a => .ret (.ok a))
def writeBackup (text : List Char) : CtlProg Unit := .mk (.op (.writeBackup text) .ret)
def rename : CtlProg Unit := .mk (.op .rename .ret)
def halted : CtlProg Bool := .mk (.op .halted fun a => .ret (.ok a))
def removePaused : CtlProg Unit := .mk (.op .removePaused fun a => .ret (.ok a))
def removeLastError : CtlProg Unit := .mk (.op .removeLastError fun a => .ret (.ok a))
def currentExe : CtlProg Unit := .mk (.op .currentExe .ret)
def spawn : CtlProg Unit := .mk (.op .spawn .ret)

/-- The answer of a plain function. -/
def lift {α : Type} (x : Except IoError α) : CtlProg α := .mk (.ret x)

/-! ## The functions -/

def stop : CtlProg Unit := do
  ensureState .stop
  writePaused
  if ← owned .stop then
    if ← terminate then
      throw (.new .timedOut "supervisor still stopping; inspect service.log")
  -- Hook removal precedes worker termination so no new packets are queued.
  if ← select then
    if !(← cleanup) then
      throw (.new .other "firewall cleanup incomplete")
  stopOrphans
  let sqmResult ← cleanupQos
  restoreOffload
  lift sqmResult
  writePhase "stopped"

def start : CtlProg Unit := do
  if ← halted then
    throw (.new .other "Enable module in Magisk/KernelSU first")
  let text ← readConfig .start
  lift (Config.validate text)
  ensureState .start
  if ← owned .start then return
  removePaused
  removeLastError
  currentExe
  spawn

/-- The check of `configure`: what the temporary file holds, or it is removed. -/
def validateTemp : CtlProg Unit :=
  tryCatch (do
    let text ← readTemp
    lift (Config.validate text)) fun e => do
      removeTemp
      throw e

/-- The part of `configure` after the check. -/
def commit (old : List Char) : CtlProg Unit := do
  let running ← owned .configure
  if running then stop
  writeBackup old
  rename
  if running then start

def configure (settings : List (List Char)) : CtlProg Unit := do
  let old ← readConfig .configure
  let entries ← lift (parseArgs settings)
  writeTemp (rewrite old entries)
  chmodTemp
  validateTemp
  commit old

/-! ## The files and the service -/

/-- The supervisor: at work, told to stop but still there, or gone. -/
inductive Daemon
  | up | stopping | down
  deriving DecidableEq, Repr

/-- The module's directory and the service. `offered` only records the text that was to
take the place of `config.conf`. -/
structure World where
  config : List Char
  temp : Option (List Char)
  backup : Option (List Char)
  paused : Bool
  daemon : Daemon
  /-- `disable` or `remove` is there. -/
  halted : Bool
  /-- There is a usable iptables. -/
  iptables : Bool
  phase : String
  offered : Option (List Char)
  deriving DecidableEq, Repr

/-- Which operations fail, and what a write that fails leaves of a text. -/
structure Faults where
  fails : CtlOp → Bool
  torn : List Char → List Char

/-- An operation without a result of its own. -/
def attempt (failed : Bool) (w w' : World) : Except IoError Unit × World :=
  if failed then (.error .last, w) else (.ok (), w')

/-- What each operation does. -/
def handler (f : Faults) : Handler CtlSig World := fun op w =>
  match op with
  | .readConfig site => (if f.fails (.readConfig site) then .error .last else .ok w.config, w)
  | .writeTemp text =>
    attempt (f.fails (.writeTemp text)) { w with temp := some (f.torn text) } { w with temp := some text }
  | .chmodTemp => attempt (f.fails .chmodTemp) w w
  | .readTemp =>
    match f.fails .readTemp, w.temp with
    | false, some text => (.ok text, w)
    | _, _ => (.error .last, w)
  | .removeTemp => ((), if f.fails .removeTemp then w else { w with temp := none })
  | .owned _ => (w.daemon != .down, w)
  | .ensureState site => attempt (f.fails (.ensureState site)) w w
  | .writePaused => attempt (f.fails .writePaused) w { w with paused := true }
  | .terminate =>
    if f.fails .terminate then (true, { w with daemon := .stopping }) else (false, { w with daemon := .down })
  | .select => (w.iptables, w)
  | .cleanup => (!f.fails .cleanup, w)
  | .stopOrphans => ((), w)
  | .cleanupQos => attempt (f.fails .cleanupQos) w w
  | .restoreOffload => ((), w)
  | .writePhase phase => ((), { w with phase := phase })
  | .writeBackup text =>
    attempt (f.fails (.writeBackup text)) { w with backup := some (f.torn text) } { w with backup := some text }
  | .rename =>
    match f.fails .rename, w.temp with
    | false, some text => (.ok (), { w with config := text, temp := none, offered := some text })
    | _, _ => (.error .last, { w with offered := w.temp })
  | .halted => (w.halted, w)
  | .removePaused => ((), if f.fails .removePaused then w else { w with paused := false })
  | .removeLastError => ((), w)
  | .currentExe => attempt (f.fails .currentExe) w w
  | .spawn => attempt (f.fails .spawn) w { w with daemon := .up }

/-- The outcome of `configure` where the operations of `f` fail; nothing is offered before. -/
def run (f : Faults) (w : World) (settings : List (List Char)) : Except IoError Unit × World :=
  (configure settings).run.eval (handler f) { w with offered := none }

end Nfqttl.Ctl
