/-
`config.rs`: reading the settings from `config.conf`, and checking the text before it
is used.

`Config::load` and `Config::validate` go through the same lines on their own: the
loader keeps what it had where a value does not fit, the checker refuses the text.
-/
import Nfqttl.Config
import Nfqttl.Lib.Text
import Nfqttl.Util

namespace Nfqttl

open Text

/-- The settings a line may assign. -/
inductive Setting
  | ttl | backend | workers | downstreams | upstreams | disableOffload | ipv6Mode | ipv6Hl | maxFailures | cooldown
  | queueMaxlen | rcvbufMb | maxBacklog | stallLimit | watchdogMs | idleMs | rescanMs | checkMs
  | sqmUpKbit | sqmDownKbit | sqmUpIface | sqmDownIface | gso
  deriving DecidableEq, Repr

namespace Setting

def name : Setting → String
  | ttl => "TTL"
  | backend => "BACKEND"
  | workers => "WORKERS"
  | downstreams => "DOWNSTREAMS"
  | upstreams => "UPSTREAMS"
  | disableOffload => "DISABLE_OFFLOAD"
  | ipv6Mode => "IPV6_MODE"
  | ipv6Hl => "IPV6_HL"
  | maxFailures => "MAX_FAILURES"
  | cooldown => "COOLDOWN"
  | queueMaxlen => "QUEUE_MAXLEN"
  | rcvbufMb => "RCVBUF_MB"
  | maxBacklog => "MAX_BACKLOG"
  | stallLimit => "STALL_LIMIT"
  | watchdogMs => "WATCHDOG_MS"
  | idleMs => "IDLE_MS"
  | rescanMs => "RESCAN_MS"
  | checkMs => "CHECK_MS"
  | sqmUpKbit => "SQM_UP_KBIT"
  | sqmDownKbit => "SQM_DOWN_KBIT"
  | sqmUpIface => "SQM_UP_IFACE"
  | sqmDownIface => "SQM_DOWN_IFACE"
  | gso => "GSO"

def all : List Setting :=
  [ttl, backend, workers, downstreams, upstreams, disableOffload, ipv6Mode, ipv6Hl, maxFailures, cooldown,
    queueMaxlen, rcvbufMb, maxBacklog, stallLimit, watchdogMs, idleMs, rescanMs, checkMs, sqmUpKbit, sqmDownKbit,
    sqmUpIface, sqmDownIface, gso]

/-- The setting a key names. -/
def ofName (k : List Char) : Option Setting := all.find? fun s => s.name == String.ofList k

theorem ofName_name (s : Setting) : ofName s.name.toList = some s := by
  cases s <;> decide

theorem name_ofName {k : List Char} {s : Setting} (h : ofName k = some s) : k = s.name.toList := by
  have hname := List.find?_some h
  rw [beq_iff_eq] at hname
  rw [hname, String.toList_ofList]

end Setting

/-! ## Lines -/

/-- A value without the quotes around it. -/
def unquote (s : List Char) : List Char :=
  let s := trim s
  if 2 ≤ s.length ∧ (s.head? = some '"' ∧ s.getLast? = some '"' ∨ s.head? = some '\'' ∧ s.getLast? = some '\'') then
    (s.drop 1).dropLast
  else s

/-- What a line is: blank or a comment, no `key=value`, or a key and its unquoted value. -/
inductive Line
  | skipped
  | malformed
  | assign (k v : List Char)
  deriving DecidableEq, Repr

def Line.parse (raw : List Char) : Line :=
  let line := trim raw
  if line.isEmpty || line.head? == some '#' then .skipped
  else
    match splitOnce '=' line with
    | none => .malformed
    | some (k, v) => .assign (trim k) (unquote v)

/-- `int`, from what the value was parsed to. -/
def int {α : Type} (n : Option α) (default : α) : α := n.getD default

/-- A number is taken when it is in range. -/
def ranged {α : Type} [LE α] [DecidableLE α] (n lo hi old : α) : α := if lo ≤ n ∧ n ≤ hi then n else old

def clamp {α : Type} [Min α] [Max α] (n lo hi : α) : α := max lo (min n hi)

def isTrue (v : List Char) : Bool := v == "1".toList || v.map Char.toLower == "true".toList

/-- A byte past ASCII is none of those allowed, so the characters are looked at. -/
def validIface (s : List Char) : Bool :=
  !s.isEmpty && decide ((String.ofList s).utf8ByteSize ≤ 15) &&
    s.all fun b => b.isAlphanum || "_.:-".toList.contains b

/-! ## `Config::load` -/

namespace Config

def toStrings (l : List (List Char)) : List String := l.map String.ofList

/-- What a line that assigns `v` to a setting does. No cast of the source loses a bit:
the numbers kept in a byte are at most 255. -/
def set (c : Config) (v : List Char) : Setting → Config
  | .ttl => { c with ttl := ranged (int (parseUnsigned 16 v) 64) 1 255 c.ttl }
  | .backend => { c with backend :=
      if v = "kernel".toList then .kernel else if v = "nfqueue".toList then .nfqueue else .auto }
  | .workers => { c with workers := ranged (int (parseUnsigned 16 v) 1) 1 8 c.workers }
  | .downstreams => { c with downstreams := toStrings ((words v).filter validIface) }
  | .upstreams => { c with upstreams := toStrings ((words v).filter validIface) }
  | .disableOffload => { c with disableOffload := isTrue v }
  | .ipv6Mode => { c with ipv6Mode :=
      if v = "normalize".toList then .normalize else if v = "block".toList then .block
      else if v = "pass".toList then .pass else .auto }
  | .ipv6Hl => { c with ipv6Hl := ranged (int (parseUnsigned 16 v) 64) 1 255 c.ipv6Hl }
  | .maxFailures => { c with maxFailures := ranged (int (parseUnsigned 16 v) 6) 1 20 c.maxFailures }
  | .cooldown => { c with cooldown := ranged (int (parseUnsigned 64 v) 1) 0 60 c.cooldown }
  | .queueMaxlen => { c with queueMaxlen := ranged (int (parseUnsigned 32 v) 4096) 256 32768 c.queueMaxlen }
  | .rcvbufMb => { c with rcvbufMb := ranged (int (parseUnsigned 32 v) 8) 1 64 c.rcvbufMb }
  | .maxBacklog => { c with maxBacklog := ranged (int (parseUnsigned 64 v) 3072) 32 32768 c.maxBacklog }
  | .stallLimit => { c with stallLimit := ranged (int (parseUnsigned 16 v) 3) 2 20 c.stallLimit }
  | .watchdogMs => { c with watchdogMs := ranged (int (parseSigned 32 v) 500) 100 5000 c.watchdogMs }
  | .idleMs => { c with idleMs := clamp (int (parseSigned 32 v) 10000) 1000 60000 }
  | .rescanMs => { c with rescanMs := clamp (int (parseUnsigned 64 v) 10000) 1000 60000 }
  | .checkMs => { c with checkMs := clamp (int (parseUnsigned 64 v) 5000) 1000 60000 }
  | .sqmUpKbit => { c with sqmUpKbit := int (parseUnsigned 32 v) 0 }
  | .sqmDownKbit => { c with sqmDownKbit := int (parseUnsigned 32 v) 0 }
  | .sqmUpIface => { c with sqmUpIface := String.ofList v }
  | .sqmDownIface => { c with sqmDownIface := String.ofList v }
  | .gso => { c with gso := isTrue v }

def loadLine (c : Config) (raw : List Char) : Config :=
  match Line.parse raw with
  | .assign k v =>
    match Setting.ofName k with
    | some s => c.set v s
    | none => c
  | _ => c

/-- `max_backlog` does not exceed the queue. -/
def capped (c : Config) : Config :=
  if c.maxBacklog > c.queueMaxlen then { c with maxBacklog := c.queueMaxlen } else c

/-- What the lines of a text make of the defaults. -/
def loaded (text : List Char) : Config := (lines text).foldl loadLine {}

/-- `Config::load`, with the text of the file, if it can be read. -/
def load : Option (List Char) → Config
  | none => {}
  | some text => (loaded text).capped

end Config

/-! ## `Config::validate` -/

/-- The range of a setting that is a number. -/
def Setting.bounds : Setting → Option (Nat × Nat)
  | .ttl | .ipv6Hl => some (1, 255)
  | .sqmUpKbit | .sqmDownKbit => some (0, 1000000)
  | .workers => some (1, 8)
  | .maxFailures => some (1, 20)
  | .cooldown => some (0, 60)
  | .queueMaxlen => some (256, 32768)
  | .rcvbufMb => some (1, 64)
  | .maxBacklog => some (32, 32768)
  | .stallLimit => some (2, 20)
  | .watchdogMs => some (100, 5000)
  | .idleMs | .rescanMs | .checkMs => some (1000, 60000)
  | _ => none

/-- Whether a setting that is no number may have a value. -/
def Setting.valid (v : List Char) : Setting → Bool
  | .sqmUpIface | .sqmDownIface => v.isEmpty || validIface v
  | .backend => ["auto", "kernel", "nfqueue"].contains (String.ofList v)
  | .ipv6Mode => ["auto", "normalize", "block", "pass"].contains (String.ofList v)
  | .disableOffload | .gso => ["0", "1", "true", "false"].contains (String.ofList v)
  | .downstreams | .upstreams => (words v).all validIface
  | _ => false

namespace Config

/-- What `validate` has seen of the lines. -/
structure Seen where
  keys : List (List Char) := []
  down : List (List Char) := []
  up : List (List Char) := []

def Seen.note (seen : Seen) (v : List Char) : Setting → Seen
  | .downstreams => { seen with down := words v }
  | .upstreams => { seen with up := words v }
  | _ => seen

def lineError (i : Nat) (m : String) : IoError := .new .invalidData s!"config line {i + 1}: {m}"

/-- Check the value of the setting `k`, which is `s`. -/
def checkValue (i : Nat) (seen : Seen) (k v : List Char) (s : Setting) : Except IoError Seen :=
  match s.bounds with
  | some (min, max) =>
    match parseUnsigned 64 v with
    | none => .error (lineError i "expected integer")
    | some n =>
      if min ≤ n ∧ n ≤ max then .ok seen
      else .error (lineError i s!"{String.ofList k} must be {min}..{max}")
  | none =>
    if s.valid v then .ok (seen.note v s)
    else .error (lineError i s!"unknown setting or invalid value: {String.ofList k}")

def checkLine (seen : Seen) (raw : List Char × Nat) : Except IoError Seen :=
  match Line.parse raw.1 with
  | .skipped => .ok seen
  | .malformed => .error (lineError raw.2 "expected KEY=VALUE")
  | .assign k v =>
    if k ∈ seen.keys then .error (lineError raw.2 "duplicate setting")
    else
      let seen := { seen with keys := k :: seen.keys }
      match Setting.ofName k with
      | some s => checkValue raw.2 seen k v s
      | none => .error (lineError raw.2 s!"unknown setting or invalid value: {String.ofList k}")

def invalid (text : String) : IoError := .new .invalidData text

/-- The last checks, of the settings together. -/
def checkSqm (c : Config) : Except IoError Unit := do
  for (rate, iface) in [(c.sqmUpKbit, c.sqmUpIface), (c.sqmDownKbit, c.sqmDownIface)] do
    if rate > 0 ∧ (rate < 100 ∨ iface.isEmpty) then
      throw (invalid "SQM: positive rate must be 100..1000000 kbit/s with an explicit interface")
  if c.sqmUpKbit > 0 ∨ c.sqmDownKbit > 0 then
    if !c.disableOffload then throw (invalid "SQM requires DISABLE_OFFLOAD=1")
    if c.sqmUpIface = c.sqmDownIface ∧ c.sqmUpKbit > 0 ∧ c.sqmDownKbit > 0 then
      throw (invalid "SQM interfaces must differ")
    if c.sqmUpIface.startsWith "v4-" || c.sqmUpIface.startsWith "clat" then
      throw (invalid "SQM upload: use the underlying physical interface, not CLAT")

/-- `Config::validate`, on the text of the file. -/
def validate (text : List Char) : Except IoError Unit := do
  let seen ← (lines text).zipIdx.foldlM checkLine {}
  if seen.down.any seen.up.contains then throw (invalid "DOWNSTREAMS and UPSTREAMS overlap")
  checkSqm (load (some text))

end Config

end Nfqttl
