/-
`verify.rs`: whether tethered packets take the normalised path, judged from what the
rules counted and what left the phone during a short window.

The decision is made by plain functions (`totalHits`, `Hist`, `judge`). What `run` reads
and prints are operations, in the order in which the source asks for them.
-/
import Mathlib.Algebra.GroupWithZero.Nat
import Mathlib.Data.UInt
import Nfqttl.ConfigFile
import Nfqttl.Firewall

namespace Nfqttl.Verify

open Effect Text

/-- `util::VERSION` -/
def version : String := "4.4.0-eclipse"
def exitPass : Nat := 0
def exitInconclusive : Nat := 2
def exitFail : Nat := 3
def defaultSeconds : Nat := 8
def leakMinPackets : Nat := 10
def leakRatioDiv : Nat := 20
def wireOnlyMinPackets : Nat := 10

/-! ## Rule counters -/

structure RuleCount where
  input : String
  output : String
  target : String
  pkts : UInt64
  deriving DecidableEq, Repr

/-- The two counts are of one rule: the same interfaces and the same target. -/
def RuleCount.same (a b : RuleCount) : Bool := b.input == a.input && b.output == a.output && b.target == a.target

/-- A row: `pkts bytes target prot opt in out source destination [options]`. -/
def parseRow (line : List Char) : Option RuleCount :=
  match words line with
  | pkts :: bytes :: target :: _ :: _ :: input :: output :: _ :: _ :: _ => do
    let pkts ← parseUnsigned 64 pkts
    let _ ← parseUnsigned 64 bytes
    return ⟨String.ofList input, String.ofList output, String.ofList target, .ofNat pkts⟩
  | _ => none

/-- The rows of `-nvx -L`. The header lines do not start with a number. -/
def parseCounters (text : List Char) : List RuleCount := (lines text).filterMap parseRow

/-- The active payload chain, from what `-S` prints of the hook chain. -/
def activeChain (hookRules : List Char) (hook : String) : Option String :=
  let lead := ("-A " ++ hook ++ " -j ").toList
  ((((lines hookRules).findSome? fun l => lead.isPrefixOf? l).map trim).filter fun s => !s.isEmpty).map String.ofList

/-- `u64::saturating_sub` -/
def saturatingSub (a b : UInt64) : UInt64 := if b ≤ a then a - b else 0

/-- How often the rule of `a` was hit since the snapshot `before`. -/
def hitsOf (before : List RuleCount) (a : RuleCount) : UInt64 :=
  saturatingSub a.pkts (((before.find? a.same).map (·.pkts)).getD 0)

/-- The sum of the increases. A release build adds modulo 2^64. -/
def totalHits (before after : List RuleCount) : UInt64 := (after.map (hitsOf before)).sum

/-! ## The wire sample -/

/-- How often each value was seen. A window of a minute brings no 2^59 packets, so the
counts do not wrap. -/
structure Hist where
  counts : UInt8 → Nat := fun _ => 0
  total : Nat := 0

namespace Hist

def add (h : Hist) (v : UInt8) : Hist where
  counts := fun x => if x = v then h.counts x + 1 else h.counts x
  total := h.total + 1

/-- `0..=255u8` -/
def values : List UInt8 := (List.range 256).map UInt8.ofNat

/-- Packets whose value is not one of `ok`. -/
def foreign (h : Hist) (ok : List UInt8) : Nat := ((values.filter fun v => !ok.contains v).map h.counts).sum

/-- The most frequent values, descending. -/
def top (h : Hist) (n : Nat) : List (UInt8 × Nat) :=
  let v := (values.map fun x => (x, h.counts x)).filter fun p => decide (p.2 > 0)
  (v.mergeSort fun a b => decide (a.2 > b.2 ∨ a.2 = b.2 ∧ a.1 ≤ b.1)).take n

def describe (h : Hist) (label : String) : String :=
  if h.total = 0 then label ++ ": no packets"
  else
    let top := (h.top 4).map fun (v, c) => toString v.toNat ++ "x" ++ toString c
    label ++ ": " ++ toString h.total ++ " packets, values " ++ " ".intercalate top

end Hist

/-- Count the IPv4 TTL or the IPv6 hop limit of a packet. -/
def observe (pkt : List UInt8) (h : Hist × Hist) : Hist × Hist :=
  match pkt.head?.map fun b : UInt8 => b >>> 4 with
  | some 4 => if 20 ≤ pkt.length then (h.1.add (pkt.getD 8 0), h.2) else h
  | some 6 => if 40 ≤ pkt.length then (h.1, h.2.add (pkt.getD 7 0)) else h
  | _ => h

/-- A packet a tap delivers: whether it leaves the phone, and its bytes. -/
structure Packet where
  outgoing : Bool
  bytes : List UInt8
  deriving DecidableEq, Repr

/-- Only outgoing packets count; the buffer takes the first 128 bytes. -/
def drain (h : Hist × Hist) (pkts : List Packet) : Hist × Hist :=
  pkts.foldl (fun h p => if p.outgoing then observe (p.bytes.take 128) h else h) h

/-! ## The decision -/

inductive Outcome
  | pass | inconclusive | fail
  deriving DecidableEq, Repr

def Outcome.exitCode : Outcome → Nat
  | pass => exitPass
  | inconclusive => exitInconclusive
  | fail => exitFail

def Outcome.name : Outcome → String
  | pass => "PASS"
  | inconclusive => "INCONCLUSIVE"
  | fail => "FAIL"

structure Evidence where
  /-- What the rules counted; `none` when that was not collected. -/
  hits : Option UInt64
  wire4 : Nat
  foreign4 : Nat
  chainChanged : Bool

def Evidence.leak (e : Evidence) : Bool :=
  decide (e.foreign4 ≥ leakMinPackets) && decide (e.foreign4 * leakRatioDiv > e.wire4)

def judge (e : Evidence) : Outcome × String :=
  match e.hits with
  | some n =>
    if n = 0 ∧ e.leak then
      (.fail, "packets leave with a foreign TTL while no rule matched: tethered traffic bypasses netfilter " ++
        "(hardware/BPF offload?). Restart the hotspot after offload is disabled")
    else if e.leak then
      (.fail, "a share of packets leaves with a foreign TTL: an interface pair is not covered, or another " ++
        "rule/offload path bypasses the hook")
    else if n > 0 then (.pass, "tethered packets traverse the FORWARD hook and match the TTL/HL rule")
    else if e.chainChanged then (.inconclusive, "rules were reinstalled during the window: run verify again")
    else
      (.inconclusive, "no forwarded packets matched: generate traffic from a hotspot client (a download) and run " ++
        "verify again")
  | none =>
    if e.leak then
      (.fail, "a share of packets leaves with a foreign TTL: an interface pair is not covered, or another " ++
        "rule/offload path bypasses the hook")
    else if e.wire4 ≥ wireOnlyMinPackets then
      (.pass, "sampled egress TTL is as configured (wire-only evidence: tethered and local packets cannot be told " ++
        "apart)")
    else (.inconclusive, "too few packets sampled on the wire: generate traffic and run verify again")

/-! ## Options -/

structure Options where
  seconds : Nat := defaultSeconds
  ifaces : List String := []
  wireOnly : Bool := false
  deriving DecidableEq, Repr

def invalid (msg : String) : IoError := .new .invalidInput msg

/-- The options from `o` on, and the arguments left. -/
def parseFrom (o : Options) : List (List Char) → Except IoError Options
  | [] => .ok o
  | a :: args =>
    if a = "--module-dir".toList then
      match args with
      | [] => .ok o
      | _ :: args => parseFrom o args
    else if a = "--seconds".toList then
      match args with
      | [] => .error (invalid "--seconds expects a value from 2 to 60")
      | s :: args =>
        match (parseUnsigned 64 s).filter fun s => 2 ≤ s && s ≤ 60 with
        | none => .error (invalid "--seconds expects a value from 2 to 60")
        | some s => parseFrom { o with seconds := s } args
    else if a = "--iface".toList then
      match args with
      | [] => .error (invalid "--iface expects a valid interface name")
      | name :: args =>
        if !validIface name then .error (invalid "--iface expects a valid interface name")
        else if o.ifaces.contains (String.ofList name) then parseFrom o args
        else parseFrom { o with ifaces := o.ifaces ++ [String.ofList name] } args
    else if a = "--wire-only".toList then parseFrom { o with wireOnly := true } args
    else .error (invalid "unknown verify option")

def parseOptions (args : List (List Char)) : Except IoError Options := parseFrom {} args

/-! ## What `run` asks for -/

/-- What iptables is asked to print. -/
inductive Listing
  | rules (hook : String)    -- -S hook
  | counters (chain : String) -- -L chain -nvx
  deriving DecidableEq, Repr

inductive VerifyOp
  | readConfig
  | readState (name : String)
  | select
  | discover (c : Config)
  | readProc (path : String)
  /-- The file `ifindex` of an interface. -/
  | readIndex (name : String)
  /-- A packet socket bound to an interface. -/
  | bind (name : String) (index : Int)
  | print (text : String)
  | printUnavailable (name : String) (e : IoError)
  | out (v6 : Bool) (what : Listing)
  /-- The packets the taps deliver until the window ends. -/
  | receive (taps : List String) (seconds : Nat)
  | sleep (seconds : Nat)

@[reducible] def VerifySig : Sig where
  Op := VerifyOp
  Ans := fun
    | .readConfig => Except IoError (List Char)
    | .readState _ | .readProc _ | .readIndex _ => Option (List Char)
    | .select => Option Firewall
    | .discover _ => Links
    | .bind _ _ => Except IoError Unit
    | .print _ | .printUnavailable _ _ | .sleep _ => Unit
    | .out _ _ => List Char
    | .receive _ _ => List Packet

abbrev VerifyProg := Prog VerifySig

def readConfig : VerifyProg (Except IoError (List Char)) := .op .readConfig .ret
/-- `read_trim` of a file in the state directory. -/
def readState (name : String) : VerifyProg (Option (List Char)) := .op (.readState name) fun t => .ret (t.map trim)
def select : VerifyProg (Option Firewall) := .op .select .ret
def discover (c : Config) : VerifyProg Links := .op (.discover c) .ret
def print (text : String) : VerifyProg Unit := .op (.print text) .ret
def printIf (c : Bool) (text : String) : VerifyProg Unit := if c then print text else .ret ()
def printUnavailable (name : String) (e : IoError) : VerifyProg Unit := .op (.printUnavailable name e) .ret

/-- `out4` or `out6`: empty when iptables fails. -/
def out (v6 : Bool) (what : Listing) : VerifyProg (List Char) := .op (.out v6 what) .ret

def byteOr64 (text : Option (List Char)) : Nat := ((text.map trim).bind (parseUnsigned 8)).getD 64

def procU8 (path : String) : VerifyProg Nat := .op (.readProc path) fun t => .ret (byteOr64 t)

def openTap (name : String) : VerifyProg (Except IoError Unit) :=
  if !validIface name.toList then .ret (.error (invalid "invalid interface name"))
  else .op (.readIndex name) fun t =>
    match (t.map trim).bind (parseSigned 32) with
    | none => .ret (.error (.new .notFound "interface not found"))
    | some index => .op (.bind name index) .ret

/-- The interfaces that can be tapped; the others are reported. -/
def openTaps : List String → VerifyProg (List String)
  | [] => return []
  | name :: names => do
    match ← openTap name with
    | .ok _ => return name :: (← openTaps names)
    | .error e => do
      printUnavailable name e
      openTaps names

def sample (taps : List String) (seconds : Nat) : VerifyProg (Hist × Hist) :=
  if taps.isEmpty then .op (.sleep seconds) fun _ => .ret ({}, {})
  else .op (.receive taps seconds) fun pkts => .ret (drain ({}, {}) pkts)

/-- The active chain of a family, and what its rules counted. -/
abbrev Snapshot := Option String × List RuleCount

def counters (v6 : Bool) : VerifyProg Snapshot := do
  let rules ← out v6 (.rules (hookOf v6))
  match activeChain rules (hookOf v6) with
  | none => return (none, [])
  | some chain => do
    let text ← out v6 (.counters chain)
    return (some chain, parseCounters text)

/-! ## `run` -/

/-- `use_v6_rules` -/
def usesV6 (fw : Option Firewall) (v6Mode : List Char) : Bool :=
  (match fw with
    | some f => f.ip6t.isSome
    | none => false) && (v6Mode == "normalize".toList || v6Mode == "block".toList)

/-- The snapshots before the window: of IPv4, and of IPv6 when its rules are in use. -/
def before (useV6 : Bool) : VerifyProg (Snapshot × Option Snapshot) := do
  let before4 ← counters false
  let before6 ← if useV6 then some <$> counters true else pure none
  return (before4, before6)

/-- The snapshots after it: the hits since `b`, and whether an active chain changed. -/
def after (b : Snapshot × Option Snapshot) : VerifyProg (UInt64 × Bool) := do
  let (a4, ra4) ← counters false
  let hits4 := totalHits b.1.2 ra4
  print ("Rule hits IPv4: " ++ toString hits4 ++ " packets" ++
    match a4 with
    | some c => " (chain " ++ c ++ ")"
    | none => "")
  match b.2 with
  | none => return (hits4, a4 != b.1.1)
  | some (c6, r6) => do
    let (a6, ra6) ← counters true
    let hits6 := totalHits r6 ra6
    print ("Rule hits IPv6: " ++ toString hits6 ++ " packets")
    return (hits4 + hits6, a4 != b.1.1 || a6 != c6)

/-- Both are left out for `--wire-only`, which has no firewall. -/
def beforeOf (fw : Option Firewall) (v6Mode : List Char) : VerifyProg (Option (Snapshot × Option Snapshot)) :=
  if fw.isSome then some <$> before (usesV6 fw v6Mode) else pure none

def afterOf : Option (Snapshot × Option Snapshot) → VerifyProg (Option (UInt64 × Bool))
  | some b => some <$> after b
  | none => pure none

def orUnknown (text : List Char) : String := if text.isEmpty then "unknown" else String.ofList text

/-- The last part of `run`: judge the evidence and report it. -/
def conclude (c : Config) (own4 : Nat) (v6Mode : List Char) (h : Hist × Hist) (counted : Option (UInt64 × Bool)) :
    VerifyProg Nat := do
  let foreign4 := h.1.foreign [.ofNat c.ttl, .ofNat own4]
  print (h.1.describe "Wire IPv4 TTL")
  print (h.2.describe "Wire IPv6 HL" ++
    if c.ipv6Mode = .pass ∨ "pass".toList.isPrefixOf v6Mode then " (informational; IPv6 is not modified)"
    else " (informational; CLAT translation can change it)")
  printIf (foreign4 > 0) ("Foreign IPv4 TTL (not " ++ toString c.ttl ++ " or " ++ toString own4 ++ "): " ++
    toString foreign4 ++ " packets")
  let (outcome, reason) := judge ⟨counted.map (·.1), h.1.total, foreign4, (counted.map (·.2)).getD false⟩
  print ("RESULT: " ++ outcome.name ++ " — " ++ reason ++ "\nVERIFY_RESULT=" ++ outcome.name)
  printIf (outcome = .pass)
    "Note: this proves the data path, not carrier policy. TTL is only one detection signal."
  return outcome.exitCode

def upstreamsOf (o : Options) (c : Config) : VerifyProg (List String) :=
  if o.ifaces.isEmpty then Links.up <$> discover c else pure o.ifaces

/-- The part of `run` once the firewall is known, `none` for `--wire-only`. -/
def measure (o : Options) (c : Config) (fw : Option Firewall) : VerifyProg Nat := do
  let v6Mode := (← readState "ipv6_mode").getD []
  let backend := (← readState "backend").getD []
  let upstreams ← upstreamsOf o c
  let own4 ← procU8 "/proc/sys/net/ipv4/ip_default_ttl"
  let own6 ← procU8 "/proc/sys/net/ipv6/conf/all/hop_limit"
  print ("nfqttl verify " ++ version ++ " — " ++ toString o.seconds ++ " s window\nConfig: TTL=" ++ toString c.ttl ++
    " IPV6_HL=" ++ toString c.ipv6Hl ++ " backend=" ++ orUnknown backend ++ " ipv6=" ++ orUnknown v6Mode ++
    "\nPhone default: TTL=" ++ toString own4 ++ " HL=" ++ toString own6)
  let b ← beforeOf fw v6Mode
  let taps ← openTaps upstreams
  print (if taps.isEmpty then "Wire sampling off: result rests on rule counters only."
    else "Sampling egress on: " ++ " ".intercalate upstreams)
  print "Generate traffic from a hotspot client now (for example a download)."
  let h ← sample taps o.seconds
  let counted ← afterOf b
  conclude c own4 v6Mode h counted

/-- The exit code, or an error. -/
def run (args : List (List Char)) : VerifyProg (Except IoError Nat) :=
  match parseOptions args with
  | .error e => return .error e
  | .ok o => do
    match ← readConfig with
    | .error e => return .error e
    | .ok text =>
      match Config.validate text with
      | .error e => return .error e
      | .ok _ => do
        let c := Config.load (← readConfig).toOption
        if o.wireOnly then .ok <$> measure o c none
        else
          let phase := (← readState "phase").getD []
          if phase ≠ "active".toList then do
            print ("Hotspot rules are not active (phase=" ++ orUnknown phase ++ "). Turn the hotspot on, connect a " ++
              "client and run verify again, or use --wire-only.\nVERIFY_RESULT=INCONCLUSIVE")
            return .ok exitInconclusive
          match ← select with
          | none => return .error (.new .notFound "no usable iptables (root/SELinux)")
          | some fw => .ok <$> measure o c (some fw)

end Nfqttl.Verify
