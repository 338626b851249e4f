/-
`firewall.rs`: what the daemon does to the mangle tables, one command after the
other. Every function answers from the exit status of its commands and from what
`-S` prints, as the source does; what the commands do is `Nfqttl.Iptables`'s.
-/
import Nfqttl.Iptables
import Nfqttl.Links

namespace Nfqttl

open Effect

def chainHook : String := "nfqttl_v40h"
def chainA : String := "nfqttl_v40a"
def chainB : String := "nfqttl_v40b"
def chain6Hook : String := "nfqttl6_v40h"
def chain6A : String := "nfqttl6_v40a"
def chain6B : String := "nfqttl6_v40b"
def queueBase : Nat := 6464

/-- The IPv6 modes `choose_v6` picks between. -/
inductive V6Mode
  | pass | passNoIp6tables | block | normalize
  deriving DecidableEq, Repr

/-- `mode.starts_with("pass")`. -/
def V6Mode.isPass : V6Mode → Bool
  | .pass | .passNoIp6tables => true
  | .block | .normalize => false

/-- The tools found: iptables always, ip6tables when one is usable. -/
structure Firewall where
  ip6t : Option String

/-- The hook chain of a family. -/
def hookOf (v6 : Bool) : String := if v6 then chain6Hook else chainHook

namespace Firewall

def ipt (_ : Firewall) (cmd : Cmd) : Prog FwSig Bool := runCmd false cmd

/-- Without ip6tables every IPv6 command fails. -/
def ip6 (fw : Firewall) (cmd : Cmd) : Prog FwSig Bool :=
  match fw.ip6t with
  | some _ => runCmd true cmd
  | none => pure false

def out4 (_ : Firewall) (chain : String) : Prog FwSig (List String) := showChain false chain

def out6 (fw : Firewall) (chain : String) : Prog FwSig (List String) :=
  match fw.ip6t with
  | some _ => showChain true chain
  | none => pure []

def run (fw : Firewall) (v6 : Bool) (cmd : Cmd) : Prog FwSig Bool :=
  if v6 then fw.ip6 cmd else fw.ipt cmd

def out (fw : Firewall) (v6 : Bool) (chain : String) : Prog FwSig (List String) :=
  if v6 then fw.out6 chain else fw.out4 chain

/-- The lines of a listing that are rules. -/
def ruleLines (s : List String) : List String := s.filter fun l => "-A ".toList.isPrefixOf l.toList

/-! ## Removing what is there -/

/-- The check and delete loop of `del_jump`, `n` rounds of it left. -/
def delJumpLoop (fw : Firewall) (v6 : Bool) (parent target : String) : Nat → Prog FwSig Bool
  | 0 => pure false
  | n + 1 => do
    let exist ← fw.run v6 (.check parent (jumpTo target))
    if !exist then return true
    if !(← fw.run v6 (.delete parent (jumpTo target))) then return false
    fw.delJumpLoop v6 parent target n

def delJump (fw : Firewall) (v6 : Bool) (parent target : String) : Prog FwSig Bool :=
  fw.delJumpLoop v6 parent target 16

/-- `del_jump` from `FORWARD` for each chain, up to the first that fails. -/
def delJumps (fw : Firewall) (v6 : Bool) : List String → Prog FwSig Bool
  | [] => pure true
  | c :: cs => do
    if !(← fw.delJump v6 "FORWARD" c) then return false
    fw.delJumps v6 cs

/-- A command for each chain, whatever it answers. -/
def each (fw : Firewall) (v6 : Bool) (cmd : String → Cmd) : List String → Prog FwSig Unit
  | [] => pure ()
  | c :: cs => do
    let _ ← fw.run v6 (cmd c)
    fw.each v6 cmd cs

/-- The chains whose jumps `cleanup4` removes. -/
def hooks4 : List String :=
  [chainHook, "nfqttl_v30h", "nfqttl_v30a", "nfqttl_v30b", "nfqttl_v29a", "nfqttl_v29b", "nfqttl_fwd"]

/-- The chains `cleanup4` flushes and deletes. -/
def chains4 : List String :=
  [chainHook, chainA, chainB, "nfqttl_v30h", "nfqttl_v30a", "nfqttl_v30b", "nfqttl_v29a", "nfqttl_v29b",
    "nfqttl_fwd"]

def hooks6 : List String := [chain6Hook, "nfqttl6_v30h", "nfqttl6_v30a", "nfqttl6_v30b"]

def chains6 : List String :=
  [chain6Hook, chain6A, chain6B, "nfqttl6_v30h", "nfqttl6_v30a", "nfqttl6_v30b"]

/-- What `cleanup4` and `cleanup6` do, for a family's chains. -/
def cleanupFam (fw : Firewall) (v6 : Bool) (hooks chains : List String) : Prog FwSig Bool := do
  if !(← fw.delJumps v6 hooks) then return false
  fw.each v6 .flush chains
  fw.each v6 .deleteChain chains
  return true

def cleanup4 (fw : Firewall) : Prog FwSig Bool := fw.cleanupFam false hooks4 chains4

def cleanup6 (fw : Firewall) : Prog FwSig Bool :=
  if fw.ip6t.isNone then pure true else fw.cleanupFam true hooks6 chains6

def cleanup (fw : Firewall) : Prog FwSig Bool := do
  if ← fw.cleanup4 then fw.cleanup6 else return false

/-! ## Checking what is there -/

/-- The first line is `rule` and no other line is. -/
def firstOnly (rule : String) : List String → Bool
  | [] => false
  | l :: ls => l == rule && (ls.filter (· == rule)).length == 0

def hookOk (fw : Firewall) (v6 : Bool) : Prog FwSig Bool := do
  let s ← fw.out v6 "FORWARD"
  return firstOnly ("-A FORWARD -j " ++ hookOf v6) (ruleLines s)

/-- The target of a payload rule, as `rules_ok` expects it printed. -/
def tail (v6 kernel : Bool) (workers value : Nat) (mode : V6Mode) : String :=
  if v6 then
    if mode = .normalize then "HL --hl-set " ++ toString value else "DROP"
  else if kernel then "TTL --ttl-set " ++ toString value
  else if workers > 1 then
    "NFQUEUE --queue-balance " ++ toString queueBase ++ ":" ++ toString (queueBase + workers - 1) ++ " --queue-bypass"
  else "NFQUEUE --queue-num " ++ toString queueBase ++ " --queue-bypass"

/-- The lines `rules_ok` expects of the payload chain `c`. -/
def expected (c : String) (links : Links) (tail : String) : List String :=
  links.pairs.map fun (i, o) => "-A " ++ c ++ " -i " ++ i ++ " -o " ++ o ++ " -j " ++ tail

def rulesOk (fw : Firewall) (v6 : Bool) (active : Option String) (links : Links) (kernel : Bool)
    (workers value : Nat) (mode : V6Mode) : Prog FwSig Bool := do
  let some c := active | return false
  if !(← fw.hookOk v6) then return false
  let s ← fw.out v6 (hookOf v6)
  if ruleLines s != ["-A " ++ hookOf v6 ++ " -j " ++ c] then return false
  let s ← fw.out v6 c
  return ruleLines s == expected c links (tail v6 kernel workers value mode)

/-! ## Installing -/

/-- Delete the second rule of the hook chain, `n` times. -/
def trimHook (fw : Firewall) (v6 : Bool) : Nat → Prog FwSig Bool
  | 0 => pure true
  | n + 1 => do
    if !(← fw.run v6 (.deleteNum (hookOf v6) 2)) then return false
    fw.trimHook v6 n

/-- The first part of `activate`: the hook chain's first rule becomes the jump to `new`. -/
def rewire (fw : Firewall) (v6 : Bool) (new : String) (active : Option String) : Prog FwSig Bool := do
  let _ ← fw.run v6 (.new (hookOf v6))
  let replaced ← if active.isSome then fw.run v6 (.replace (hookOf v6) 1 (jumpTo new)) else pure false
  if replaced then return true
  if !(← fw.run v6 (.flush (hookOf v6))) then return false
  fw.run v6 (.append (hookOf v6) (jumpTo new))

/-- Its second part: remove extra hook entries left by a partial Android table recreation. -/
def trim (fw : Firewall) (v6 : Bool) : Prog FwSig Bool := do
  let s ← fw.out v6 (hookOf v6)
  fw.trimHook v6 ((ruleLines s).length - 1)

/-- Its last part: `FORWARD` begins with the one jump to the hook chain. -/
def attach (fw : Firewall) (v6 : Bool) : Prog FwSig Bool := do
  if ← fw.hookOk v6 then return true
  if !(← fw.delJump v6 "FORWARD" (hookOf v6)) then return false
  fw.run v6 (.insert "FORWARD" 1 (jumpTo (hookOf v6)))

def activate (fw : Firewall) (v6 : Bool) (new : String) (active : Option String) : Prog FwSig Bool := do
  if !(← fw.rewire v6 new active) then return false
  if !(← fw.trim v6) then return false
  fw.attach v6

/-- Append a rule for each pair, up to the first that fails. -/
def appendPairs (fw : Firewall) (v6 : Bool) (new : String) (act : Action) :
    List (String × String) → Prog FwSig Bool
  | [] => pure true
  | (i, o) :: ps => do
    if !(← fw.run v6 (.append new (pairRule i o act))) then return false
    fw.appendPairs v6 new act ps

/-- The payload chain that is not the active one. -/
def inactive (a b : String) (active : Option String) : String := if active = some a then b else a

/-- `active.take()` and the flush of the chain it was, whatever that answers. -/
def retire (fw : Firewall) (v6 : Bool) : Option String → Prog FwSig Unit
  | none => pure ()
  | some old => do
    let _ ← fw.run v6 (.flush old)

/-- Build the inactive payload chain, rewire the hook to it, flush the old one.
Answers whether it went through, and the active chain after it. -/
def install (fw : Firewall) (v6 : Bool) (a b : String) (act : Action) (links : Links)
    (active : Option String) : Prog FwSig (Bool × Option String) := do
  let new := inactive a b active
  let _ ← fw.run v6 (.new new)
  if !(← fw.run v6 (.flush new)) then return (false, active)
  if !(← fw.appendPairs v6 new act links.pairs) then return (false, active)
  if !(← fw.activate v6 new active) then return (false, active)
  fw.retire v6 active
  return (true, some new)

/-- The target options `install4` appends. -/
def target4 (kernel : Bool) (workers ttl : Nat) : Action :=
  if kernel then .jump "TTL" ["--ttl-set", toString ttl]
  else if workers > 1 then
    .jump "NFQUEUE"
      ["--queue-balance", toString queueBase ++ ":" ++ toString (queueBase + workers - 1), "--queue-bypass"]
  else .jump "NFQUEUE" ["--queue-num", toString queueBase, "--queue-bypass"]

/-- The target options `install6` appends. -/
def target6 (mode : V6Mode) (hl : Nat) : Action :=
  if mode = .normalize then .jump "HL" ["--hl-set", toString hl] else .jump "DROP" []

def install4 (fw : Firewall) (links : Links) (kernel : Bool) (workers ttl : Nat) (active : Option String) :
    Prog FwSig (Bool × Option String) :=
  fw.install false chainA chainB (target4 kernel workers ttl) links active

def install6 (fw : Firewall) (links : Links) (mode : V6Mode) (hl : Nat) (active : Option String) :
    Prog FwSig (Bool × Option String) := do
  if mode.isPass then
    let _ ← fw.cleanup6
    return (true, none)
  if fw.ip6t.isNone then return (mode = .passNoIp6tables, active)
  fw.install true chain6A chain6B (target6 mode hl) links active

end Firewall

end Nfqttl
