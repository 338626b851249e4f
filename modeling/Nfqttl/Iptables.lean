/-
The mangle table as the daemon meets it: chains of rules, the iptables commands
`firewall.rs` issues, and what `-S` prints.

A rule is kept in the shape `-S` prints it: its matches, each opened by an option
of its own, then what happens to the packet. A command either changes the table
and succeeds or leaves it alone and fails; `-S` prints one line a rule.
-/
import Mathlib.Data.List.Basic
import Nfqttl.Lib.OrdMap
import Nfqttl.Lib.Prog

namespace Nfqttl

open Effect

/-- The options a printed match can begin with. -/
inductive MatchOpt
  | i | o | s | d | p | m | f | not
  deriving DecidableEq, Repr

def MatchOpt.text : MatchOpt → String
  | .i => "-i" | .o => "-o" | .s => "-s" | .d => "-d" | .p => "-p" | .m => "-m" | .f => "-f" | .not => "!"

/-- One match of a rule, such as `-i wlan2`. -/
structure Match where
  opt : MatchOpt
  arg : String
  deriving DecidableEq, Repr

/-- What a matching rule does: jump to a chain or an extension, with the
extension's options, go to a chain, or only count. -/
inductive Action
  | jump (target : String) (opts : List String)
  | goto (chain : String)
  | count
  deriving DecidableEq, Repr

structure Rule where
  conds : List Match
  action : Action
  deriving DecidableEq, Repr

/-- The chain or extension a rule hands its packets to. -/
def Rule.target? (r : Rule) : Option String :=
  match r.action with
  | .jump t _ => some t
  | .goto c => some c
  | .count => none

/-- `-j c` with no match: the rule `-C`, `-D` and `-I` name as `-j c`. -/
def jumpTo (c : String) : Rule := ⟨[], .jump c []⟩

/-- `-i i -o o` and an action, the rules of a payload chain. -/
def pairRule (i o : String) (act : Action) : Rule := ⟨[⟨.i, i⟩, ⟨.o, o⟩], act⟩

/-! ## Tables -/

def builtinChains : List String := ["PREROUTING", "INPUT", "FORWARD", "OUTPUT", "POSTROUTING"]

/-- Targets that are no chains: the standard ones and the extensions the module uses. -/
def extensions : List String := ["ACCEPT", "DROP", "RETURN", "QUEUE", "TTL", "HL", "NFQUEUE"]

/-- A mangle table. `FORWARD` is built in: it is there and stays. -/
structure Table where
  chains : OrdMap String (List Rule)
  forward : (chains.find "FORWARD").isSome

namespace Table

instance : DecidableEq Table := fun a b =>
  decidable_of_iff (a.chains = b.chains) (by cases a; cases b; simp)

/-- The table with an empty `FORWARD` and no other chain. -/
def bare : Table := ⟨OrdMap.empty.insert "FORWARD" [], by simp⟩

/-- The rules of a chain, `none` when there is no such chain. -/
def rules (t : Table) (c : String) : Option (List Rule) := t.chains.find c

/-- The rules of `FORWARD`. -/
def fwd (t : Table) : List Rule := (t.rules "FORWARD").get t.forward

/-- Give chain `c` the rules `rs`, making the chain when there is none. -/
def set (t : Table) (c : String) (rs : List Rule) : Table where
  chains := t.chains.insert c rs
  forward := by
    rw [OrdMap.find_insert]
    split
    · rfl
    · exact t.forward

def drop (t : Table) (c : String) (h : c ≠ "FORWARD") : Table where
  chains := t.chains.erase c
  forward := by rw [OrdMap.find_erase, if_neg h.symm]; exact t.forward

/-- Some rule of some chain hands packets to `c`. -/
def referenced (t : Table) (c : String) : Bool :=
  t.chains.entries.any fun p => p.2.any fun r => r.target? == some c

/-- iptables knows the target: no target, an extension, or a chain of the table. -/
def knows (t : Table) (r : Rule) : Bool :=
  match r.action with
  | .jump c _ => extensions.contains c || (t.rules c).isSome
  | .goto c => (t.rules c).isSome
  | .count => true

theorem ext_rules {t t' : Table} (h : ∀ c, t.rules c = t'.rules c) : t = t' := by
  obtain ⟨m, hm⟩ := t
  obtain ⟨m', hm'⟩ := t'
  cases OrdMap.ext h
  rfl

theorem rules_set (t : Table) (c : String) (rs : List Rule) (c' : String) :
    (t.set c rs).rules c' = if c' = c then some rs else t.rules c' := OrdMap.find_insert ..

@[simp] theorem rules_set_self (t : Table) (c : String) (rs : List Rule) :
    (t.set c rs).rules c = some rs := by simp [rules_set]

theorem rules_set_ne (t : Table) {c c' : String} (rs : List Rule) (h : c' ≠ c) :
    (t.set c rs).rules c' = t.rules c' := by simp [rules_set, h]

@[simp] theorem rules_drop (t : Table) (c : String) (h : c ≠ "FORWARD") (c' : String) :
    (t.drop c h).rules c' = if c' = c then none else t.rules c' := OrdMap.find_erase ..

theorem rules_forward (t : Table) : t.rules "FORWARD" = some t.fwd := (Option.some_get _).symm

theorem fwd_eq_of_rules {t : Table} {rs : List Rule} (h : t.rules "FORWARD" = some rs) : t.fwd = rs := by
  simpa [h] using (t.rules_forward).symm

@[simp] theorem fwd_set_forward (t : Table) (rs : List Rule) : (t.set "FORWARD" rs).fwd = rs :=
  fwd_eq_of_rules (by simp)

theorem fwd_set_ne (t : Table) {c : String} (rs : List Rule) (h : c ≠ "FORWARD") :
    (t.set c rs).fwd = t.fwd :=
  fwd_eq_of_rules (by rw [rules_set_ne t rs h.symm, rules_forward])

@[simp] theorem set_set (t : Table) (c : String) (rs rs' : List Rule) : (t.set c rs).set c rs' = t.set c rs' :=
  ext_rules fun c' => by simp only [rules_set]; split <;> rfl

theorem set_rules {t : Table} {c : String} {rs : List Rule} (h : t.rules c = some rs) : t.set c rs = t :=
  ext_rules fun c' => by
    rw [rules_set]
    split
    · next hc => subst hc; exact h.symm
    · rfl

/-- What a rule hands packets to stays known as chains are given rules. -/
theorem knows_set {t : Table} {r : Rule} (c : String) (rs : List Rule) (h : t.knows r = true) :
    (t.set c rs).knows r = true := by
  obtain ⟨conds, action⟩ := r
  cases action with
  | jump d _ =>
    simp only [knows, Bool.or_eq_true, rules_set] at h ⊢
    exact h.imp id fun h => by split <;> simp [h]
  | goto d =>
    simp only [knows, rules_set] at h ⊢
    split <;> simp [h]
  | count => rfl

theorem knows_jumpTo {t : Table} {c : String} (h : (t.rules c).isSome) : t.knows (jumpTo c) = true := by
  simp [knows, jumpTo, h]

end Table

/-! ## Commands -/

/-- The commands of `iptables -t mangle` the daemon issues. -/
inductive Cmd
  | new (c : String)                          -- -N c
  | flush (c : String)                        -- -F c
  | deleteChain (c : String)                  -- -X c
  | append (c : String) (r : Rule)            -- -A c r
  | insert (c : String) (n : Nat) (r : Rule)  -- -I c n r
  | replace (c : String) (n : Nat) (r : Rule) -- -R c n r
  | check (c : String) (r : Rule)             -- -C c r
  | delete (c : String) (r : Rule)            -- -D c r
  | deleteNum (c : String) (n : Nat)          -- -D c n
  deriving DecidableEq, Repr

/-- What a command does to the table, `none` when it fails. -/
def Cmd.exec (t : Table) : Cmd → Option Table
  | .new c => if (t.rules c).isSome then none else some (t.set c [])
  | .flush c => (t.rules c).map fun _ => t.set c []
  | .deleteChain c =>
    if h : c = "FORWARD" then none
    else if builtinChains.contains c || t.rules c != some [] || t.referenced c then none
    else some (t.drop c h)
  | .append c r => do
    let rs ← t.rules c
    if t.knows r then some (t.set c (rs ++ [r])) else none
  | .insert c n r => do
    let rs ← t.rules c
    if t.knows r && decide (1 ≤ n) && decide (n ≤ rs.length + 1) then some (t.set c (rs.insertIdx (n - 1) r)) else none
  | .replace c n r => do
    let rs ← t.rules c
    if t.knows r && decide (1 ≤ n) && decide (n ≤ rs.length) then some (t.set c (rs.set (n - 1) r)) else none
  | .check c r => do
    let rs ← t.rules c
    if rs.contains r then some t else none
  | .delete c r => do
    let rs ← t.rules c
    if rs.contains r then some (t.set c (rs.erase r)) else none
  | .deleteNum c n => do
    let rs ← t.rules c
    if 1 ≤ n && n ≤ rs.length then some (t.set c (rs.eraseIdx (n - 1))) else none

/-- The chain a command is about. -/
def Cmd.chain : Cmd → String
  | .new c | .flush c | .deleteChain c | .append c _ | .insert c _ _ | .replace c _ _ | .check c _ | .delete c _
  | .deleteNum c _ => c

/-- A command changes no other chain than its own. -/
theorem Cmd.exec_frame {x : Cmd} {t t' : Table} (h : x.exec t = some t') {c : String} (hc : c ≠ x.chain) :
    t'.rules c = t.rules c := by
  cases x with
  | new d =>
    simp only [exec] at h
    split at h <;> cases h
    exact Table.rules_set_ne t _ hc
  | flush d =>
    obtain ⟨_, _, rfl⟩ := Option.map_eq_some_iff.mp h
    exact Table.rules_set_ne t _ hc
  | deleteChain d =>
    simp only [exec] at h
    split at h
    · cases h
    split at h <;> cases h
    exact (Table.rules_drop t d _ c).trans (if_neg hc)
  | append d r | insert d n r | replace d n r | check d r | delete d r | deleteNum d n =>
    obtain ⟨rs, _, hrs⟩ := Option.bind_eq_some_iff.mp h
    split at hrs <;> cases hrs
    first | rfl | exact Table.rules_set_ne t _ hc

/-! ## What `-S` prints -/

def Match.text (m : Match) : String := m.opt.text ++ " " ++ m.arg

def Action.words : Action → List String
  | .jump t opts => "-j" :: t :: opts
  | .goto c => ["-g", c]
  | .count => []

def Rule.text (r : Rule) : String := " ".intercalate (r.conds.map Match.text ++ r.action.words)

/-- The line `-S` opens a chain with. -/
def chainLine (c : String) : String :=
  if builtinChains.contains c then "-P " ++ c ++ " ACCEPT" else "-N " ++ c

def ruleLine (c : String) (r : Rule) : String := "-A " ++ c ++ " " ++ r.text

/-- The lines of `-S c`; a missing chain prints nothing. -/
def Table.listing (t : Table) (c : String) : List String :=
  match t.rules c with
  | none => []
  | some rs => chainLine c :: rs.map (ruleLine c)

/-- What is joined begins with its first piece. -/
theorem intercalate_prefix (sep t : String) (l : List String) :
    ∃ u, (sep.intercalate (t :: l)).toList = t.toList ++ u := by
  cases l with
  | nil => exact ⟨[], by simp⟩
  | cons t' l => exact ⟨_, by rw [String.intercalate_cons_cons, String.append_assoc, String.toList_append]⟩

@[simp] theorem text_jumpTo (c : String) : (jumpTo c).text = "-j " ++ c := by
  simp only [Rule.text, jumpTo, Action.words, List.map_nil, List.nil_append, String.intercalate_cons_cons,
    String.intercalate_singleton]
  rfl

/-- Only the plain jump to `c` is printed `-j c`. -/
theorem text_eq_jump {r : Rule} {c : String} (hc : ' ' ∉ c.toList) :
    r.text = "-j " ++ c ↔ r = jumpTo c := by
  refine ⟨fun h => ?_, fun h => h ▸ text_jumpTo c⟩
  replace h := congrArg String.toList h
  obtain ⟨conds, action⟩ := r
  cases conds with
  | cons m ms =>
    -- The first match begins with an option that is not `-j`.
    obtain ⟨opt, arg⟩ := m
    obtain ⟨u, hu⟩ := intercalate_prefix " " (Match.text ⟨opt, arg⟩) (ms.map Match.text ++ action.words)
    simp only [Rule.text, List.map_cons, List.cons_append, hu, String.toList_append] at h
    cases opt <;> simp [Match.text, MatchOpt.text] at h
  | nil =>
    cases action with
    | jump t opts =>
      cases opts with
      | nil =>
        have ht : t.toList = c.toList := by
          simpa [Rule.text, Action.words, String.intercalate_cons_cons, String.toList_append] using h
        rw [String.toList_inj.mp ht]
        rfl
      | cons o os =>
        refine absurd ?_ hc
        have hcl : t.toList ++ ' ' :: (" ".intercalate (o :: os)).toList = c.toList := by
          simpa [Rule.text, Action.words, String.intercalate_cons_cons, String.toList_append] using h
        simp [← hcl]
    | goto d => simp [Rule.text, Action.words, String.intercalate_cons_cons, String.toList_append] at h
    | count => simp [Rule.text, Action.words] at h

theorem ruleLine_eq_jump {r : Rule} {c d : String} (hc : ' ' ∉ c.toList) :
    ruleLine d r = "-A " ++ d ++ " -j " ++ c ↔ r = jumpTo c := by
  rw [← text_eq_jump hc]
  simp only [ruleLine, ← String.toList_inj, String.toList_append, List.append_assoc]
  simp

/-! ## Running commands -/

/-- The IPv4 and the IPv6 mangle table. -/
structure Tables where
  v4 : Table
  v6 : Table
  deriving DecidableEq

namespace Tables

def fam (s : Tables) (v6 : Bool) : Table := if v6 then s.v6 else s.v4
def put (s : Tables) (v6 : Bool) (t : Table) : Tables := if v6 then { s with v6 := t } else { s with v4 := t }

@[simp] theorem fam_put (s : Tables) (v6 : Bool) (t : Table) : (s.put v6 t).fam v6 = t := by
  cases v6 <;> rfl
@[simp] theorem fam_put_not (s : Tables) (v6 : Bool) (t : Table) : (s.put v6 t).fam (!v6) = s.fam (!v6) := by
  cases v6 <;> rfl
@[simp] theorem put_put (s : Tables) (v6 : Bool) (t t' : Table) : (s.put v6 t).put v6 t' = s.put v6 t' := by
  cases v6 <;> rfl
@[simp] theorem put_fam (s : Tables) (v6 : Bool) : s.put v6 (s.fam v6) = s := by
  cases v6 <;> rfl

end Tables

/-- What the daemon asks of the firewall tools: run a command of a family, or
read what `-S` prints of a chain. -/
inductive FwOp
  | run (v6 : Bool) (cmd : Cmd)
  | show (v6 : Bool) (chain : String)
  deriving DecidableEq

@[reducible] def FwSig : Sig where
  Op := FwOp
  Ans := fun
    | .run _ _ => Bool
    | .show _ _ => List String

def runCmd (v6 : Bool) (cmd : Cmd) : Prog FwSig Bool := .op (FwOp.run v6 cmd) .ret
def showChain (v6 : Bool) (chain : String) : Prog FwSig (List String) := .op (FwOp.show v6 chain) .ret

/-- iptables and ip6tables following their semantics. -/
def iptables : Handler FwSig Tables
  | .run v6 cmd, s =>
    match cmd.exec (s.fam v6) with
    | some t => (true, s.put v6 t)
    | none => (false, s)
  | .show v6 c, s => ((s.fam v6).listing c, s)

end Nfqttl
