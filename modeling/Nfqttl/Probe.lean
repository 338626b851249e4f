/-
`firewall.rs`: the probes, by which the daemon finds out which targets the kernel takes:
a rule with the target goes into a chain of its own, which is removed again.

A kernel takes a target with its options or not (`Kernel`). A probe tells which, and it
leaves the tables as they were, also when it was killed once and has to be repeated.
-/
import Nfqttl.Uninstall

namespace Nfqttl

open Effect

/-! ## Kernels -/

/-- The actions a kernel takes in a rule of a family. A plain jump needs no extension. -/
structure Kernel where
  takes : Bool → Action → Bool
  plain : ∀ v6 c, takes v6 (.jump c []) = true

/-- The rule a command brings into the table. -/
def Cmd.adds : Cmd → Option Rule
  | .append _ r | .insert _ _ r | .replace _ _ r => some r
  | _ => none

/-- The kernel refuses no rule of the command. -/
def Kernel.allows (k : Kernel) (v6 : Bool) (x : Cmd) : Bool :=
  match x.adds with
  | some r => k.takes v6 r.action
  | none => true

/-- iptables and ip6tables on a kernel. -/
def iptablesOn (k : Kernel) : Handler FwSig Tables
  | .run v6 x, s => if k.allows v6 x then iptables (.run v6 x) s else (false, s)
  | .show v6 c, s => iptables (.show v6 c) s

/-- Commands that may fail, or time out when they are done: nothing is sure about the answer. -/
def anyhow : Sem FwSig Tables := fun op s a s' =>
  match op, a with
  | .run v6 x, _ => s' = s ∨ ∃ t, x.exec (s.fam v6) = some t ∧ s' = s.put v6 t
  | .show .., _ => s' = s

namespace Firewall

def probe (fw : Firewall) (v6 : Bool) (p : String) (act : Action) : Prog FwSig Bool := do
  let _ ← fw.run v6 (.new p)
  let _ ← fw.run v6 (.flush p)
  let ok ← fw.run v6 (.append p ⟨[], act⟩)
  let _ ← fw.run v6 (.flush p)
  let _ ← fw.run v6 (.deleteChain p)
  return ok

def probeTtl (fw : Firewall) (ttl : Nat) : Prog FwSig Bool :=
  fw.probe false "nfqttl_tprobe" (.jump "TTL" ["--ttl-set", toString ttl])

def probeHl (fw : Firewall) (hl : Nat) : Prog FwSig Bool :=
  if fw.ip6t.isNone then pure false
  else fw.probe true "nfqttl6_probe" (.jump "HL" ["--hl-set", toString hl])

def probeBalance (fw : Firewall) (workers : Nat) : Prog FwSig Bool :=
  if workers ≤ 1 then pure false
  else fw.probe false "nfqttl_qprobe" (.jump "NFQUEUE"
    ["--queue-balance", toString queueBase ++ ":" ++ toString (queueBase + workers - 1), "--queue-bypass"])

end Firewall

/-! ## The chain of a probe -/

namespace Table

/-- The table without chain `p`; a chain that some rule leads to stays, without rules. -/
def scrub (t : Table) (p : String) : Table :=
  if h : p = "FORWARD" then t
  else if (t.set p []).referenced p then t.set p [] else t.drop p h

/-- Which rules `p` has makes no difference. -/
theorem scrub_congr {t t' : Table} {p : String} (hp : p ≠ "FORWARD") (h : ∀ c, c ≠ p → t'.rules c = t.rules c) :
    t'.scrub p = t.scrub p := by
  have hset : t'.set p [] = t.set p [] := by
    refine ext_rules ?_
    intro c
    rw [rules_set, rules_set]
    split
    · rfl
    · next hc => exact h c hc
  have hdrop : t'.drop p hp = t.drop p hp := by
    refine ext_rules ?_
    intro c
    rw [rules_drop, rules_drop]
    split
    · rfl
    · next hc => exact h c hc
  simp only [scrub, hp, hset, hdrop, dif_neg, not_false_eq_true]

/-- Where there was no such chain, there is none. -/
theorem scrub_of_none {t : Table} {p : String} (hp : p ≠ "FORWARD") (hno : t.rules p = none)
    (href : t.referenced p = false) : t.scrub p = t := by
  have href' : (t.set p []).referenced p = false := by
    refine not_referenced href ?_
    intro d rs hrs
    rw [rules_set] at hrs
    split at hrs
    · exact .inl (Option.some.inj hrs).symm
    · exact .inr hrs
  have hdrop : t.drop p hp = t := by
    refine ext_rules ?_
    intro c
    rw [rules_drop]
    split
    · next hc => rw [hc, hno]
    · rfl
  simp [scrub, hp, href', hdrop]

theorem rules_scrub (t : Table) (p : String) {c : String} (hc : c ≠ p) : (t.scrub p).rules c = t.rules c := by
  unfold scrub
  split
  · rfl
  split
  · exact rules_set_ne t [] hc
  · rw [rules_drop, if_neg hc]

end Table

namespace Firewall

variable {fw : Firewall} {v6 : Bool} {k : Kernel} {p : String} {act : Action}

/-! ## A probe on a kernel -/

theorem runOn_eq (h : fw.Has v6) (x : Cmd) (s : Tables) (hx : k.allows v6 x = true) :
    (fw.run v6 x).eval (iptablesOn k) s = (fw.run v6 x).eval iptables s := by
  rw [run_eq h]
  simp [runCmd, iptablesOn, hx]

theorem runOn_refused (h : fw.Has v6) (x : Cmd) (s : Tables) (hx : k.allows v6 x = false) :
    (fw.run v6 x).eval (iptablesOn k) s = (false, s) := by
  rw [run_eq h]
  simp [runCmd, iptablesOn, hx]

/-- The end of a probe, whatever its chain holds. -/
theorem remove_run (h : fw.Has v6) (hp : p ∉ builtinChains) (rs : List Rule) {s : Tables}
    (hr : (s.fam v6).rules p = some rs) :
    ((do
      let _ ← fw.run v6 (.flush p)
      fw.run v6 (.deleteChain p)).eval (iptablesOn k) s).2 = s.put v6 ((s.fam v6).scrub p) := by
  have hforward : p ≠ "FORWARD" := by
    rintro rfl
    exact hp (by decide)
  have hflush : (fw.run v6 (.flush p)).eval (iptablesOn k) s = (true, s.put v6 ((s.fam v6).set p [])) := by
    rw [runOn_eq h _ _ rfl]
    exact flush_run h (Option.isSome_iff_exists.mpr ⟨rs, hr⟩)
  have hdrop : ((s.fam v6).set p []).drop p hforward = (s.fam v6).drop p hforward := by
    refine Table.ext_rules ?_
    intro c
    simp only [Table.rules_drop, Table.rules_set]
    split <;> rfl
  simp only [Prog.eval_bind, hflush]
  rw [runOn_eq h _ _ rfl]
  cases href : ((s.fam v6).set p []).referenced p with
  | true =>
    rw [run_fail h (by simp [Cmd.exec, href])]
    simp [Table.scrub, hforward, href]
  | false =>
    rw [run_ok h (t := (s.fam v6).drop p hforward) (by simp [Cmd.exec, hforward, hp, href, hdrop])]
    simp [Table.scrub, hforward, href]

/-- The answer is the kernel's, and the chain is gone. -/
theorem probe_run (h : fw.Has v6) (hp : p ∉ builtinChains) (hact : External act) (s : Tables) :
    (fw.probe v6 p act).eval (iptablesOn k) s = (k.takes v6 act, s.put v6 ((s.fam v6).scrub p)) := by
  have hforward : p ≠ "FORWARD" := by
    rintro rfl
    exact hp (by decide)
  obtain ⟨rs, hnew⟩ := new_run h p s
  have hnew' : ((fw.run v6 (.new p)).eval (iptablesOn k) s).2 = s.put v6 ((s.fam v6).set p rs) := by
    rw [runOn_eq h _ _ rfl]
    exact hnew
  have hflush : (fw.run v6 (.flush p)).eval (iptablesOn k) (s.put v6 ((s.fam v6).set p rs)) =
      (true, s.put v6 ((s.fam v6).set p [])) := by
    rw [runOn_eq h _ _ rfl, flush_run h (by simp)]
    simp
  have hknows : ((s.fam v6).set p []).knows ⟨[], act⟩ = true := by
    obtain ⟨t, opts, rfl, ht⟩ := hact
    simp [Table.knows, ht]
  have hscrub : ∀ rs, ((s.fam v6).set p rs).scrub p = (s.fam v6).scrub p :=
    fun rs => Table.scrub_congr hforward fun c hc => Table.rules_set_ne _ rs hc
  have hend : ∀ rs, ((do
      let _ ← fw.run v6 (.flush p)
      fw.run v6 (.deleteChain p)).eval (iptablesOn k) (s.put v6 ((s.fam v6).set p rs))).2 =
      s.put v6 ((s.fam v6).scrub p) := by
    intro rs
    rw [remove_run h hp rs (by simp)]
    simp [hscrub]
  have hallows : k.allows v6 (.append p ⟨[], act⟩) = k.takes v6 act := rfl
  have happend : ∃ rs, (fw.run v6 (.append p ⟨[], act⟩)).eval (iptablesOn k) (s.put v6 ((s.fam v6).set p [])) =
      (k.takes v6 act, s.put v6 ((s.fam v6).set p rs)) := by
    cases htakes : k.takes v6 act with
    | true =>
      refine ⟨[⟨[], act⟩], ?_⟩
      rw [runOn_eq h _ _ (hallows.trans htakes), append_run h [] (by simp) (by simpa using hknows)]
      simp
    | false => exact ⟨[], runOn_refused h _ _ (hallows.trans htakes)⟩
  obtain ⟨rs', happend⟩ := happend
  have hrest := hend rs'
  simp only [Prog.eval_bind] at hrest
  simp only [probe, Prog.eval_bind, hnew', hflush, happend, hrest]
  rfl

/-! ## A probe that is cut -/

/-- Nothing but the chain `p` of the family differs. -/
def OnlyChain (v6 : Bool) (p : String) (s s' : Tables) : Prop :=
  s'.fam (!v6) = s.fam (!v6) ∧ ∀ c, c ≠ p → (s'.fam v6).rules c = (s.fam v6).rules c

theorem OnlyChain.anyhow {s s₁ s₂ : Tables} {op : FwOp} {a : FwSig.Ans op} (h : OnlyChain v6 p s s₁)
    (hop : ∃ x, op = .run v6 x ∧ x.chain = p) (hr : anyhow op s₁ a s₂) : OnlyChain v6 p s s₂ := by
  obtain ⟨x, rfl, hx⟩ := hop
  obtain rfl | ⟨t, ht, rfl⟩ := hr
  · exact h
  · refine ⟨?_, ?_⟩
    · rw [Tables.fam_put_not]
      exact h.1
    · intro c hc
      rw [Tables.fam_put, Cmd.exec_frame ht (by rw [hx]; exact hc)]
      exact h.2 c hc

theorem probe_within (h : fw.Has v6) :
    Within (fun op => ∃ x, op = FwOp.run v6 x ∧ x.chain = p) (fun _ => True) (fw.probe v6 p act) := by
  unfold probe
  simp only [run_eq h]
  refine ⟨⟨.new p, rfl, rfl⟩, fun _ => ⟨⟨.flush p, rfl, rfl⟩, fun _ => ⟨⟨.append p _, rfl, rfl⟩, fun _ => ?_⟩⟩⟩
  exact ⟨⟨.flush p, rfl, rfl⟩, fun _ => ⟨⟨.deleteChain p, rfl, rfl⟩, fun _ => trivial⟩⟩

/-- However the commands of a probe go, and wherever it is cut, the next one answers and leaves the
tables as if there had been none. -/
theorem probe_again (h : fw.Has v6) (hp : p ∉ builtinChains) (hact : External act) {s s' : Tables}
    (hcut : Visits anyhow (fw.probe v6 p act) s s') :
    OnlyChain v6 p s s' ∧
      (fw.probe v6 p act).eval (iptablesOn k) s' = (k.takes v6 act, s.put v6 ((s.fam v6).scrub p)) := by
  have hforward : p ≠ "FORWARD" := by
    rintro rfl
    exact hp (by decide)
  have honly : OnlyChain v6 p s s' := by
    refine Keeps.visits ((probe_within h).keeps (I := OnlyChain v6 p s) ?_ ⟨rfl, fun _ _ => rfl⟩) hcut
    intro op s₁ a s₂ hop hs hr
    exact hs.anyhow hop hr
  refine ⟨honly, ?_⟩
  have hput : s'.put v6 ((s'.fam v6).scrub p) = s.put v6 ((s.fam v6).scrub p) := by
    rw [Table.scrub_congr hforward honly.2]
    cases v6
    · exact congrArg (Tables.mk _) honly.1
    · exact congrArg (fun t => Tables.mk t _) honly.1
  rw [probe_run h hp hact, hput]

end Firewall

/-! ## The three probes -/

inductive Probe
  | ttl (ttl : Nat)
  | hl (hl : Nat)
  | balance (workers : Nat)
  deriving DecidableEq, Repr

namespace Probe

variable {fw : Firewall} {k : Kernel}

def run (fw : Firewall) : Probe → Prog FwSig Bool
  | .ttl n => fw.probeTtl n
  | .hl n => fw.probeHl n
  | .balance n => fw.probeBalance n

def v6 : Probe → Bool
  | .hl _ => true
  | _ => false

def chain : Probe → String
  | .ttl _ => "nfqttl_tprobe"
  | .hl _ => "nfqttl6_probe"
  | .balance _ => "nfqttl_qprobe"

/-- The target a probe is about, as an installation appends it. -/
def act : Probe → Action
  | .ttl n => .jump "TTL" ["--ttl-set", toString n]
  | .hl n => .jump "HL" ["--hl-set", toString n]
  | .balance n => .jump "NFQUEUE"
      ["--queue-balance", toString queueBase ++ ":" ++ toString (queueBase + n - 1), "--queue-bypass"]

/-- Whether a probe touches the tables at all. -/
def tries (fw : Firewall) : Probe → Bool
  | .ttl _ => true
  | .hl _ => fw.ip6t.isSome
  | .balance n => decide (1 < n)

def answer (fw : Firewall) (k : Kernel) (q : Probe) : Bool := q.tries fw && k.takes q.v6 q.act

/-- The tables after a probe. -/
def leaves (fw : Firewall) (q : Probe) (s : Tables) : Tables :=
  if q.tries fw then s.put q.v6 ((s.fam q.v6).scrub q.chain) else s

theorem run_eq (q : Probe) : q.run fw = if q.tries fw then fw.probe q.v6 q.chain q.act else pure false := by
  cases q with
  | ttl n => rfl
  | hl n =>
    cases hip : fw.ip6t with
    | none => simp [run, Firewall.probeHl, tries, hip]
    | some path => simp [run, Firewall.probeHl, tries, hip, v6, chain, act]
  | balance n =>
    simp only [run, Firewall.probeBalance, tries, decide_eq_true_eq]
    by_cases hn : n ≤ 1
    · rw [if_pos hn, if_neg (by omega)]
    · rw [if_neg hn, if_pos (by omega)]
      rfl

theorem has_of_tries {q : Probe} (h : q.tries fw = true) : fw.Has q.v6 := by
  intro hv6
  cases q with
  | ttl n => cases hv6
  | hl n => exact h
  | balance n => cases hv6

theorem chain_made (q : Probe) : q.chain ∉ builtinChains := by cases q <;> simp [chain, builtinChains]

theorem act_external (q : Probe) : Firewall.External q.act := by
  cases q <;> exact ⟨_, _, rfl, by decide⟩

theorem run_on (k : Kernel) (q : Probe) (s : Tables) :
    (q.run fw).eval (iptablesOn k) s = (q.answer fw k, q.leaves fw s) := by
  cases htries : q.tries fw with
  | false => simp [run_eq, answer, leaves, htries]
  | true =>
    rw [run_eq, if_pos htries, Firewall.probe_run (has_of_tries htries) q.chain_made q.act_external]
    simp [answer, leaves, htries]

/-- A probe tells what the kernel takes, and leaves the tables without its chain: also when one before
it had commands that failed or was killed in between, which has touched no other chain. -/
theorem tells (k : Kernel) (q : Probe) {s s' : Tables} (hcut : Visits anyhow (q.run fw) s s') :
    Firewall.OnlyChain q.v6 q.chain s s' ∧ (q.run fw).eval (iptablesOn k) s' = (q.answer fw k, q.leaves fw s) ∧
      ((s.fam q.v6).rules q.chain = none → (s.fam q.v6).referenced q.chain = false → q.leaves fw s = s) := by
  have hforward : q.chain ≠ "FORWARD" := by
    intro h
    have hmade := q.chain_made
    rw [h] at hmade
    exact hmade (by decide)
  cases htries : q.tries fw with
  | false =>
    rw [run_eq, if_neg (by simp [htries])] at hcut ⊢
    cases hcut
    exact ⟨⟨rfl, fun _ _ => rfl⟩, by simp [answer, leaves, htries], fun _ _ => by simp [leaves, htries]⟩
  | true =>
    rw [run_eq, if_pos htries] at hcut ⊢
    obtain ⟨honly, heval⟩ := Firewall.probe_again (k := k) (has_of_tries htries) q.chain_made q.act_external hcut
    refine ⟨honly, ?_, ?_⟩
    · rw [heval]
      simp [answer, leaves, htries]
    · intro hno href
      simp [leaves, htries, Table.scrub_of_none hforward hno href]

/-- A kernel with the extensions of IPv4 only. -/
def only4 : Kernel where
  takes := fun v6 act =>
    match act with
    | .jump _ opts => !v6 || opts.isEmpty
    | _ => true
  plain := fun v6 _ => by cases v6 <;> rfl

/-- Killed behind its `-A`, and repeated. -/
theorem tells_killed : ∃ s', Visits anyhow (run ⟨none⟩ (.ttl 64)) ⟨Table.bare, Table.bare⟩ s' ∧
    s'.v4.rules "nfqttl_tprobe" = some [⟨[], .jump "TTL" ["--ttl-set", "64"]⟩] ∧
    (run ⟨none⟩ (.ttl 64)).eval (iptablesOn only4) s' = (true, ⟨Table.bare, Table.bare⟩) := by
  have hcut : Visits anyhow (run ⟨none⟩ (.ttl 64)) ⟨Table.bare, Table.bare⟩
      ⟨Table.bare.set "nfqttl_tprobe" [⟨[], .jump "TTL" ["--ttl-set", "64"]⟩], Table.bare⟩ := by
    refine .op (a := true) (.inr ⟨Table.bare.set "nfqttl_tprobe" [], by decide, rfl⟩) (.op (a := true) (.inl rfl) ?_)
    exact .op (a := true) (.inr ⟨_, by decide, rfl⟩) .cut
  refine ⟨_, hcut, by simp, ?_⟩
  obtain ⟨_, heval, hsame⟩ := tells only4 (.ttl 64) hcut
  rw [heval, hsame (by decide) (by decide)]
  rfl

end Probe

end Nfqttl
