/-
Installing and checking agree: from a table damaged in any way the daemon can
meet, `install4` and `install6` end with the rules `rules_ok` looks for, and with
nothing else of the table changed.
-/
import Nfqttl.FirewallRun

namespace Nfqttl

open Effect

namespace Firewall

variable {fw : Firewall} {v6 : Bool}

/-! ## The parts of `activate` -/

/-- After `-N c`, chain `c` is there, whatever the command answered. -/
theorem new_run (h : fw.Has v6) (c : String) (s : Tables) :
    ∃ rs, ((fw.run v6 (.new c)).eval iptables s).2 = s.put v6 ((s.fam v6).set c rs) := by
  cases hr : (s.fam v6).rules c with
  | some rs =>
    refine ⟨rs, ?_⟩
    rw [run_fail h (by simp [Cmd.exec, hr]), Table.set_rules hr, Tables.put_fam]
  | none => exact ⟨[], by rw [run_ok h (t := (s.fam v6).set c []) (by simp [Cmd.exec, hr])]⟩

theorem flush_run (h : fw.Has v6) {c : String} {s : Tables} (hr : ((s.fam v6).rules c).isSome) :
    (fw.run v6 (.flush c)).eval iptables s = (true, s.put v6 ((s.fam v6).set c [])) := by
  obtain ⟨rs, hrs⟩ := Option.isSome_iff_exists.mp hr
  exact run_ok h (by simp [Cmd.exec, hrs])

theorem append_run (h : fw.Has v6) {c : String} {r : Rule} (rs : List Rule) {s : Tables}
    (hr : (s.fam v6).rules c = some rs) (hk : (s.fam v6).knows r = true) :
    (fw.run v6 (.append c r)).eval iptables s = (true, s.put v6 ((s.fam v6).set c (rs ++ [r]))) :=
  run_ok h (by simp [Cmd.exec, hr, hk])

theorem rewire_run (h : fw.Has v6) {new : String} (active : Option String) {s : Tables}
    (hnew : ((s.fam v6).rules new).isSome) :
    ∃ rest, (fw.rewire v6 new active).eval iptables s =
      (true, s.put v6 ((s.fam v6).set (hookOf v6) (jumpTo new :: rest))) := by
  obtain ⟨rs, hnh⟩ := new_run h (hookOf v6) s
  have hknows : ∀ rs, ((s.fam v6).set (hookOf v6) rs).knows (jumpTo new) = true := fun rs =>
    Table.knows_set _ rs (Table.knows_jumpTo hnew)
  have hflush : (fw.run v6 (.flush (hookOf v6))).eval iptables (s.put v6 ((s.fam v6).set (hookOf v6) rs)) =
      (true, s.put v6 ((s.fam v6).set (hookOf v6) [])) := by
    rw [flush_run h (by simp)]
    simp
  have happend : (fw.run v6 (.append (hookOf v6) (jumpTo new))).eval iptables
      (s.put v6 ((s.fam v6).set (hookOf v6) [])) = (true, s.put v6 ((s.fam v6).set (hookOf v6) [jumpTo new])) := by
    rw [append_run h [] (by simp) (by simpa using hknows [])]
    simp
  cases active with
  | none => exact ⟨[], by simp [rewire, hnh, hflush, happend]⟩
  | some a =>
    cases rs with
    | nil =>
      have hrep := run_fail h (s := s.put v6 ((s.fam v6).set (hookOf v6) []))
        (x := .replace (hookOf v6) 1 (jumpTo new)) (by simp [Cmd.exec])
      exact ⟨[], by simp [rewire, hnh, hrep, hflush, happend]⟩
    | cons x xs =>
      have hrep := run_ok h (s := s.put v6 ((s.fam v6).set (hookOf v6) (x :: xs)))
        (x := .replace (hookOf v6) 1 (jumpTo new)) (t := (s.fam v6).set (hookOf v6) (jumpTo new :: xs))
        (by simp [Cmd.exec, hknows])
      exact ⟨xs, by simp [rewire, hnh, hrep]⟩

theorem trimHook_run (h : fw.Has v6) {j : Rule} : ∀ (rest : List Rule) (s : Tables),
    (s.fam v6).rules (hookOf v6) = some (j :: rest) →
    (fw.trimHook v6 rest.length).eval iptables s = (true, s.put v6 ((s.fam v6).set (hookOf v6) [j]))
  | [], s, hr => by simp [trimHook, Table.set_rules hr]
  | r :: rest, s, hr => by
    have hdel := run_ok h (s := s) (x := .deleteNum (hookOf v6) 2)
      (t := (s.fam v6).set (hookOf v6) (j :: rest)) (by simp [Cmd.exec, hr])
    simp only [List.length_cons, trimHook, Prog.eval_bind, hdel]
    simpa using trimHook_run h rest (s.put v6 ((s.fam v6).set (hookOf v6) (j :: rest))) (by simp)

theorem trim_run (h : fw.Has v6) {j : Rule} (rest : List Rule) {s : Tables}
    (hr : (s.fam v6).rules (hookOf v6) = some (j :: rest)) :
    (fw.trim v6).eval iptables s = (true, s.put v6 ((s.fam v6).set (hookOf v6) [j])) := by
  have hlen : (ruleLines ((s.fam v6).listing (hookOf v6))).length - 1 = rest.length := by
    simp [ruleLines_listing, hr]
  simp only [trim, Prog.eval_bind, out_run h, hlen]
  exact trimHook_run h rest s hr

theorem dropJumps_hookFirst {t : Table} (h : HookFirst v6 t) :
    jumpTo (hookOf v6) :: dropJumps (hookOf v6) t.fwd = t.fwd := by
  obtain ⟨rest, hfwd, hnot⟩ := h
  rw [hfwd, dropJumps_cons_self, dropJumps_of_notMem hnot]

theorem attach_run (h : fw.Has v6) {s : Tables} (hhook : ((s.fam v6).rules (hookOf v6)).isSome)
    (hc : (s.fam v6).fwd.count (jumpTo (hookOf v6)) ≤ 15) :
    (fw.attach v6).eval iptables s = (true, s.put v6 ((s.fam v6).set "FORWARD"
      (jumpTo (hookOf v6) :: dropJumps (hookOf v6) (s.fam v6).fwd))) := by
  obtain ⟨hsame, hiff⟩ := hookOk_run h s
  simp only [attach, Prog.eval_bind, hsame]
  by_cases hf : HookFirst v6 (s.fam v6)
  · simp [hiff.mpr hf, dropJumps_hookFirst hf, Table.set_rules (Table.rules_forward _)]
  · have hno : ((fw.hookOk v6).eval iptables s).1 = false := by
      rw [← Bool.not_eq_true, hiff]
      exact hf
    have hknows : ((s.fam v6).set "FORWARD" (dropJumps (hookOf v6) (s.fam v6).fwd)).knows
        (jumpTo (hookOf v6)) = true := Table.knows_set _ _ (Table.knows_jumpTo hhook)
    have hins := run_ok h (s := s.put v6 ((s.fam v6).set "FORWARD" (dropJumps (hookOf v6) (s.fam v6).fwd)))
      (x := .insert "FORWARD" 1 (jumpTo (hookOf v6)))
      (t := (s.fam v6).set "FORWARD" (jumpTo (hookOf v6) :: dropJumps (hookOf v6) (s.fam v6).fwd))
      (by simpa [Cmd.exec] using hknows)
    simp [hno, delJump_run h _ s hc, hins]

theorem activate_run (h : fw.Has v6) (new : String) (active : Option String) {s : Tables}
    (hnew : ((s.fam v6).rules new).isSome) (hc : (s.fam v6).fwd.count (jumpTo (hookOf v6)) ≤ 15) :
    (fw.activate v6 new active).eval iptables s =
      (true, s.put v6 (((s.fam v6).set (hookOf v6) [jumpTo new]).set "FORWARD"
        (jumpTo (hookOf v6) :: dropJumps (hookOf v6) (s.fam v6).fwd))) := by
  obtain ⟨rest, hrew⟩ := rewire_run h active hnew
  have htrim := trim_run h (j := jumpTo new) rest
    (s := s.put v6 ((s.fam v6).set (hookOf v6) (jumpTo new :: rest))) (by simp)
  have hfwd : ((s.fam v6).set (hookOf v6) [jumpTo new]).fwd = (s.fam v6).fwd :=
    Table.fwd_set_ne _ _ (hook_ne_forward v6)
  have hatt := attach_run h (s := s.put v6 ((s.fam v6).set (hookOf v6) [jumpTo new])) (by simp)
    (by simpa [hfwd] using hc)
  simp only [Tables.fam_put, Tables.put_put, Table.set_set, hfwd] at htrim hatt
  simp [activate, hrew, htrim, hatt]

/-! ## Building the payload -/

/-- A jump to an extension, which every table knows. -/
def External (act : Action) : Prop := ∃ t opts, act = .jump t opts ∧ t ∈ extensions

theorem knows_pairRule {act : Action} (h : External act) (t : Table) (i o : String) :
    t.knows (pairRule i o act) = true := by
  obtain ⟨e, opts, rfl, he⟩ := h
  simp [Table.knows, pairRule, he]

/-- The rules of a payload chain: one for each pair, in order. -/
def payload (links : Links) (act : Action) : List Rule := links.pairs.map fun p => pairRule p.1 p.2 act

theorem appendPairs_run (h : fw.Has v6) {new : String} {act : Action} (he : External act) :
    ∀ (ps : List (String × String)) (rs : List Rule) (s : Tables), (s.fam v6).rules new = some rs →
    (fw.appendPairs v6 new act ps).eval iptables s =
      (true, s.put v6 ((s.fam v6).set new (rs ++ ps.map fun p => pairRule p.1 p.2 act)))
  | [], rs, s, hr => by simp [appendPairs, Table.set_rules hr]
  | (i, o) :: ps, rs, s, hr => by
    have ih := appendPairs_run h he ps (rs ++ [pairRule i o act])
      (s.put v6 ((s.fam v6).set new (rs ++ [pairRule i o act]))) (by rw [Tables.fam_put, Table.rules_set_self])
    simp only [Tables.fam_put, Tables.put_put, Table.set_set] at ih
    simp [appendPairs, append_run h rs hr (knows_pairRule he _ i o), ih]

/-! ## The whole installation -/

/-- What an installation of `rules` in chain `new` has made of table `t`. -/
structure Installed (v6 : Bool) (a b new : String) (rules : List Rule) (t t' : Table) : Prop where
  /-- `FORWARD` is the hook jump, then its former other rules in their order. -/
  forward : t'.fwd = jumpTo (hookOf v6) :: dropJumps (hookOf v6) t.fwd
  hook : t'.rules (hookOf v6) = some [jumpTo new]
  payload : t'.rules new = some rules
  others : ∀ c, c ≠ "FORWARD" → c ≠ hookOf v6 → c ≠ a → c ≠ b → t'.rules c = t.rules c

/-- A table that differs from an installed one in nothing `Installed` names is installed too. -/
theorem Installed.of_same {a b new : String} {rules : List Rule} {t t₁ t' : Table}
    (h : Installed v6 a b new rules t t₁)
    (hsame : ∀ c, (c = "FORWARD" ∨ c = hookOf v6 ∨ c = new ∨
      (c ≠ "FORWARD" ∧ c ≠ hookOf v6 ∧ c ≠ a ∧ c ≠ b)) → t'.rules c = t₁.rules c) :
    Installed v6 a b new rules t t' where
  forward := by
    rw [Table.fwd_eq_of_rules ((hsame _ (.inl rfl)).trans t₁.rules_forward)]
    exact h.forward
  hook := (hsame _ (.inr (.inl rfl))).trans h.hook
  payload := (hsame _ (.inr (.inr (.inl rfl)))).trans h.payload
  others c hf hh ha hb := (hsame c (.inr (.inr (.inr ⟨hf, hh, ha, hb⟩)))).trans (h.others c hf hh ha hb)

/-- The flush of the chain that was active changes no other chain. -/
theorem retire_run (h : fw.Has v6) (active : Option String) (s : Tables) :
    ∃ t', ((fw.retire v6 active).eval iptables s).2 = s.put v6 t' ∧
      ∀ c, active ≠ some c → t'.rules c = (s.fam v6).rules c := by
  cases active with
  | none => exact ⟨s.fam v6, by simp [retire], fun _ _ => rfl⟩
  | some old =>
    cases hr : (s.fam v6).rules old with
    | none => exact ⟨s.fam v6, by simp [retire, run_fail h (s := s) (x := .flush old) (by simp [Cmd.exec, hr])],
        fun _ _ => rfl⟩
    | some rs => exact ⟨(s.fam v6).set old [], by simp [retire, flush_run h (Option.isSome_iff_exists.mpr ⟨rs, hr⟩)],
        fun c hc => Table.rules_set_ne _ _ fun he => hc (he ▸ rfl)⟩

/-- The chains of a family are different ones, and their names single words. -/
structure Apart (v6 : Bool) (a b : String) : Prop where
  ab : a ≠ b
  a_hook : a ≠ hookOf v6
  b_hook : b ≠ hookOf v6
  a_forward : a ≠ "FORWARD"
  b_forward : b ≠ "FORWARD"
  a_space : ' ' ∉ a.toList
  b_space : ' ' ∉ b.toList

theorem Apart.space {a b new : String} (h : Apart v6 a b) (hn : new = a ∨ new = b) : ' ' ∉ new.toList := by
  rcases hn with rfl | rfl
  exacts [h.a_space, h.b_space]

theorem apart4 : Apart false chainA chainB := by constructor <;> decide
theorem apart6 : Apart true chain6A chain6B := by constructor <;> decide

theorem install_run (h : fw.Has v6) {a b : String} (hab : Apart v6 a b) {act : Action} (he : External act)
    (links : Links) {active : Option String} (hact : active = none ∨ active = some a ∨ active = some b)
    {s : Tables} (hc : (s.fam v6).fwd.count (jumpTo (hookOf v6)) ≤ 15) :
    ∃ new t', (new = a ∨ new = b) ∧ (fw.install v6 a b act links active).eval iptables s =
      ((true, some new), s.put v6 t') ∧ Installed v6 a b new (payload links act) (s.fam v6) t' := by
  generalize hn : inactive a b active = new
  have hnew : new = a ∨ new = b := by
    by_cases ha : active = some a
    · exact .inr (hn ▸ if_pos ha)
    · exact .inl (hn ▸ if_neg ha)
  have hnh : new ≠ hookOf v6 := by rcases hnew with e | e <;> rw [e]; exacts [hab.a_hook, hab.b_hook]
  have hnf : new ≠ "FORWARD" := by rcases hnew with e | e <;> rw [e]; exacts [hab.a_forward, hab.b_forward]
  -- `-N` and `-F` leave the new chain empty, the appends fill it.
  obtain ⟨rs, hnewrun⟩ := new_run h new s
  have hflush : (fw.run v6 (.flush new)).eval iptables (s.put v6 ((s.fam v6).set new rs)) =
      (true, s.put v6 ((s.fam v6).set new [])) := by
    rw [flush_run h (by simp)]
    simp
  have hfill : (fw.appendPairs v6 new act links.pairs).eval iptables (s.put v6 ((s.fam v6).set new [])) =
      (true, s.put v6 ((s.fam v6).set new (payload links act))) := by
    rw [appendPairs_run h he links.pairs [] _ (by simp)]
    simp [payload]
  have hfwd : ((s.fam v6).set new (payload links act)).fwd = (s.fam v6).fwd := Table.fwd_set_ne _ _ hnf
  have hactiv := activate_run h new active (s := s.put v6 ((s.fam v6).set new (payload links act)))
    (by simp) (by simpa [hfwd] using hc)
  simp only [Tables.fam_put, Tables.put_put, hfwd] at hactiv
  let t₁ := (((s.fam v6).set new (payload links act)).set (hookOf v6) [jumpTo new]).set "FORWARD"
    (jumpTo (hookOf v6) :: dropJumps (hookOf v6) (s.fam v6).fwd)
  have hi₁ : Installed v6 a b new (payload links act) (s.fam v6) t₁ := by
    refine ⟨by simp [t₁], ?_, ?_, fun c hcf hch hca hcb => ?_⟩
    · simp [t₁, Table.rules_set, hook_ne_forward v6]
    · simp [t₁, Table.rules_set, hnf, hnh]
    · have hcn : c ≠ new := by rcases hnew with e | e <;> rw [e] <;> assumption
      simp [t₁, Table.rules_set, hcf, hch, hcn]
  obtain ⟨t', hret, hsame⟩ := retire_run h active (s.put v6 t₁)
  simp only [Tables.put_put, Tables.fam_put] at hret hsame
  refine ⟨new, t', hnew, ?_, hi₁.of_same fun c hc => hsame c ?_⟩
  · simp [install, hn, hnewrun, hflush, hfill, hactiv, hret, t₁]
  · -- The chain that was active is the other payload chain.
    rintro rfl
    rcases hact with hact | hact | hact <;> cases hact
    · have hb : new = b := hn ▸ if_pos rfl
      rcases hc with rfl | rfl | rfl | ⟨-, -, h, -⟩
      exacts [hab.a_forward rfl, hab.a_hook rfl, hab.ab hb, h rfl]
    · have ha : new = a := hn ▸ if_neg (by simpa using hab.ab.symm)
      rcases hc with rfl | rfl | rfl | ⟨-, -, -, h⟩
      exacts [hab.b_forward rfl, hab.b_hook rfl, hab.ab ha.symm, h rfl]

/-! ## Checking what was installed -/

/-- How a payload rule is printed. -/
theorem ruleLine_pair (c i o t : String) (opts : List String) :
    ruleLine c (pairRule i o (.jump t opts)) =
      "-A " ++ c ++ " -i " ++ i ++ " -o " ++ o ++ " -j " ++ " ".intercalate (t :: opts) := by
  simp [ruleLine, Rule.text, pairRule, Match.text, MatchOpt.text, Action.words, String.intercalate_cons_cons,
    ← String.toList_inj, String.toList_append]

/-- The action is an extension's, printed as `rules_ok` expects it. -/
def PrintsAs (act : Action) (tail : String) : Prop :=
  ∃ t opts, act = .jump t opts ∧ t ∈ extensions ∧ " ".intercalate (t :: opts) = tail

theorem PrintsAs.external {act : Action} {tail : String} (h : PrintsAs act tail) : External act := by
  obtain ⟨t, opts, hact, ht, -⟩ := h
  exact ⟨t, opts, hact, ht⟩

theorem target4_prints (kernel : Bool) (workers ttl : Nat) (mode : V6Mode) :
    PrintsAs (target4 kernel workers ttl) (tail false kernel workers ttl mode) := by
  unfold target4 tail
  simp only [Bool.false_eq_true, if_false]
  split
  · exact ⟨_, _, rfl, by decide, by simp [String.intercalate_cons_cons, ← String.toList_inj, String.toList_append]⟩
  split
  · exact ⟨_, _, rfl, by decide, by simp [String.intercalate_cons_cons, ← String.toList_inj, String.toList_append]⟩
  · exact ⟨_, _, rfl, by decide, by simp [String.intercalate_cons_cons, ← String.toList_inj, String.toList_append]⟩

theorem target6_prints (kernel : Bool) (workers hl : Nat) (mode : V6Mode) :
    PrintsAs (target6 mode hl) (tail true kernel workers hl mode) := by
  unfold target6 tail
  simp only [if_true]
  split
  · exact ⟨_, _, rfl, by decide, by simp [String.intercalate_cons_cons, ← String.toList_inj, String.toList_append]⟩
  · exact ⟨_, _, rfl, by decide, by simp⟩

/-- The printed payload chain is what `rules_ok` expects. -/
theorem payload_lines {act : Action} {tail : String} (h : PrintsAs act tail) (c : String) (links : Links) :
    (payload links act).map (ruleLine c) = expected c links tail := by
  obtain ⟨t, opts, rfl, -, rfl⟩ := h
  simp only [payload, expected, List.map_map]
  exact List.map_congr_left fun p _ => ruleLine_pair c p.1 p.2 t opts

theorem rulesOk_installed (h : fw.Has v6) {a b new : String} (hnew : ' ' ∉ new.toList) {act : Action}
    {links : Links} {kernel : Bool} {workers value : Nat} {mode : V6Mode} {t : Table} {s : Tables}
    (hp : PrintsAs act (tail v6 kernel workers value mode))
    (hi : Installed v6 a b new (payload links act) t (s.fam v6)) :
    ((fw.rulesOk v6 (some new) links kernel workers value mode).eval iptables s).1 = true := by
  refine (rulesOk_run h new links kernel workers value mode s).2.mpr ⟨?_, ?_, ?_⟩
  · exact ⟨_, hi.forward, by simp [dropJumps]⟩
  · exact (hook_listing hnew _).mpr hi.hook
  · rw [ruleLines_listing, hi.payload]
    exact payload_lines hp new links

/-- **Install and check agree, for both families.** From any tables whose
`FORWARD` holds at most 15 jumps to the hook chain, whatever the hook and payload
chains hold, `install4` returns true, and so does `install6` outside the `pass`
modes: `rules_ok` with the new active chain and the same arguments then returns
true, the payload chain holds one rule for each pair in order, the hook chain the
jump to it, `FORWARD` the hook jump and its former other rules, and no other chain
of either table is changed. -/
theorem install_rulesOk (fw : Firewall) (s : Tables) (links : Links) (workers value : Nat)
    (active : Option String) (kernel : Bool) (mode : V6Mode) :
    ((active = none ∨ active = some chainA ∨ active = some chainB) →
      s.v4.fwd.count (jumpTo chainHook) ≤ 15 →
      ∃ new t', (fw.install4 links kernel workers value active).eval iptables s =
          ((true, some new), { s with v4 := t' }) ∧
        ((fw.rulesOk false (some new) links kernel workers value mode).eval iptables { s with v4 := t' }).1 = true ∧
        (new = chainA ∨ new = chainB) ∧
        Installed false chainA chainB new (payload links (target4 kernel workers value)) s.v4 t') ∧
    ((active = none ∨ active = some chain6A ∨ active = some chain6B) → fw.ip6t.isSome → mode.isPass = false →
      s.v6.fwd.count (jumpTo chain6Hook) ≤ 15 →
      ∃ new t', (fw.install6 links mode value active).eval iptables s = ((true, some new), { s with v6 := t' }) ∧
        ((fw.rulesOk true (some new) links kernel workers value mode).eval iptables { s with v6 := t' }).1 = true ∧
        (new = chain6A ∨ new = chain6B) ∧
        Installed true chain6A chain6B new (payload links (target6 mode value)) s.v6 t') := by
  constructor
  · intro hact hc
    have h4 : fw.Has false := fun h => absurd h Bool.false_ne_true
    have hp := target4_prints kernel workers value mode
    obtain ⟨new, t', hnew, hrun, hi⟩ := install_run h4 apart4 hp.external links hact (s := s) hc
    exact ⟨new, t', hrun, rulesOk_installed h4 (apart4.space hnew) (s := { s with v4 := t' }) hp hi, hnew, hi⟩
  · intro hact h6 hmode hc
    have hp := target6_prints kernel workers value mode
    obtain ⟨new, t', hnew, hrun, hi⟩ := install_run (fun _ => h6) apart6 hp.external links hact (s := s) hc
    obtain ⟨path, hpath⟩ := Option.isSome_iff_exists.mp h6
    have heq : fw.install6 links mode value active =
      fw.install true chain6A chain6B (target6 mode value) links active := by
      simp [install6, hmode, hpath]
    have hok := rulesOk_installed (fun _ => h6) (apart6.space hnew) (s := { s with v6 := t' }) hp hi
    exact ⟨new, t', heq ▸ hrun, hok, hnew, hi⟩

/-- Both families damaged: a duplicate hook jump behind a foreign rule, a hook
chain with two rules, and no payload chain. -/
def damaged : Tables :=
  let fwd := fun hook => [⟨[⟨.i, "wlan0"⟩], .count⟩, jumpTo hook, jumpTo hook]
  { v4 := (Table.bare.set "FORWARD" (fwd chainHook)).set chainHook [jumpTo "nfqttl_v40b", jumpTo "oem_mangle"]
    v6 := (Table.bare.set "FORWARD" (fwd chain6Hook)).set chain6Hook [] }

theorem install_rulesOk_damaged :
    ((install4 ⟨some "ip6tables"⟩ ⟨["wlan2"], ["rmnet_data2"]⟩ false 2 64 (some chainA)).eval
      iptables damaged).1.1 = true ∧
    ((install6 ⟨some "ip6tables"⟩ ⟨["wlan2"], ["rmnet_data2"]⟩ .block 64 none).eval iptables damaged).1.1 = true := by
  obtain ⟨h4, -⟩ := install_rulesOk ⟨some "ip6tables"⟩ damaged ⟨["wlan2"], ["rmnet_data2"]⟩ 2 64 (some chainA)
    false .block
  obtain ⟨-, h6⟩ := install_rulesOk ⟨some "ip6tables"⟩ damaged ⟨["wlan2"], ["rmnet_data2"]⟩ 2 64 none false .block
  obtain ⟨_, _, hrun4, -⟩ := h4 (.inr (.inl rfl)) (by decide)
  obtain ⟨_, _, hrun6, -⟩ := h6 (.inl rfl) rfl rfl (by decide)
  exact ⟨by rw [hrun4], by rw [hrun6]⟩

end Firewall

end Nfqttl
