/-
Installing and cleaning up leave no trace: from tables the module has nothing in, any
installations of either family, and then `cleanup`, give the same tables back.

What installations add is a jump before the rules of `FORWARD` and chains of the module
(`Added`). The cleanup takes the jump away first; its flushes then leave no rule that
leads to a chain of the module, so every `-X` of one that is there succeeds.
-/
import Nfqttl.Install

namespace Nfqttl

open Effect

namespace Table

theorem referenced_iff {t : Table} {c : String} :
    t.referenced c = true ↔ ∃ d rs, t.rules d = some rs ∧ ∃ r ∈ rs, r.target? = some c := by
  simp only [referenced, List.any_eq_true, beq_iff_eq, Prod.exists, OrdMap.mem_entries]
  rfl

/-- No chain of `t` leads to `c` when each has the rules of one that does not, or none. -/
theorem not_referenced {t t' : Table} {c : String} (h : t.referenced c = false)
    (hrules : ∀ d rs, t'.rules d = some rs → rs = [] ∨ t.rules d = some rs) : t'.referenced c = false := by
  rw [← Bool.not_eq_true, referenced_iff] at h ⊢
  intro ⟨d, rs, hrs, r, hr, htarget⟩
  rcases hrules d rs hrs with rfl | hold
  · cases hr
  · exact h ⟨d, rs, hold, r, hr, htarget⟩

end Table

namespace Firewall

variable {fw : Firewall} {v6 : Bool} {t₀ : Table}

/-- The chains of a family that are the module's, those of its earlier versions with them. -/
def ownChains (v6 : Bool) : List String := if v6 then chains6 else chains4

/-- Those of them a rule of `FORWARD` may lead to. -/
def ownHooks (v6 : Bool) : List String := if v6 then hooks6 else hooks4

theorem ownHooks_eq (v6 : Bool) : ∃ rest, ownHooks v6 = hookOf v6 :: rest ∧ ∀ c ∈ rest, c ∈ ownChains v6 := by
  cases v6 <;> exact ⟨_, rfl, by decide⟩

theorem hook_mem_ownChains (v6 : Bool) : hookOf v6 ∈ ownChains v6 := by cases v6 <;> decide

theorem ownChains_made (v6 : Bool) : ∀ c ∈ ownChains v6, c ≠ "FORWARD" ∧ builtinChains.contains c = false := by
  cases v6 <;> decide

/-- The module has no chain in the table, and no rule leads to one. -/
structure Untouched (v6 : Bool) (t : Table) : Prop where
  chains : ∀ c ∈ ownChains v6, t.rules c = none
  jumps : ∀ c ∈ ownChains v6, t.referenced c = false

theorem Untouched.notMem_fwd (h : Untouched v6 t₀) {c : String} (hc : c ∈ ownChains v6) : jumpTo c ∉ t₀.fwd := by
  intro hmem
  have href := Table.referenced_iff.mpr ⟨"FORWARD", _, t₀.rules_forward, _, hmem, (rfl : (jumpTo c).target? = some c)⟩
  rw [h.jumps c hc] at href
  cases href

/-- A table with what installations add to `t₀`. -/
structure Added (v6 : Bool) (t₀ t : Table) : Prop where
  forward : t.fwd = t₀.fwd ∨ t.fwd = jumpTo (hookOf v6) :: t₀.fwd
  others : ∀ c, c ≠ "FORWARD" → c ∉ ownChains v6 → t.rules c = t₀.rules c

theorem Added.refl (v6 : Bool) (t : Table) : Added v6 t t := ⟨.inl rfl, fun _ _ _ => rfl⟩

theorem Added.dropJumps {t : Table} (h : Added v6 t₀ t) (hu : Untouched v6 t₀) :
    dropJumps (hookOf v6) t.fwd = t₀.fwd := by
  have hnot := dropJumps_of_notMem (hu.notMem_fwd (hook_mem_ownChains v6))
  rcases h.forward with heq | heq
  · rw [heq, hnot]
  · rw [heq, dropJumps_cons_self, hnot]

theorem Added.count {t : Table} (h : Added v6 t₀ t) (hu : Untouched v6 t₀) :
    t.fwd.count (jumpTo (hookOf v6)) ≤ 15 := by
  have hzero := List.count_eq_zero.mpr (hu.notMem_fwd (hook_mem_ownChains v6))
  rcases h.forward with heq | heq
  · rw [heq, hzero]
    omega
  · rw [heq, List.count_cons_self, hzero]
    omega

/-! ## Installing -/

/-- The payload chains a call may find active. -/
def MayBeActive (a b : String) (active : Option String) : Prop := active = none ∨ active = some a ∨ active = some b

theorem install_added (h : fw.Has v6) {a b : String} (hab : Apart v6 a b) (ha : a ∈ ownChains v6)
    (hb : b ∈ ownChains v6) {act : Action} (he : External act) (links : Links) {active : Option String}
    (hact : MayBeActive a b active) (hu : Untouched v6 t₀) {s : Tables} (hadd : Added v6 t₀ (s.fam v6)) :
    ∃ active' t', (fw.install v6 a b act links active).eval iptables s = ((true, active'), s.put v6 t') ∧
      MayBeActive a b active' ∧ Added v6 t₀ t' := by
  obtain ⟨new, t', hnew, hrun, hi⟩ := install_run h hab he links hact (hadd.count hu)
  refine ⟨some new, t', hrun, .inr (hnew.imp (congrArg some) (congrArg some)), ?_, ?_⟩
  · right
    rw [hi.forward, hadd.dropJumps hu]
  · intro c hf hc
    have hne : ∀ d ∈ ownChains v6, c ≠ d := fun d hd heq => hc (heq ▸ hd)
    rw [hi.others c hf (hne _ (hook_mem_ownChains v6)) (hne a ha) (hne b hb), hadd.others c hf hc]

/-! ## Cleaning up -/

/-- Of the chains flushed those that are there are empty, the others are as they were. -/
theorem eachFlush_run (h : fw.Has v6) : ∀ (cs : List String) (s : Tables), ∃ t',
    ((fw.each v6 .flush cs).eval iptables s).2 = s.put v6 t' ∧
      (∀ c ∈ cs, ∀ rs, t'.rules c = some rs → rs = []) ∧ ∀ c, c ∉ cs → t'.rules c = (s.fam v6).rules c
  | [], s => ⟨s.fam v6, by simp [each], by simp, fun _ _ => rfl⟩
  | c :: cs, s => by
    -- The first flush, whatever it answers.
    obtain ⟨t₁, hfirst, hempty, hsame⟩ : ∃ t₁, ((fw.run v6 (.flush c)).eval iptables s).2 = s.put v6 t₁ ∧
        (∀ rs, t₁.rules c = some rs → rs = []) ∧ ∀ d, d ≠ c → t₁.rules d = (s.fam v6).rules d := by
      cases hr : (s.fam v6).rules c with
      | none =>
        refine ⟨s.fam v6, by rw [run_fail h (by simp [Cmd.exec, hr]), Tables.put_fam], ?_, fun _ _ => rfl⟩
        intro rs hrs
        rw [hr] at hrs
        cases hrs
      | some rs =>
        refine ⟨(s.fam v6).set c [], by rw [flush_run h (by simp [hr])], ?_, fun d hd => Table.rules_set_ne _ _ hd⟩
        intro rs' hrs'
        rw [Table.rules_set_self] at hrs'
        cases hrs'
        rfl
    obtain ⟨t', hrest, hempty', hsame'⟩ := eachFlush_run h cs (s.put v6 t₁)
    rw [Tables.put_put, Tables.fam_put] at *
    refine ⟨t', by simp [each, hfirst, hrest], ?_, ?_⟩
    · intro d hd rs hrs
      by_cases hcs : d ∈ cs
      · exact hempty' d hcs rs hrs
      · obtain rfl : d = c := (List.mem_cons.mp hd).resolve_right hcs
        exact hempty rs (hsame' d hcs ▸ hrs)
    · intro d hd
      rw [List.mem_cons, not_or] at hd
      rw [hsame' d hd.2, hsame d hd.1]

/-- Of chains that are empty or missing, and that nothing leads to, none is left. -/
theorem eachDelete_run (h : fw.Has v6) : ∀ (cs : List String) (s : Tables),
    (∀ c ∈ cs, c ≠ "FORWARD" ∧ builtinChains.contains c = false) →
    (∀ c ∈ cs, (s.fam v6).referenced c = false ∧ ∀ rs, (s.fam v6).rules c = some rs → rs = []) → ∃ t',
    ((fw.each v6 .deleteChain cs).eval iptables s).2 = s.put v6 t' ∧
      (∀ c ∈ cs, t'.rules c = none) ∧ ∀ c, c ∉ cs → t'.rules c = (s.fam v6).rules c
  | [], s, _, _ => ⟨s.fam v6, by simp [each], by simp, fun _ _ => rfl⟩
  | c :: cs, s, hmade, hfree => by
    obtain ⟨⟨hforward, hbuiltin⟩, hmade⟩ := List.forall_mem_cons.mp hmade
    obtain ⟨⟨href, hempty⟩, hfree⟩ := List.forall_mem_cons.mp hfree
    obtain ⟨t₁, hfirst, hgone, hsame⟩ : ∃ t₁, ((fw.run v6 (.deleteChain c)).eval iptables s).2 = s.put v6 t₁ ∧
        t₁.rules c = none ∧ ∀ d, d ≠ c → t₁.rules d = (s.fam v6).rules d := by
      cases hr : (s.fam v6).rules c with
      | none =>
        have hfail := run_fail h (x := .deleteChain c) (s := s) (by simp [Cmd.exec, hr])
        exact ⟨s.fam v6, by rw [hfail, Tables.put_fam], hr, fun _ _ => rfl⟩
      | some rs =>
        obtain rfl := hempty rs hr
        have hok := run_ok h (x := .deleteChain c) (s := s) (t := (s.fam v6).drop c hforward)
          (by simp only [Cmd.exec, dif_neg hforward, hr, hbuiltin, href]; rfl)
        refine ⟨(s.fam v6).drop c hforward, by rw [hok], by simp, ?_⟩
        intro d hd
        rw [Table.rules_drop, if_neg hd]
    have hrules : ∀ d rs, t₁.rules d = some rs → (s.fam v6).rules d = some rs := by
      intro d rs hrs
      by_cases hd : d = c
      · rw [hd, hgone] at hrs
        cases hrs
      · rwa [hsame d hd] at hrs
    obtain ⟨t', hrest, hgone', hsame'⟩ := eachDelete_run h cs (s.put v6 t₁) hmade (by
      intro d hd
      rw [Tables.fam_put]
      obtain ⟨hdref, hdempty⟩ := hfree d hd
      exact ⟨Table.not_referenced hdref fun e rs hrs => .inr (hrules e rs hrs), fun rs hrs => hdempty rs (hrules d rs hrs)⟩)
    rw [Tables.put_put, Tables.fam_put] at *
    refine ⟨t', by simp [each, hfirst, hrest], ?_, ?_⟩
    · intro d hd
      by_cases hcs : d ∈ cs
      · exact hgone' d hcs
      · obtain rfl : d = c := (List.mem_cons.mp hd).resolve_right hcs
        rw [hsame' d hcs, hgone]
    · intro d hd
      rw [List.mem_cons, not_or] at hd
      rw [hsame' d hd.2, hsame d hd.1]

/-- Where there is no jump to remove, nothing is. -/
theorem delJumps_none (h : fw.Has v6) {s : Tables} : ∀ cs : List String, (∀ c ∈ cs, jumpTo c ∉ (s.fam v6).fwd) →
    (fw.delJumps v6 cs).eval iptables s = (true, s)
  | [], _ => rfl
  | c :: cs, hno => by
    obtain ⟨hc, hcs⟩ := List.forall_mem_cons.mp hno
    have hone := delJump_run h c s (by rw [List.count_eq_zero.mpr hc]; omega)
    rw [dropJumps_of_notMem hc, Table.set_rules (Table.rules_forward _), Tables.put_fam] at hone
    simp [delJumps, hone, delJumps_none h cs hcs]

/-- Whatever installations added, the cleanup of the family takes away. -/
theorem cleanupFam_added (h : fw.Has v6) (hu : Untouched v6 t₀) {s : Tables} (hadd : Added v6 t₀ (s.fam v6)) :
    (fw.cleanupFam v6 (ownHooks v6) (ownChains v6)).eval iptables s = (true, s.put v6 t₀) := by
  -- The jumps: `FORWARD` is as it was.
  have hjumps : (fw.delJumps v6 (ownHooks v6)).eval iptables s =
      (true, s.put v6 ((s.fam v6).set "FORWARD" t₀.fwd)) := by
    obtain ⟨rest, hhooks, hrest⟩ := ownHooks_eq v6
    have hfirst := delJump_run h (hookOf v6) s (hadd.count hu)
    rw [hadd.dropJumps hu] at hfirst
    have hnone := delJumps_none h (s := s.put v6 ((s.fam v6).set "FORWARD" t₀.fwd)) rest fun c hc => by
      rw [Tables.fam_put, Table.fwd_set_forward]
      exact hu.notMem_fwd (hrest c hc)
    simp [hhooks, delJumps, hfirst, hnone]
  -- The flushes: every chain but the module's is as it was, and the module's have no rules.
  obtain ⟨t₁, hflush, hempty, hsame⟩ := eachFlush_run h (ownChains v6) (s.put v6 ((s.fam v6).set "FORWARD" t₀.fwd))
  rw [Tables.put_put, Tables.fam_put] at *
  have hothers : ∀ c, c ∉ ownChains v6 → t₁.rules c = t₀.rules c := by
    intro c hc
    rw [hsame c hc, Table.rules_set]
    split
    · next hf => rw [hf, Table.rules_forward]
    · next hf => exact hadd.others c hf hc
  have hrules : ∀ d rs, t₁.rules d = some rs → rs = [] ∨ t₀.rules d = some rs := by
    intro d rs hrs
    by_cases hd : d ∈ ownChains v6
    · exact .inl (hempty d hd rs hrs)
    · exact .inr (hothers d hd ▸ hrs)
  -- So nothing leads to them, and they go.
  obtain ⟨t₂, hdelete, hgone, hsame₂⟩ := eachDelete_run h (ownChains v6) (s.put v6 t₁) (ownChains_made v6) (by
    intro c hc
    rw [Tables.fam_put]
    exact ⟨Table.not_referenced (hu.jumps c hc) hrules, hempty c hc⟩)
  rw [Tables.put_put, Tables.fam_put] at *
  have ht : t₂ = t₀ := by
    refine Table.ext_rules ?_
    intro c
    by_cases hc : c ∈ ownChains v6
    · rw [hgone c hc, hu.chains c hc]
    · rw [hsame₂ c hc, hothers c hc]
  simp [cleanupFam, hjumps, hflush, hdelete, ht]

theorem cleanup4_added (hu : Untouched false t₀) {s : Tables} (hadd : Added false t₀ s.v4) :
    fw.cleanup4.eval iptables s = (true, { s with v4 := t₀ }) := by
  have h4 : fw.Has false := fun h => absurd h Bool.false_ne_true
  exact cleanupFam_added h4 hu hadd

/-- Without ip6tables the cleanup leaves the table as it is, and so did the installations. -/
theorem cleanup6_added (hu : Untouched true t₀) {s : Tables} (hadd : Added true t₀ s.v6)
    (hno : fw.ip6t = none → s.v6 = t₀) : fw.cleanup6.eval iptables s = (true, { s with v6 := t₀ }) := by
  cases hip : fw.ip6t with
  | none => simp [cleanup6, hip, ← hno hip]
  | some path =>
    have h6 : fw.Has true := fun _ => by simp [hip]
    simp only [cleanup6, hip, Option.isNone_some, Bool.false_eq_true, if_false]
    exact cleanupFam_added h6 hu hadd

/-! ## Installations of both families -/

/-- A call of `install4` or `install6`, with all it is given but the active chain. -/
inductive Install
  | v4 (links : Links) (kernel : Bool) (workers ttl : Nat)
  | v6 (links : Links) (mode : V6Mode) (hl : Nat)

/-- The call, and the active chains of the two families after it. -/
def Install.run (fw : Firewall) (active4 active6 : Option String) : Install → Prog FwSig (Option String × Option String)
  | .v4 links kernel workers ttl => do
    let (_, active4) ← fw.install4 links kernel workers ttl active4
    return (active4, active6)
  | .v6 links mode hl => do
    let (_, active6) ← fw.install6 links mode hl active6
    return (active4, active6)

/-- The calls one after the other, each with the active chains the one before left. -/
def installs (fw : Firewall) (active4 active6 : Option String) : List Install → Prog FwSig Unit
  | [] => pure ()
  | i :: is => do
    let (active4, active6) ← i.run fw active4 active6
    fw.installs active4 active6 is

/-- What holds between the calls: to each table installations have added, to the IPv6 one only with the tool. -/
structure Between (fw : Firewall) (s₀ : Tables) (active4 active6 : Option String) (s : Tables) : Prop where
  active4 : MayBeActive chainA chainB active4
  active6 : MayBeActive chain6A chain6B active6
  v4 : Added false s₀.v4 s.v4
  v6 : Added true s₀.v6 s.v6
  tool : fw.ip6t = none → s.v6 = s₀.v6

theorem Between.run {s₀ s : Tables} {active4 active6 : Option String} (h : Between fw s₀ active4 active6 s)
    (h4 : Untouched false s₀.v4) (h6 : Untouched true s₀.v6) (i : Install) : ∃ active4' active6' s',
    (i.run fw active4 active6).eval iptables s = ((active4', active6'), s') ∧ Between fw s₀ active4' active6' s' := by
  cases i with
  | v4 links kernel workers ttl =>
    have hhas : fw.Has false := fun h => absurd h Bool.false_ne_true
    obtain ⟨active', t', hrun, hact, hadd⟩ := install_added hhas apart4 (by decide) (by decide)
      (target4_prints kernel workers ttl .block).external links h.active4 h4 h.v4
    exact ⟨active', active6, s.put false t', by simp [Install.run, install4, hrun], hact, h.active6, hadd, h.v6, h.tool⟩
  | v6 links mode hl =>
    by_cases hpass : mode.isPass = true
    · have hrun := cleanup6_added h6 h.v6 h.tool
      refine ⟨active4, none, { s with v6 := s₀.v6 }, by simp [Install.run, install6, hpass, hrun], h.active4, .inl rfl,
        h.v4, .refl true _, fun _ => rfl⟩
    · cases hip : fw.ip6t with
      | none => exact ⟨active4, active6, s, by simp [Install.run, install6, hpass, hip], h⟩
      | some path =>
        have hhas : fw.Has true := fun _ => by simp [hip]
        obtain ⟨active', t', hrun, hact, hadd⟩ := install_added hhas apart6 (by decide) (by decide)
          (target6_prints false 1 hl mode).external links h.active6 h6 h.v6
        refine ⟨active4, active', s.put true t', by simp [Install.run, install6, hpass, hip, hrun], h.active4, hact,
          h.v4, hadd, ?_⟩
        intro hno
        rw [hno] at hip
        cases hip

theorem Between.installs {s₀ : Tables} (h4 : Untouched false s₀.v4) (h6 : Untouched true s₀.v6) :
    ∀ (is : List Install) {s : Tables} {active4 active6 : Option String}, Between fw s₀ active4 active6 s →
    ∃ active4' active6' s', ((fw.installs active4 active6 is).eval iptables s).2 = s' ∧
      Between fw s₀ active4' active6' s'
  | [], s, active4, active6, h => ⟨active4, active6, s, rfl, h⟩
  | i :: is, s, active4, active6, h => by
    obtain ⟨active4', active6', s', hrun, h'⟩ := h.run h4 h6 i
    obtain ⟨a4, a6, s'', hrest, h''⟩ := Between.installs h4 h6 is h'
    exact ⟨a4, a6, s'', by simp [Firewall.installs, hrun, hrest], h''⟩

/-- **No trace.** From tables in which the module has no chain and no rule leads to one, any sequence of calls of
`install4` and `install6`, with whatever arguments, followed by `cleanup`, ends with the answer true and with exactly
the tables there were: every chain, and every rule in its order. -/
theorem cleanup_installs (fw : Firewall) (s : Tables) (h4 : Untouched false s.v4) (h6 : Untouched true s.v6)
    (is : List Install) :
    (do
      fw.installs none none is
      fw.cleanup).eval iptables s = (true, s) := by
  have hstart : Between fw s none none s := ⟨.inl rfl, .inl rfl, .refl _ _, .refl _ _, fun _ => rfl⟩
  obtain ⟨active4, active6, s', hrun, h⟩ := hstart.installs h4 h6 is
  have hclean4 : fw.cleanup4.eval iptables s' = (true, { s' with v4 := s.v4 }) := cleanup4_added h4 h.v4
  have hclean6 : fw.cleanup6.eval iptables { s' with v4 := s.v4 } = (true, s) := cleanup6_added h6 h.v6 h.tool
  simp [hrun, cleanup, hclean4, hclean6]

/-- Tables with a chain and rules of the vendor's. -/
def oem : Tables where
  v4 := (Table.bare.set "oem_mangle" [⟨[⟨.i, "wlan0"⟩], .count⟩]).set "FORWARD" [jumpTo "oem_mangle", jumpTo "ACCEPT"]
  v6 := Table.bare.set "FORWARD" [jumpTo "DROP"]

theorem cleanup_installs_oem : (do
      installs ⟨some "ip6tables"⟩ none none [.v4 ⟨["wlan2"], ["rmnet_data2"]⟩ false 2 64,
        .v6 ⟨["wlan2"], ["rmnet_data2"]⟩ .block 64, .v4 ⟨["rndis0", "wlan2"], ["rmnet_data2"]⟩ true 1 65]
      cleanup ⟨some "ip6tables"⟩).eval iptables oem = (true, oem) :=
  cleanup_installs ⟨some "ip6tables"⟩ oem ⟨by decide, by decide⟩ ⟨by decide, by decide⟩ _

end Firewall

end Nfqttl
