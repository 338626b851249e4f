/-
Make before break: an installation over intact rules never leaves tethered
packets without a complete payload chain, however far it gets.

The commands follow their semantics, but any command that builds the new payload
chain may fail. The states considered are all those the tables pass through, so
the daemon may be killed at any of them.
-/
import Nfqttl.Install

namespace Nfqttl

open Effect

/-- The commands that build payload chain `new`. -/
def Cmd.Builds (new : String) : Cmd → Prop
  | .new c | .flush c | .append c _ => c = new
  | _ => False

/-- The tools follow their semantics, except that a command building `new` may fail. -/
def buildFaults (v6 : Bool) (new : String) : Sem FwSig Tables := fun o =>
  match o with
  | .run f cmd => fun s ok s' =>
    iptables (.run f cmd) s = (ok, s') ∨ (f = v6 ∧ cmd.Builds new ∧ ok = false ∧ s' = s)
  | .show f c => fun s lines s' => iptables (.show f c) s = (lines, s')

/-- `FORWARD` begins with the one hook jump, the hook chain is the one jump to
`c`, and chain `c` is exactly `rules`. -/
structure Serves (v6 : Bool) (c : String) (rules : Option (List Rule)) (t : Table) : Prop where
  forward : Firewall.HookFirst v6 t
  hook : t.rules (hookOf v6) = some [jumpTo c]
  payload : t.rules c = rules

theorem Serves.set_other {v6 : Bool} {c x : String} {rules : Option (List Rule)} {rs : List Rule} {t : Table}
    (h : Serves v6 c rules t) (hxf : x ≠ "FORWARD") (hxh : x ≠ hookOf v6) (hxc : x ≠ c) :
    Serves v6 c rules (t.set x rs) where
  forward := by
    obtain ⟨rest, hfwd, hnot⟩ := h.forward
    exact ⟨rest, by rw [Table.fwd_set_ne _ _ hxf, hfwd], hnot⟩
  hook := by rw [Table.rules_set_ne _ _ hxh.symm]; exact h.hook
  payload := by rw [Table.rules_set_ne _ _ hxc.symm]; exact h.payload

/-- Rewriting the hook chain's one rule moves the service over at once. -/
theorem Serves.rewire {v6 : Bool} {c new : String} {rules : Option (List Rule)} {t : Table}
    (h : Serves v6 c rules t) (hnh : new ≠ hookOf v6) :
    Serves v6 new (t.rules new) (t.set (hookOf v6) [jumpTo new]) where
  forward := by
    obtain ⟨rest, hfwd, hnot⟩ := h.forward
    exact ⟨rest, by rw [Table.fwd_set_ne _ _ (hook_ne_forward v6), hfwd], hnot⟩
  hook := Table.rules_set_self ..
  payload := Table.rules_set_ne _ _ hnh

namespace Firewall

variable {fw : Firewall} {v6 : Bool}

/-- What `rules_ok` with an active chain vouches for. -/
theorem serves_of_rulesOk (h : fw.Has v6) {cur : String} (hcur : ' ' ∉ cur.toList) {links : Links}
    {kernel : Bool} {workers value : Nat} {mode : V6Mode} {s : Tables}
    (hok : ((fw.rulesOk v6 (some cur) links kernel workers value mode).eval iptables s).1 = true) :
    Serves v6 cur ((s.fam v6).rules cur) (s.fam v6) := by
  obtain ⟨hfirst, hhook, -⟩ := (rulesOk_run h cur links kernel workers value mode s).2.mp hok
  exact ⟨hfirst, (hook_listing hcur _).mp hhook, rfl⟩

/-! ## One command at a time -/

variable {new : String} {I : Tables → Prop} {s : Tables}

section steps
variable {Q : Bool → Tables → Prop}

/-- A command that builds nothing does what it does. -/
theorem keeps_run (h : fw.Has v6) {x : Cmd} (hb : ¬ x.Builds new) :
    Keeps (buildFaults v6 new) I Q (fw.run v6 x) s ↔
      I s ∧ Keeps (buildFaults v6 new) I Q (.ret (iptables (.run v6 x) s).1) (iptables (.run v6 x) s).2 := by
  rw [run_eq h]
  simp only [runCmd, keeps_op, buildFaults, hb, false_and, and_false, or_false]
  refine and_congr_right fun _ => ⟨fun hk => hk _ _ rfl, ?_⟩
  rintro hk a s' heq
  rw [heq] at hk
  exact hk

theorem keeps_run_ok (h : fw.Has v6) {x : Cmd} (hb : ¬ x.Builds new) {t : Table}
    (hx : x.exec (s.fam v6) = some t) :
    Keeps (buildFaults v6 new) I Q (fw.run v6 x) s ↔ I s ∧ I (s.put v6 t) ∧ Q true (s.put v6 t) := by
  rw [keeps_run h hb]
  simp [iptables, hx]

theorem keeps_run_fail (h : fw.Has v6) {x : Cmd} (hb : ¬ x.Builds new) (hx : x.exec (s.fam v6) = none) :
    Keeps (buildFaults v6 new) I Q (fw.run v6 x) s ↔ I s ∧ Q false s := by
  rw [keeps_run h hb]
  simp [iptables, hx]

/-- A command that builds the new chain does what it does, or nothing. -/
theorem keeps_build (h : fw.Has v6) {x : Cmd} (hs : I s) (hfail : Q false s)
    (hok : ∀ t, x.exec (s.fam v6) = some t → I (s.put v6 t) ∧ Q true (s.put v6 t)) :
    Keeps (buildFaults v6 new) I Q (fw.run v6 x) s := by
  rw [run_eq h]
  refine ⟨hs, fun a s' hr => ?_⟩
  rcases hr with heq | ⟨-, -, rfl, rfl⟩
  · cases hx : x.exec (s.fam v6) with
    | some t =>
      simp only [iptables, hx, Prod.mk.injEq] at heq
      obtain ⟨rfl, rfl⟩ := heq
      exact hok t hx
    | none =>
      simp only [iptables, hx, Prod.mk.injEq] at heq
      obtain ⟨rfl, rfl⟩ := heq
      exact ⟨hs, hfail⟩
  · exact ⟨hs, hfail⟩

end steps

theorem keeps_out (h : fw.Has v6) {Q : List String → Tables → Prop} (c : String) :
    Keeps (buildFaults v6 new) I Q (fw.out v6 c) s ↔ I s ∧ Q ((s.fam v6).listing c) s := by
  rw [out_eq h]
  simp only [showChain, keeps_op, buildFaults, iptables, Prod.mk.injEq, and_imp, keeps_ret]
  refine and_congr_right fun hi => ⟨fun hk => (hk _ _ rfl rfl).2, ?_⟩
  rintro hq a s' rfl rfl
  exact ⟨hi, hq⟩

/-! ## The installation, part by part -/

variable {cur : String} {old : Option (List Rule)} {act : Action}

/-- A building command that succeeds gives the new chain `rs`; the old service
is left alone either way. -/
theorem keeps_buildSet (h : fw.Has v6) (hI : ∀ s, Serves v6 cur old (s.fam v6) → I s) (hnf : new ≠ "FORWARD")
    (hnh : new ≠ hookOf v6) (hnc : new ≠ cur) {x : Cmd} {rs : List Rule}
    (hx : ∀ t, x.exec (s.fam v6) = some t → t = (s.fam v6).set new rs) (hs : Serves v6 cur old (s.fam v6)) :
    Keeps (buildFaults v6 new) I (fun ok s' => Serves v6 cur old (s'.fam v6) ∧
      (ok = true → (s'.fam v6).rules new = some rs)) (fw.run v6 x) s := by
  refine keeps_build h (hI s hs) ⟨hs, by simp⟩ ?_
  intro t ht
  have hs' : Serves v6 cur old ((s.put v6 t).fam v6) := by
    rw [Tables.fam_put, hx t ht]
    exact hs.set_other hnf hnh hnc
  exact ⟨hI _ hs', hs', fun _ => by rw [Tables.fam_put, hx t ht, Table.rules_set_self]⟩

theorem exec_new {t t' : Table} (hx : (Cmd.new new).exec t = some t') : t' = t.set new [] := by
  simp only [Cmd.exec] at hx
  split at hx
  · cases hx
  · exact (Option.some.inj hx).symm

theorem exec_flush {t t' : Table} (hx : (Cmd.flush new).exec t = some t') : t' = t.set new [] := by
  simp only [Cmd.exec, Option.map_eq_some_iff] at hx
  obtain ⟨_, -, rfl⟩ := hx
  rfl

theorem exec_append {t t' : Table} {rs : List Rule} {r : Rule} (hr : t.rules new = some rs)
    (hx : (Cmd.append new r).exec t = some t') : t' = t.set new (rs ++ [r]) := by
  simp only [Cmd.exec, hr, Option.bind_eq_bind, Option.bind_some] at hx
  split at hx
  · exact (Option.some.inj hx).symm
  · cases hx

/-- Appending to the new chain leaves the old service alone. -/
theorem keeps_appendPairs (h : fw.Has v6) (hI : ∀ s, Serves v6 cur old (s.fam v6) → I s)
    (hnf : new ≠ "FORWARD") (hnh : new ≠ hookOf v6) (hnc : new ≠ cur) :
    ∀ (ps : List (String × String)) (rs : List Rule) (s : Tables), Serves v6 cur old (s.fam v6) →
    (s.fam v6).rules new = some rs →
    Keeps (buildFaults v6 new) I (fun ok s' => Serves v6 cur old (s'.fam v6) ∧
      (ok = true → (s'.fam v6).rules new = some (rs ++ ps.map fun p => pairRule p.1 p.2 act)))
      (fw.appendPairs v6 new act ps) s
  | [], rs, s, hs, hr => ⟨hI s hs, hs, fun _ => by simpa using hr⟩
  | (i, o) :: ps, rs, s, hs, hr => by
    simp only [appendPairs, keeps_bind]
    refine (keeps_buildSet h hI hnf hnh hnc (fun t => exec_append hr) hs).post ?_
    rintro (_ | _) s' hi ⟨hs', hr'⟩
    · exact ⟨hi, hs', by simp⟩
    · simpa using keeps_appendPairs h hI hnf hnh hnc ps (rs ++ [pairRule i o act]) s' hs' (hr' rfl)

theorem keeps_rewire (h : fw.Has v6) (hnh : new ≠ hookOf v6) (hhook : (s.fam v6).rules (hookOf v6) = some [jumpTo cur])
    (hnew : ((s.fam v6).rules new).isSome) (hI : I s)
    (hI' : I (s.put v6 ((s.fam v6).set (hookOf v6) [jumpTo new]))) :
    Keeps (buildFaults v6 new) I (fun ok s' => ok = true ∧ s' = s.put v6 ((s.fam v6).set (hookOf v6) [jumpTo new]))
      (fw.rewire v6 new (some cur)) s := by
  have hnh' : ¬ (Cmd.new (hookOf v6)).Builds new := fun he => hnh he.symm
  have hexist : Cmd.exec (s.fam v6) (.new (hookOf v6)) = none := by simp [Cmd.exec, hhook]
  have hrep : Cmd.exec (s.fam v6) (.replace (hookOf v6) 1 (jumpTo new)) =
      some ((s.fam v6).set (hookOf v6) [jumpTo new]) := by
    simp [Cmd.exec, hhook, Table.knows_jumpTo hnew]
  simp only [rewire, keeps_bind, keeps_run_fail h hnh' hexist, Option.isSome_some, if_true,
    keeps_run_ok h (id : ¬ (Cmd.replace (hookOf v6) 1 (jumpTo new)).Builds new) hrep]
  exact ⟨hI, hI, hI', hI', rfl, rfl⟩

theorem keeps_trim (h : fw.Has v6) (hspace : ' ' ∉ new.toList) {rules : Option (List Rule)}
    (hs : Serves v6 new rules (s.fam v6)) (hI : I s) :
    Keeps (buildFaults v6 new) I (fun ok s' => ok = true ∧ s' = s) (fw.trim v6) s := by
  have hlen : (ruleLines ((s.fam v6).listing (hookOf v6))).length - 1 = 0 := by
    rw [(hook_listing hspace _).mpr hs.hook]
    rfl
  simp [trim, keeps_bind, keeps_out h, hlen, trimHook, hI]

theorem keeps_attach (h : fw.Has v6) {rules : Option (List Rule)} (hs : Serves v6 new rules (s.fam v6)) (hI : I s) :
    Keeps (buildFaults v6 new) I (fun ok s' => ok = true ∧ s' = s) (fw.attach v6) s := by
  simp [attach, hookOk, keeps_bind, keeps_out h, (firstOnly_listing v6 _).mpr hs.forward, hI]

/-- Over an intact service `activate` replaces the hook chain's one rule, and
finds nothing else to repair. -/
theorem keeps_activate (h : fw.Has v6) (hnh : new ≠ hookOf v6) (hspace : ' ' ∉ new.toList)
    (hs : Serves v6 cur old (s.fam v6)) (hnew : ((s.fam v6).rules new).isSome) (hI : I s)
    (hI' : ∀ s', Serves v6 new ((s.fam v6).rules new) (s'.fam v6) → I s') :
    Keeps (buildFaults v6 new) I
      (fun ok s' => ok = true ∧ s' = s.put v6 ((s.fam v6).set (hookOf v6) [jumpTo new]))
      (fw.activate v6 new (some cur)) s := by
  have hs' : Serves v6 new ((s.fam v6).rules new)
      ((s.put v6 ((s.fam v6).set (hookOf v6) [jumpTo new])).fam v6) := by
    rw [Tables.fam_put]
    exact hs.rewire hnh
  simp only [activate, keeps_bind]
  refine (keeps_rewire h hnh hs.hook hnew hI (hI' _ hs')).post ?_
  rintro _ _ hi ⟨rfl, rfl⟩
  simp only [Bool.not_true, Bool.false_eq_true, if_false, keeps_bind]
  refine (keeps_trim h hspace hs' hi).post ?_
  rintro _ _ _ ⟨rfl, rfl⟩
  simpa using keeps_attach h hs' hi

/-- The installation over an intact service of chain `cur`: every state serves the
old rules or the new ones; if it fails the old ones are still served. -/
theorem keeps_install (h : fw.Has v6) {a b : String} (hab : Apart v6 a b) (hcur : cur = a ∨ cur = b) (links : Links)
    (act : Action) (hs : Serves v6 cur old (s.fam v6)) :
    Keeps (buildFaults v6 (inactive a b (some cur)))
      (fun s' => Serves v6 cur old (s'.fam v6) ∨
        Serves v6 (inactive a b (some cur)) (some (payload links act)) (s'.fam v6))
      (fun r s' => (r.1 = true ∧ r.2 = some (inactive a b (some cur)) ∧
          Serves v6 (inactive a b (some cur)) (some (payload links act)) (s'.fam v6)) ∨
        (r.1 = false ∧ r.2 = some cur ∧ Serves v6 cur old (s'.fam v6)))
      (fw.install v6 a b act links (some cur)) s := by
  have hnew : inactive a b (some cur) = a ∨ inactive a b (some cur) = b := by
    unfold inactive
    split <;> simp
  have hnc : inactive a b (some cur) ≠ cur := by
    unfold inactive
    rcases hcur with rfl | rfl
    · simpa using hab.ab.symm
    · simpa [hab.ab.symm] using hab.ab
  have hcf : cur ≠ "FORWARD" := by rcases hcur with e | e <;> rw [e]; exacts [hab.a_forward, hab.b_forward]
  have hch : cur ≠ hookOf v6 := by rcases hcur with e | e <;> rw [e]; exacts [hab.a_hook, hab.b_hook]
  unfold install
  generalize inactive a b (some cur) = new at hnew hnc
  have hnh : new ≠ hookOf v6 := by rcases hnew with e | e <;> rw [e]; exacts [hab.a_hook, hab.b_hook]
  have hnf : new ≠ "FORWARD" := by rcases hnew with e | e <;> rw [e]; exacts [hab.a_forward, hab.b_forward]
  generalize hI : (fun s' : Tables => Serves v6 cur old (s'.fam v6) ∨
    Serves v6 new (some (payload links act)) (s'.fam v6)) = I
  have hold : ∀ s : Tables, Serves v6 cur old (s.fam v6) → I s := fun s hs => hI ▸ .inl hs
  have hnewI : ∀ s : Tables, Serves v6 new (some (payload links act)) (s.fam v6) → I s := fun s hs => hI ▸ .inr hs
  simp only [keeps_bind]
  -- `-N` and `-F`: the new chain is there and empty, or the call gives up.
  refine (keeps_buildSet h hold hnf hnh hnc (fun t => exec_new) hs).post ?_
  rintro _ s₁ _ ⟨hs₁, -⟩
  refine (keeps_buildSet h hold hnf hnh hnc (fun t => exec_flush) hs₁).post ?_
  rintro (_ | _) s₂ hi₂ ⟨hs₂, hr₂⟩
  · exact ⟨hi₂, .inr ⟨rfl, rfl, hs₂⟩⟩
  simp only [Bool.not_true, Bool.false_eq_true, if_false, keeps_bind]
  refine (keeps_appendPairs h hold hnf hnh hnc links.pairs [] s₂ hs₂ (hr₂ rfl)).post ?_
  rintro (_ | _) s₃ hi₃ ⟨hs₃, hr₃⟩
  · exact ⟨hi₃, .inr ⟨rfl, rfl, hs₃⟩⟩
  -- The payload is complete: the hook chain is switched to it.
  replace hr₃ : (s₃.fam v6).rules new = some (payload links act) := hr₃ rfl
  simp only [Bool.not_true, Bool.false_eq_true, if_false, keeps_bind]
  refine (keeps_activate h hnh (hab.space hnew) hs₃ (Option.isSome_of_eq_some hr₃) hi₃ (hr₃ ▸ hnewI)).post ?_
  rintro _ s₄ hi₄ ⟨rfl, rfl⟩
  have hs₄ : Serves v6 new (some (payload links act)) ((s₃.fam v6).set (hookOf v6) [jumpTo new]) :=
    hr₃ ▸ hs₃.rewire hnh
  -- The old chain is no longer reached when it is flushed.
  have hbuild : ¬ (Cmd.flush cur).Builds new := fun he => hnc he.symm
  simp only [Bool.not_true, Bool.false_eq_true, if_false, keeps_bind, retire, Prog.pure_eq, keeps_ret, true_and]
  cases hx : (Cmd.flush cur).exec ((s₃.put v6 ((s₃.fam v6).set (hookOf v6) [jumpTo new])).fam v6) with
  | none =>
    rw [keeps_run_fail h hbuild hx]
    exact ⟨hi₄, hi₄, hi₄, .inl (by simpa using hs₄)⟩
  | some t =>
    rw [keeps_run_ok h hbuild hx]
    have hs₅ : Serves v6 new (some (payload links act)) t := by
      rw [exec_flush hx, Tables.fam_put]
      exact hs₄.set_other hcf hch hnc.symm
    have hi₅ := hnewI ((s₃.put v6 ((s₃.fam v6).set (hookOf v6) [jumpTo new])).put v6 t) (by simpa using hs₅)
    exact ⟨hi₄, hi₅, hi₅, hi₅, .inl (by simpa using hs₅)⟩

/-- However the building commands of `p` fail and wherever it is cut, chain `cur`
with `old` or chain `new` with `rules` is served; the answer says which. -/
def Swaps (v6 : Bool) (cur new : String) (old : Option (List Rule)) (rules : List Rule)
    (p : Prog FwSig (Bool × Option String)) (s : Tables) : Prop :=
  (∀ s', Visits (buildFaults v6 new) p s s' →
    Serves v6 cur old (s'.fam v6) ∨ Serves v6 new (some rules) (s'.fam v6)) ∧
  (∀ r s', Runs (buildFaults v6 new) p s r s' →
    r = (true, some new) ∧ Serves v6 new (some rules) (s'.fam v6) ∨
      r = (false, some cur) ∧ Serves v6 cur old (s'.fam v6))

theorem install_swaps (h : fw.Has v6) {a b : String} (hab : Apart v6 a b) (hcur : cur = a ∨ cur = b) (links : Links)
    (hs : Serves v6 cur old (s.fam v6)) :
    Swaps v6 cur (inactive a b (some cur)) old (payload links act) (fw.install v6 a b act links (some cur)) s := by
  obtain ⟨hv, hr⟩ := keeps_iff.mp (keeps_install h hab hcur links act hs)
  refine ⟨hv, fun r s' hrun => ?_⟩
  rcases hr r s' hrun with ⟨h₁, h₂, h₃⟩ | ⟨h₁, h₂, h₃⟩
  exacts [.inl ⟨Prod.ext h₁ h₂, h₃⟩, .inr ⟨Prod.ext h₁ h₂, h₃⟩]

/-- **Make before break.** Where `rules_ok` holds of the active chain `cur`, every
state `install4` passes through has `FORWARD` begin with the single hook jump, the
hook chain the one jump, and it leads to `cur` with all its old rules or to the
other chain with all the new ones; so does `install6` outside the `pass` modes.
Whichever of the commands that build the new chain fail, in the end it is active and
the answer true, or the answer is false, `cur` stays active and its rules stay as they
were. Only a failing `-N` does not decide that: the chain may be there already. -/
theorem make_before_break (fw : Firewall) (s : Tables) (cur : String) (links oldLinks : Links)
    (kernel oldKernel : Bool) (workers oldWorkers value oldValue : Nat) (mode oldMode : V6Mode) :
    ((cur = chainA ∨ cur = chainB) →
      ((fw.rulesOk false (some cur) oldLinks oldKernel oldWorkers oldValue oldMode).eval iptables s).1 = true →
      Swaps false cur (inactive chainA chainB (some cur)) (s.v4.rules cur)
        (payload links (target4 kernel workers value)) (fw.install4 links kernel workers value (some cur)) s) ∧
    ((cur = chain6A ∨ cur = chain6B) → fw.ip6t.isSome → mode.isPass = false →
      ((fw.rulesOk true (some cur) oldLinks oldKernel oldWorkers oldValue oldMode).eval iptables s).1 = true →
      Swaps true cur (inactive chain6A chain6B (some cur)) (s.v6.rules cur)
        (payload links (target6 mode value)) (fw.install6 links mode value (some cur)) s) := by
  constructor
  · intro hcur hok
    have h4 : fw.Has false := fun h => absurd h Bool.false_ne_true
    exact install_swaps h4 apart4 hcur links (serves_of_rulesOk h4 (apart4.space hcur) hok)
  · intro hcur h6 hmode hok
    have heq : fw.install6 links mode value (some cur) =
        fw.install true chain6A chain6B (target6 mode value) links (some cur) := by
      obtain ⟨path, hpath⟩ := Option.isSome_iff_exists.mp h6
      simp [install6, hmode, hpath]
    rw [heq]
    exact install_swaps (fun _ => h6) apart6 hcur links (serves_of_rulesOk (fun _ => h6) (apart6.space hcur) hok)

/-- Both families with a payload for one pair in place. -/
def attached : Tables :=
  let fam := fun hook c act => ((Table.bare.set "FORWARD" [jumpTo hook, ⟨[⟨.i, "wlan0"⟩], .count⟩]).set hook
    [jumpTo c]).set c [pairRule "wlan2" "rmnet_data2" act]
  { v4 := fam chainHook chainA (target4 false 2 64), v6 := fam chain6Hook chain6B (target6 .block 64) }

theorem make_before_break_attached :
    Swaps false chainA chainB (attached.v4.rules chainA)
      (payload ⟨["wlan2"], ["rmnet_data3"]⟩ (target4 true 1 65))
      (install4 ⟨some "ip6tables"⟩ ⟨["wlan2"], ["rmnet_data3"]⟩ true 1 65 (some chainA)) attached ∧
    Swaps true chain6B chain6A (attached.v6.rules chain6B)
      (payload ⟨["wlan2"], ["rmnet_data3"]⟩ (target6 .normalize 65))
      (install6 ⟨some "ip6tables"⟩ ⟨["wlan2"], ["rmnet_data3"]⟩ .normalize 65 (some chain6B)) attached :=
  ⟨(make_before_break ⟨some "ip6tables"⟩ attached chainA ⟨["wlan2"], ["rmnet_data3"]⟩ ⟨["wlan2"], ["rmnet_data2"]⟩
      true false 1 2 65 64 .normalize .block).1 (.inl rfl) (by decide +kernel),
   (make_before_break ⟨some "ip6tables"⟩ attached chain6B ⟨["wlan2"], ["rmnet_data3"]⟩ ⟨["wlan2"], ["rmnet_data2"]⟩
      true false 1 2 65 64 .normalize .block).2 (.inr rfl) rfl rfl (by decide +kernel)⟩

end Firewall

end Nfqttl
