/-
What `classify` answers, and the rules that come of it: one for each pair of a
downstream and an upstream, which no interface is both.
-/
import Mathlib.Data.List.ProdSigma
import Nfqttl.Install
import Nfqttl.Net

namespace Nfqttl

open Effect

namespace Firewall

variable {fw : Firewall} {v6 : Bool}

/-! ## The rules an installation leaves -/

/-- From any tables, an installation that went through has left the rules of the pairs in the chain it names. -/
theorem install_payload (h : fw.Has v6) {a b : String} (hab : Apart v6 a b) {act : Action} (he : External act)
    {links : Links} {active : Option String} {s s' : Tables} {new : String}
    (hrun : (fw.install v6 a b act links active).eval iptables s = ((true, some new), s')) :
    (s'.fam v6).rules new = some (payload links act) := by
  generalize hn : inactive a b active = c at hrun
  have hc : c = a ∨ c = b := by
    by_cases ha : active = some a
    · exact .inr (hn ▸ if_pos ha)
    · exact .inl (hn ▸ if_neg ha)
  have hact : active ≠ some c := by
    rintro rfl
    by_cases ha : c = a
    · exact hab.ab (ha ▸ hn ▸ (if_pos (congrArg some ha)))
    · exact ha (hn ▸ if_neg (by simpa using ha))
  have hwiring : c ∉ (rewires v6 c ++ attaches v6).map Cmd.chain := by
    rcases hc with rfl | rfl <;>
      simp [rewires, attaches, Cmd.chain, hab.a_hook, hab.b_hook, hab.a_forward, hab.b_forward]
  -- `-N` and `-F` leave the new chain empty, the appends fill it.
  obtain ⟨rs, hnewrun⟩ := new_run h c s
  have hflush : (fw.run v6 (.flush c)).eval iptables (s.put v6 ((s.fam v6).set c rs)) =
      (true, s.put v6 ((s.fam v6).set c [])) := by
    rw [flush_run h (by simp)]
    simp
  have hfill : (fw.appendPairs v6 c act links.pairs).eval iptables (s.put v6 ((s.fam v6).set c [])) =
      (true, s.put v6 ((s.fam v6).set c (payload links act))) := by
    rw [appendPairs_run h he links.pairs [] _ (by simp)]
    simp [payload]
  -- What follows does not touch it.
  have hamong : Within (Among v6 (rewires v6 c ++ attaches v6)) (fun _ => True) (fw.activate v6 c active) :=
    activate_among (List.subset_append_left ..) (List.subset_append_right ..) active
  have hframe := (eval_frame hamong (s.put v6 ((s.fam v6).set c (payload links act)))).1 c hwiring
  rw [Tables.fam_put, Table.rules_set_self] at hframe
  simp only [install, hn, Prog.eval_bind, hnewrun, hflush, hfill, Bool.not_true, Bool.false_eq_true, if_false] at hrun
  generalize (fw.activate v6 c active).eval iptables (s.put v6 ((s.fam v6).set c (payload links act))) = r
    at hrun hframe
  obtain ⟨activated, s₁⟩ := r
  cases activated with
  | false => simp at hrun
  | true =>
    obtain ⟨t', hret, hsame⟩ := retire_run h active s₁
    simp only [Bool.not_true, Bool.false_eq_true, if_false, Prog.eval_bind, hret, Prog.pure_eq, Prog.eval_ret,
      Prod.mk.injEq, Option.some.injEq, true_and] at hrun
    obtain ⟨rfl, rfl⟩ := hrun
    rw [Tables.fam_put, hsame c hact]
    exact hframe

/-- The rules of the pairs are as many as downstreams and upstreams make, and no two have one pair of interfaces. -/
theorem payload_pairs {l : Links} (hup : l.up.Nodup) (hdown : l.down.Nodup) (hdis : l.up.Disjoint l.down)
    (act : Action) :
    (payload l act).length = l.down.length * l.up.length ∧ ((payload l act).map Rule.conds).Nodup ∧
      ∀ r, r ∈ payload l act ↔ ∃ i ∈ l.down, ∃ o ∈ l.up, r = pairRule i o act := by
  refine ⟨?_, ?_, ?_⟩
  · rw [payload, List.length_map, Links.pairs_of_disjoint hdis, List.length_product]
  · rw [payload, List.map_map]
    refine (Links.pairs_nodup hup hdown).map ?_
    intro p q h
    simpa [pairRule, Prod.ext_iff] using h
  · intro r
    simp only [payload, Links.pairs_of_disjoint hdis, List.mem_map, Prod.exists, List.mem_product]
    refine ⟨?_, ?_⟩
    · intro h
      obtain ⟨i, o, ⟨hi, ho⟩, heq⟩ := h
      exact ⟨i, hi, o, ho, heq.symm⟩
    · intro h
      obtain ⟨i, hi, o, ho, heq⟩ := h
      exact ⟨i, o, ⟨hi, ho⟩, heq.symm⟩

end Firewall

open Firewall

/-- **Classification.** The two lists are strictly sorted, have no interface in common and name only valid live
ones: the upstreams are the configured ones, or those of the default routes that are allowed, the downstreams the
configured ones, or those with an address that are allowed, less the upstreams. So the rules `install4` and
`install6` leave in the chain they name are one for each downstream and upstream, no two for the same pair. -/
theorem classify_spec (c : Config) (default addrs live : List String) :
    let l := classify c default addrs live
    (l.up.Pairwise (· < ·) ∧ l.down.Pairwise (· < ·) ∧ l.up.Disjoint l.down) ∧
    (∀ s, s ∈ l.up ↔ (if c.upstreams = [] then s ∈ default ∧ allowedUp s = true else s ∈ c.upstreams) ∧
      validIface s.toList = true ∧ s ∈ live) ∧
    (∀ s, s ∈ l.down ↔ (if c.downstreams = [] then s ∈ addrs ∧ allowedDown s = true else s ∈ c.downstreams) ∧
      validIface s.toList = true ∧ s ∈ live ∧ s ∉ l.up) ∧
    (∀ act, (payload l act).length = l.down.length * l.up.length ∧ ((payload l act).map Rule.conds).Nodup ∧
      ∀ r, r ∈ payload l act ↔ ∃ i ∈ l.down, ∃ o ∈ l.up, r = pairRule i o act) ∧
    (∀ (fw : Firewall) (s s' : Tables) (kernel : Bool) (workers ttl : Nat) (active : Option String) (new : String),
      (fw.install4 l kernel workers ttl active).eval iptables s = ((true, some new), s') →
      s'.v4.rules new = some (payload l (target4 kernel workers ttl))) ∧
    (∀ (fw : Firewall) (s s' : Tables) (mode : V6Mode) (hl : Nat) (active : Option String) (new : String),
      fw.ip6t.isSome → mode.isPass = false →
      (fw.install6 l mode hl active).eval iptables s = ((true, some new), s') →
      s'.v6.rules new = some (payload l (target6 mode hl))) := by
  intro l
  obtain ⟨hup, hdown⟩ := classify_nodup c default addrs live
  have hdis := classify_disjoint c default addrs live
  refine ⟨⟨sortDedup_sorted _, sortDedup_sorted _, hdis⟩, fun _ => mem_up .., fun _ => mem_down .., ?_, ?_, ?_⟩
  · exact payload_pairs hup hdown hdis
  · intro fw s s' kernel workers ttl active new hrun
    have h4 : fw.Has false := fun h => absurd h Bool.false_ne_true
    have hpayload := install_payload h4 apart4 (target4_prints kernel workers ttl .block).external hrun
    exact hpayload
  · intro fw s s' mode hl active new h6 hmode hrun
    obtain ⟨path, hpath⟩ := Option.isSome_iff_exists.mp h6
    have hrun' : (fw.install true chain6A chain6B (target6 mode hl) l active).eval iptables s =
        ((true, some new), s') := by
      simpa [install6, hmode, hpath] using hrun
    have hpayload := install_payload (fun _ => h6) apart6 (target6_prints false 1 hl mode).external hrun'
    exact hpayload

/-- A downstream given twice. -/
def givenTwice : Config := { upstreams := ["rmnet_data2"], downstreams := ["wlan2", "rndis0", "wlan2"] }

theorem classify_spec_givenTwice :
    let l := classify givenTwice [] [] ["wlan2", "rndis0", "rmnet_data2"]
    ((install4 ⟨some "ip6tables"⟩ l false 2 64 none).eval iptables ⟨.bare, .bare⟩).2.v4.rules chainA =
      some (payload l (target4 false 2 64)) ∧
    ((install6 ⟨some "ip6tables"⟩ l .block 64 none).eval iptables ⟨.bare, .bare⟩).2.v6.rules chain6A =
      some (payload l (target6 .block 64)) := by
  obtain ⟨_, _, _, _, h4, h6⟩ := classify_spec givenTwice [] [] ["wlan2", "rndis0", "rmnet_data2"]
  exact ⟨h4 ⟨some "ip6tables"⟩ ⟨.bare, .bare⟩ _ false 2 64 none chainA (Prod.ext (by decide) rfl),
    h6 ⟨some "ip6tables"⟩ ⟨.bare, .bare⟩ _ .block 64 none chain6A rfl rfl (Prod.ext (by decide) rfl)⟩

/-! ## The interfaces of the default routes -/

/-- **An upstream is no client just when the prefixes agree.** With nothing configured, no interface of a default
route is taken for a downstream if and only if each of them that could be one, being addressed, live, validly named
and of an allowed downstream prefix, has an allowed upstream prefix too. -/
theorem upstream_notMem_down_iff (c : Config) (hup : c.upstreams = []) (hdown : c.downstreams = [])
    (routes4 routes6 : List Char) (addrs live : List String) :
    let default := defaults routes4 ++ defaults routes6
    (∀ s ∈ default, s ∉ (classify c default addrs live).down) ↔
      ∀ s ∈ default, s ∈ addrs → s ∈ live → validIface s.toList = true → allowedDown s = true →
        allowedUp s = true := by
  intro default
  refine forall₂_congr ?_
  intro s hs
  rw [mem_down, mem_up, if_pos hup, if_pos hdown]
  refine ⟨?_, ?_⟩
  · intro h haddr hlive hvalid hallowed
    by_contra hno
    exact h ⟨⟨haddr, hallowed⟩, hvalid, hlive, fun hin => hno hin.1.2⟩
  · intro h ⟨⟨haddr, hallowed⟩, hvalid, hlive, hnot⟩
    exact hnot ⟨⟨hs, h haddr hlive hvalid hallowed⟩, hvalid, hlive⟩

/-- The Wi-Fi station of the default route stays out of the downstreams. -/
theorem wifi_notMem_down : "wlan0" ∉ (classify {} (defaults "default dev wlan0".toList ++ defaults [])
    ["wlan0", "wlan2"] ["wlan0", "wlan2"]).down :=
  (upstream_notMem_down_iff {} rfl rfl "default dev wlan0".toList [] ["wlan0", "wlan2"] ["wlan0", "wlan2"]).mpr
    (by decide) "wlan0" (by decide)

/-- A default route over USB: only the table of the downstreams has the prefix. -/
theorem usb_mem_down : ¬ ∀ (routes4 routes6 : List Char) (addrs live : List String),
    ∀ s ∈ defaults routes4 ++ defaults routes6,
      s ∉ (classify {} (defaults routes4 ++ defaults routes6) addrs live).down := by
  intro h
  exact h "default via 192.168.42.129 dev usb0".toList [] ["usb0"] ["usb0"] "usb0" (by decide) (by decide)

end Nfqttl
