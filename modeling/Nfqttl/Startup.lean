/-
What `run_inner` settles on before its loop, and that the kernel takes it: the rules that
the loop goes on to install are those whose targets were probed.
-/
import Nfqttl.Lifetime
import Nfqttl.Probe

namespace Nfqttl

open Effect

namespace Firewall

variable {fw : Firewall} {v6 : Bool} {k : Kernel} {act : Action}

/-! ## Installing on a kernel -/

end Firewall

namespace Life

open Daemon

/-! ## The choice -/

variable {fw : Firewall} {k : Kernel} {text : Option (List Char)} {exe : Except IoError Unit} {c : Config} {s : Tables}

/-- The backend is the one asked for, and the kernel has the target of the backend `kernel`. -/
def BackendFits (k : Kernel) (c : Config) : EffectiveBackend → Prop
  | .kernel => c.backend ≠ .nfqueue ∧ k.takes false (Firewall.target4 true 1 c.ttl) = true
  | .nfqueue => c.backend = .nfqueue ∨ c.backend = .auto ∧ k.takes false (Firewall.target4 true 1 c.ttl) = false

/-- One worker, or those asked for when the kernel balances between them. -/
def WorkersFit (k : Kernel) (c : Config) (backend : EffectiveBackend) (workers : Nat) : Prop :=
  workers = 1 ∨ backend = .nfqueue ∧ workers = c.workers ∧ 1 < c.workers ∧
    k.takes false (Firewall.target4 false c.workers c.ttl) = true

/-- The mode is the one asked for, or the strictest there is where the choice is free. -/
def ModeFits (fw : Firewall) (k : Kernel) (c : Config) : V6Mode → Prop
  | .pass => c.ipv6Mode = .pass
  | .passNoIp6tables => fw.ip6t = none ∧ (c.ipv6Mode = .block ∨ c.ipv6Mode = .auto)
  | .block => fw.ip6t.isSome = true ∧
      (c.ipv6Mode = .block ∨ c.ipv6Mode = .auto ∧ k.takes true (Firewall.target6 .normalize c.ipv6Hl) = false)
  | .normalize => fw.ip6t.isSome = true ∧ (c.ipv6Mode = .normalize ∨ c.ipv6Mode = .auto) ∧
      k.takes true (Firewall.target6 .normalize c.ipv6Hl) = true

/-- What fits together. -/
structure Fits (fw : Firewall) (k : Kernel) (c : Config) (backend : EffectiveBackend) (workers : Nat) (v6 : V6Mode) :
    Prop where
  backendFits : BackendFits k c backend
  workersFit : WorkersFit k c backend workers
  modeFits : ModeFits fw k c v6

/-- The chains of the probes. -/
def probeChains : List String := ["nfqttl_tprobe", "nfqttl_qprobe", "nfqttl6_probe"]

/-- The tables differ in the chains of the probes at most. -/
def Unprobed (s s' : Tables) : Prop :=
  ∀ v6 c, c ∉ probeChains → (s'.fam v6).rules c = (s.fam v6).rules c

theorem Unprobed.probe {s s' : Tables} (h : Unprobed s s') (q : Probe) {ok : Bool} {s'' : Tables}
    (hrun : (q.run fw).eval (iptablesOn k) s' = (ok, s'')) : ok = q.answer fw k ∧ Unprobed s s'' := by
  rw [q.run_on] at hrun
  obtain ⟨rfl, rfl⟩ := Prod.mk.inj hrun
  refine ⟨rfl, ?_⟩
  intro v6 c hc
  have hchain : c ≠ q.chain := by
    rintro rfl
    cases q <;> exact hc (by simp [Probe.chain, probeChains])
  rw [← h v6 c hc]
  unfold Probe.leaves
  split
  case isFalse => rfl
  by_cases hfam : v6 = q.v6
  · rw [hfam, Tables.fam_put, Table.rules_scrub _ _ hchain]
  · have hother : v6 = !q.v6 := by
      cases v6 <;> cases hq : q.v6 <;> simp_all
    rw [hother, Tables.fam_put_not]

section choice
variable {s₀ : Tables} {F : IoError → Prop}

/-- The operations that may answer anything and leave the tables alone, on a kernel. -/
def still : LifeOp → Bool
  | .run .loadConfig | .run .currentExe | .run (.probeTtl _) | .run (.probeHl _) | .run (.probeBalance _) => false
  | _ => true

end choice

/-! ## The rules of the choice -/

/-- The target of the IPv4 rules is one the kernel takes, a single queue apart, which is not probed. -/
theorem Fits.target4 {c : Config} {backend : EffectiveBackend} {workers : Nat} {v6 : V6Mode}
    (h : Fits fw k c backend workers v6)
    (hsingle : backend = .nfqueue → workers = 1 → k.takes false (Firewall.target4 false 1 c.ttl) = true) :
    k.takes false (Firewall.target4 (backend == .kernel) workers c.ttl) = true := by
  cases backend with
  | kernel =>
    have hkernel := h.backendFits.2
    have hsame : Firewall.target4 true workers c.ttl = Firewall.target4 true 1 c.ttl := by simp [Firewall.target4]
    change k.takes false (Firewall.target4 true workers c.ttl) = true
    rw [hsame]
    exact hkernel
  | nfqueue =>
    change k.takes false (Firewall.target4 false workers c.ttl) = true
    obtain rfl | ⟨_, rfl, _, htakes⟩ := h.workersFit
    · exact hsingle rfl rfl
    · exact htakes

theorem Fits.target6 {c : Config} {backend : EffectiveBackend} {workers : Nat} {v6 : V6Mode}
    (h : Fits fw k c backend workers v6) (hpass : v6.isPass = false) :
    fw.ip6t.isSome = true ∧ k.takes true (Firewall.target6 v6 c.ipv6Hl) = true := by
  have hmode := h.modeFits
  cases v6 with
  | pass => cases hpass
  | passNoIp6tables => cases hpass
  | block => exact ⟨hmode.1, k.plain true "DROP"⟩
  | normalize => exact ⟨hmode.1, hmode.2.2⟩

end Life

end Nfqttl
