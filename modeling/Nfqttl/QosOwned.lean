/-
No CAKE qdisc of the module is orphaned: over any calls of `reconcile`, cut anywhere
or failing anywhere, with other parties changing qdiscs between the calls, a qdisc the
module added and nobody touched since has a journal.
-/
import Nfqttl.QosMachine

namespace Nfqttl.Qos

open Effect

/-- Every qdisc the module added, neither deleted nor altered since, is there and has a journal. -/
def Journalled (s : Host) : Prop :=
  ∀ p ∈ s.ours, cake p.1 p.2 ∈ s.kernel.qdiscs ∧ ∃ iface, s.journals.find iface = some p

theorem Journalled.deleted {s : Host} (h : Journalled s) {i : Nat} {k' : Kernel} (hk : Deleted i s.kernel k') :
    Journalled (s.deleted i k') := by
  intro p hp
  obtain ⟨hp, hne⟩ := List.mem_filter.mp hp
  obtain ⟨hin, hfind⟩ := h p hp
  refine ⟨(hk.kept _ hin).resolve_right fun hgone => ?_, hfind⟩
  exact (by simpa using hne : p.1 ≠ i) hgone.1

theorem Journalled.added {s : Host} (h : Journalled s) {iface : String} {i : Nat} {o : Options} {k' : Kernel}
    (hfind : s.journals.find iface = some (i, o)) (hk : Added i o s.kernel k') : Journalled (s.added i o k') := by
  intro p hp
  rcases List.mem_cons.mp hp with rfl | hp
  · exact ⟨hk.here, iface, hfind⟩
  obtain ⟨hp, hne⟩ := List.mem_filter.mp hp
  have hnei : p.1 ≠ i := by simpa using hne
  obtain ⟨hin, hfind'⟩ := h p hp
  refine ⟨?_, hfind'⟩
  rcases hk.kept _ hin with hin' | ⟨r, -, hri, -, -, rfl | ⟨hqi, -, -⟩⟩
  exacts [hin', absurd hri hnei, absurd hqi hnei]

/-- A journal may go that names none of the module's qdiscs. -/
theorem Journalled.unlink {s : Host} (h : Journalled s) {iface : String}
    (hnot : ∀ e, s.journals.find iface = some e → e ∉ s.ours) : Journalled (s.unlink iface) := by
  intro p hp
  obtain ⟨hin, iface', hfind⟩ := h p hp
  refine ⟨hin, iface', ?_⟩
  rw [Host.unlink_journals, OrdMap.find_erase, if_neg, hfind]
  intro he
  exact hnot p (he ▸ hfind) hp

/-- A journal may be written over none or over the same. -/
theorem Journalled.journal {s : Host} (h : Journalled s) {iface : String} {e : Entry}
    (hsame : ∀ e', s.journals.find iface = some e' → e' = e) (temps : OrdMap String Entry) :
    Journalled ((s.journal iface e).withTemps temps) := by
  intro p hp
  obtain ⟨hin, iface', hfind⟩ := h p hp
  refine ⟨hin, iface', ?_⟩
  rw [Host.withTemps_journals, Host.journal_journals, OrdMap.find_insert]
  split
  · next he => rw [hsame p (he ▸ hfind)]
  · exact hfind

/-! ## The two loops -/

section call
variable {fails : QosOp → Host → Prop} {wanted saved : OrdMap String Entry} {dump : List Qdisc}

/-- In the first loop, with the journals `es` still to be looked at: the journals are among
those saved, the ones looked at are wanted, and the dump shows what the module owns. -/
structure Dropping (wanted saved : OrdMap String Entry) (dump : List Qdisc) (es : List (String × Entry))
    (s : Host) : Prop where
  journalled : Journalled s
  among : ∀ iface e, s.journals.find iface = some e → saved.find iface = some e
  looked : ∀ iface e, s.journals.find iface = some e → wanted.find iface = some e ∨ (iface, e) ∈ es
  shown : ∀ p ∈ s.ours, cake p.1 p.2 ∈ dump

/-- The next journal is removed, and names nothing the module owns. -/
theorem Dropping.unlink {iface : String} {e : Entry} {es : List (String × Entry)} {s : Host}
    (h : Dropping wanted saved dump ((iface, e) :: es) s) (he : saved.find iface = some e) (hnot : e ∉ s.ours) :
    Dropping wanted saved dump es (s.unlink iface) where
  journalled := h.journalled.unlink fun e' hfind hin =>
    hnot (Option.some.inj (he.symm.trans (h.among iface e' hfind)) ▸ hin)
  among iface' e' hfind := by
    rw [Host.unlink_journals, OrdMap.find_erase] at hfind
    split at hfind
    · cases hfind
    · exact h.among iface' e' hfind
  looked iface' e' hfind := by
    rw [Host.unlink_journals, OrdMap.find_erase] at hfind
    split at hfind
    · cases hfind
    next hne =>
    rcases h.looked iface' e' hfind with hw | hm
    · exact .inl hw
    rcases List.mem_cons.mp hm with heq | hm
    · exact absurd (Prod.mk.inj heq).1 hne
    · exact .inr hm
  shown := h.shown

theorem dropStale_journalled {x : String × Entry} {es : List (String × Entry)} {s : Host}
    (hx : saved.find x.1 = some x.2) (h : Dropping wanted saved dump (x :: es) s) :
    KeepsE (backend fails) Journalled (fun _ s' => Dropping wanted saved dump es s') (fun _ _ => True)
      (dropStale wanted dump x) s := by
  obtain ⟨iface, idx, o⟩ := x
  refine keeps_dropStale h.journalled (fun hw _ => ⟨h.journalled, h.among, fun iface' e hf => ?_, h.shown⟩)
    (fun _ s₁ hs₁ => ?_) fun _ _ _ => trivial
  · rcases h.looked iface' e hf with hw' | hm
    · exact .inl hw'
    rcases List.mem_cons.mp hm with heq | hm
    · cases heq
      exact .inl hw
    · exact .inr hm
  · -- What the journal names is deleted, or not in the dump and so not the module's.
    have hd : Dropping wanted saved dump ((iface, idx, o) :: es) s₁ ∧ (idx, o) ∉ s₁.ours := by
      rcases hs₁ with ⟨rfl, hno⟩ | ⟨-, k', hk, rfl⟩
      · exact ⟨h, fun hin => hno (h.shown _ hin)⟩
      · exact ⟨⟨h.journalled.deleted hk, h.among, h.looked, fun p hp => h.shown p (List.mem_filter.mp hp).1⟩,
          by simp⟩
    have hr := hd.1.unlink hx hd.2
    exact ⟨hd.1.journalled, fun _ _ => trivial, hr.journalled, hr⟩

/-- In the second loop every journal says what is wanted. -/
structure Installing (wanted : OrdMap String Entry) (s : Host) : Prop where
  journalled : Journalled s
  among : ∀ iface e, s.journals.find iface = some e → wanted.find iface = some e

theorem install_journalled {x : String × Entry} {active : List String} {s : Host} (hx : wanted.find x.1 = some x.2)
    (h : Installing wanted s) :
    KeepsE (backend fails) Journalled (fun _ s' => Installing wanted s') (fun _ _ => True)
      (install saved dump active x) s := by
  obtain ⟨iface, idx, o⟩ := x
  refine keeps_install (fun temps => h.journalled) (fun _ _ => h) (fun _ _ _ => trivial) (fun _ _ _ => trivial)
    fun _ _ s₁ temps hs₁ => ?_
  -- The journal is there before the qdisc.
  have hi : Installing wanted s₁ := by
    subst hs₁
    refine ⟨h.journalled.journal (fun e hf => ?_) temps, fun iface' e hf => ?_⟩
    · exact Option.some.inj ((h.among iface e hf).symm.trans hx)
    · rw [Host.withTemps_journals, Host.journal_journals, OrdMap.find_insert] at hf
      split at hf
      · next he => exact he ▸ hf ▸ hx
      · exact h.among iface' e hf
  have hfind : s₁.journals.find iface = some (idx, o) := by simp [hs₁]
  have hkernel : s₁.kernel = s.kernel := by rw [hs₁]; rfl
  refine ⟨hi.journalled, fun _ _ => trivial, fun k' hk => ?_⟩
  have hj := hi.journalled.added hfind (hkernel ▸ hk)
  exact ⟨hj, fun _ _ => trivial, hj, hi.among⟩

/-- Cut anywhere and failing anywhere, a call leaves no qdisc of the module without a journal. -/
theorem reconcile_journalled {s : Host} (h : Journalled s) :
    KeepsE (backend fails) Journalled (fun _ _ => True) (fun _ _ => True) (reconcile wanted) s := by
  refine keeps_reconcile (P := fun dump es s₁ => Dropping wanted s.journals dump es s₁)
    (T := fun _ _ _ s₂ => Installing wanted s₂) h (fun _ _ _ h₁ => h₁.journalled) (fun _ _ _ _ h₂ => h₂.journalled)
    (fun _ _ => trivial) (fun _ _ => trivial) (fun dump hdump => ?_) (fun dump x es hsuf s₁ h₁ => ?_)
    (fun _ _ _ _ _ => trivial) (fun dump s₁ dump' h₁ _ => ?_) (fun dump x es hsuf active s₂ h₂ => ?_)
    fun _ _ _ _ => trivial
  · exact ⟨h, fun _ _ hf => hf, fun _ _ hf => .inr (OrdMap.mem_entries.mpr hf), fun p hp => (hdump _).mpr (h p hp).1⟩
  · exact dropStale_journalled (OrdMap.mem_entries.mp (hsuf.subset List.mem_cons_self)) h₁
  · exact ⟨h₁.journalled, fun iface e hf => (h₁.looked iface e hf).resolve_right List.not_mem_nil⟩
  · exact install_journalled (OrdMap.mem_entries.mp (hsuf.subset List.mem_cons_self)) h₂

end call

/-! ## Call after call -/

/-- Between two calls others may change the qdiscs at will; what they delete or alter is
no longer the module's. -/
structure Outside (s s' : Host) : Prop where
  journals : s'.journals = s.journals
  ours : ∀ p ∈ s'.ours, p ∈ s.ours ∧ cake p.1 p.2 ∈ s'.kernel.qdiscs

/-- What any calls can lead to, each with its own `wanted`, cut anywhere and failing anywhere. -/
inductive Reachable : Host → Prop
  | start {s : Host} : s.ours = [] → Reachable s
  | call {s s' : Host} {wanted : OrdMap String Entry} : Reachable s →
      Visits (backend fun _ _ => True) (reconcile wanted).run s s' → Reachable s'
  | outside {s s' : Host} : Reachable s → Outside s s' → Reachable s'

theorem Outside.journalled {s s' : Host} (h : Journalled s) (ho : Outside s s') : Journalled s' := by
  intro p hp
  obtain ⟨hin, hcake⟩ := ho.ours p hp
  exact ⟨hcake, ho.journals ▸ (h p hin).2⟩

/-- **No CAKE qdisc is orphaned.** Wherever the calls were cut or failed, a qdisc the module
added, and nobody deleted or altered since, has a journal with its ifindex and its options. -/
theorem no_orphan {s : Host} (h : Reachable s) : Journalled s := by
  induction h with
  | start hnone =>
    intro p hp
    rw [hnone] at hp
    exact absurd hp List.not_mem_nil
  | call _ hv ih => exact (reconcile_journalled ih).visits hv
  | outside _ ho ih => exact ho.journalled ih

/-- A first qdisc to add. -/
def first : OrdMap String Entry := .insert .empty "wlan0" (2, .insert .empty 2 [125, 0, 0, 0, 0, 0, 0, 0])

theorem no_orphan_added : ∃ s, Reachable s ∧ (2, .insert .empty 2 [125, 0, 0, 0, 0, 0, 0, 0]) ∈ s.ours ∧
    Journalled s := by
  have hrun := runs_machine (reconcile first).run bare
  have hreach : Reachable _ := .call (.start rfl) (.of_runs (hrun.mono (backend_mono fun _ _ _ => trivial)))
  exact ⟨_, hreach, by decide +kernel, no_orphan hreach⟩

end Nfqttl.Qos
