/-
`reconcile` touches no foreign qdisc: what goes is a CAKE root some journal names, or a
default of the kernel's own where one is wanted.
-/
import Nfqttl.QosMachine

namespace Nfqttl.Qos

open Effect

/-- A CAKE root with the module's handle that is, index and options, what a journal says. -/
def Ours (journals : OrdMap String Entry) (q : Qdisc) : Prop :=
  ∃ iface e, journals.find iface = some e ∧ q = cake e.1 e.2

/-- A default root of the kernel at a wanted interface, or a default below it, where no
qdisc below it has a handle. -/
structure Default (wanted : OrdMap String Entry) (k : Kernel) (q : Qdisc) : Prop where
  asked : ∃ iface o, wanted.find iface = some (q.index, o)
  default : ∃ r ∈ k.qdiscs, r.index = q.index ∧ r.parent = root ∧ replaceable r = true ∧
    (q = r ∨ q.parent ≠ root ∧ q.isIngress = false ∧ q.handle = 0)
  below : ∀ c ∈ k.qdiscs, c.index = q.index → c.parent ≠ root → c.isIngress = true ∨ c.handle = 0

theorem replaceable_handle {q : Qdisc} (h : replaceable q = true) : q.handle = 0 := by
  simp only [replaceable, Bool.and_eq_true, beq_iff_eq] at h
  exact h.1

/-! ## What each loop may do to the qdiscs -/

/-- The first loop deletes what journals name; only the kernel's defaults come in place of it. -/
structure Dropped (saved : OrdMap String Entry) (k₀ k : Kernel) : Prop where
  kept : ∀ q ∈ k₀.qdiscs, q ∈ k.qdiscs ∨ Ours saved q
  new : ∀ q ∈ k.qdiscs, q ∈ k₀.qdiscs ∨ q.handle = 0 ∧ (q.parent = root → replaceable q = true) ∧
    ∃ iface o, saved.find iface = some (q.index, o) ∧ cake q.index o ∈ k₀.qdiscs

theorem Dropped.refl {saved : OrdMap String Entry} {k : Kernel} : Dropped saved k k where
  kept _ hq := .inl hq
  new _ hq := .inl hq

/-- What has a handle was there before. -/
theorem Dropped.old {saved : OrdMap String Entry} {k₀ k : Kernel} (h : Dropped saved k₀ k) {q : Qdisc}
    (hq : q ∈ k.qdiscs) (hh : q.handle ≠ 0) : q ∈ k₀.qdiscs :=
  (h.new q hq).resolve_right fun hn => hh hn.1

theorem Dropped.delete {saved : OrdMap String Entry} {k₀ k k' : Kernel} (h : Dropped saved k₀ k) {iface : String}
    {i : Nat} {o : Options} (he : saved.find iface = some (i, o)) (hin : cake i o ∈ k₀.qdiscs)
    (hk : Deleted i k k') : Dropped saved k₀ k' where
  kept q hq := by
    -- The root that goes is the journal's: it has a handle, so it was there from the start.
    obtain ⟨r, hr, hri, hroot, hrh⟩ := hk.was
    have hr₀ := h.old hr (by rw [hrh]; decide)
    obtain rfl : r = cake i o := k₀.oneRoot r hr₀ _ hin hroot rfl hri
    rcases h.kept q hq with hq | hours
    case inr => exact .inr hours
    rcases hk.kept q hq with hq' | ⟨hqi, ⟨hqroot, -⟩ | ⟨hne, hno⟩⟩
    · exact .inl hq'
    · exact .inr ⟨iface, (i, o), he, k.oneRoot q hq _ hr hqroot rfl hqi⟩
    · rw [k.leaf hr rfl rfl hq hqi hne] at hno
      cases hno
  new q hq := by
    rcases hk.new q hq with hq' | ⟨rfl, hh, hrep⟩
    · exact h.new q hq'
    · exact .inr ⟨hh, hrep, iface, o, he, hin⟩

/-- The second loop adds what is wanted; only the kernel's defaults give way to it. -/
structure Planted (wanted : OrdMap String Entry) (k₁ k : Kernel) : Prop where
  kept : ∀ q ∈ k₁.qdiscs, q ∈ k.qdiscs ∨ Default wanted k₁ q
  new : ∀ q ∈ k.qdiscs, q ∈ k₁.qdiscs ∨ Ours wanted q

theorem Planted.refl {wanted : OrdMap String Entry} {k : Kernel} : Planted wanted k k where
  kept _ hq := .inl hq
  new _ hq := .inl hq

theorem Planted.add {wanted : OrdMap String Entry} {k₁ k k' : Kernel} (h : Planted wanted k₁ k) {iface : String}
    {i : Nat} {o : Options} (he : wanted.find iface = some (i, o)) (hplain : k₁.Plain i) (hk : Added i o k k') :
    Planted wanted k₁ k' where
  kept q hq := by
    rcases h.kept q hq with hq' | hdef
    case inr => exact .inr hdef
    rcases hk.kept q hq' with hq' | ⟨r, hr, hri, hroot, hrh, hqr⟩
    · exact .inl hq'
    -- What gives way has no handle, so it is not one of the qdiscs just added.
    have hr₁ : r ∈ k₁.qdiscs := by
      rcases h.new r hr with hr₁ | ⟨-, e, -, rfl⟩
      · exact hr₁
      · cases hrh
    have hqi : q.index = i := by
      rcases hqr with rfl | ⟨hqi, -⟩
      exacts [hri, hqi]
    refine .inr ⟨⟨iface, o, hqi ▸ he⟩, ⟨r, hr₁, hri.trans hqi.symm, hroot, hplain.roots r hr₁ hri hroot, ?_⟩, ?_⟩
    · rcases hqr with heq | ⟨-, hne, hno⟩
      · exact .inl heq
      · exact .inr ⟨hne, hno, (hplain.below q hq hqi hne).resolve_left (by simp [hno])⟩
    · exact fun c hc hci => hplain.below c hc (hci.trans hqi)
  new q hq := by
    rcases hk.new q hq with rfl | hq'
    · exact .inr ⟨iface, (i, o), he, rfl⟩
    · exact h.new q hq'

/-- What the two loops take away, said of the qdiscs there were at first. -/
theorem Dropped.planted {saved wanted : OrdMap String Entry} {k₀ k₁ k : Kernel} (h₁ : Dropped saved k₀ k₁)
    (h₂ : Planted wanted k₁ k) {q : Qdisc} (hq : q ∈ k₀.qdiscs) :
    q ∈ k.qdiscs ∨ Ours saved q ∨ Default wanted k₀ q := by
  rcases h₁.kept q hq with hq₁ | hours
  case inr => exact .inr (.inl hours)
  rcases h₂.kept q hq₁ with hk | hdef
  · exact .inl hk
  obtain ⟨r, hr, hri, hroot, hrep, hqr⟩ := hdef.default
  rcases h₁.new r hr with hr₀ | ⟨-, -, -, o, -, hcake⟩
  · refine .inr (.inr ⟨hdef.asked, ⟨r, hr₀, hri, hroot, hrep, hqr⟩, fun c hc hci hne => ?_⟩)
    rcases h₁.kept c hc with hc₁ | ⟨-, e, -, rfl⟩
    · exact hdef.below c hc₁ hci hne
    · exact absurd rfl hne
  -- The root came in place of a CAKE root, beside which `q` cannot have been.
  rcases hqr with rfl | ⟨hne, hno, -⟩
  · have heq := k₀.oneRoot q hq _ hcake hroot rfl rfl
    have hzero := replaceable_handle hrep
    rw [heq] at hzero
    cases hzero
  · rw [k₀.leaf hcake rfl rfl hq hri.symm hne] at hno
    cases hno

/-! ## The call -/

/-- What a call has left of the qdiscs that were there before. -/
def Untouched (wanted : OrdMap String Entry) (s₀ s : Host) : Prop :=
  ∀ q ∈ s₀.kernel.qdiscs, q ∈ s.kernel.qdiscs ∨ Ours s₀.journals q ∨ Default wanted s₀.kernel q

variable {wanted : OrdMap String Entry}

theorem dropStale_dropped {fails : QosOp → Host → Prop} {s₀ s : Host} {dump : List Qdisc} {x : String × Entry}
    (hx : s₀.journals.find x.1 = some x.2) (hdump : ∀ q, q ∈ dump ↔ q ∈ s₀.kernel.qdiscs)
    (h : Dropped s₀.journals s₀.kernel s.kernel) :
    KeepsE (backend fails) (fun s' => Dropped s₀.journals s₀.kernel s'.kernel)
      (fun _ s' => Dropped s₀.journals s₀.kernel s'.kernel) (fun _ _ => True) (dropStale wanted dump x) s := by
  obtain ⟨iface, idx, o⟩ := x
  refine keeps_dropStale h (fun _ _ => h) (fun _ s₁ hs₁ => ?_) fun _ _ _ => trivial
  have h₁ : Dropped s₀.journals s₀.kernel s₁.kernel := by
    rcases hs₁ with ⟨rfl, -⟩ | ⟨hin, k', hk, rfl⟩
    · exact h
    · exact h.delete hx ((hdump _).mp hin) hk
  exact ⟨h₁, fun _ _ => trivial, h₁, h₁⟩

theorem install_planted {fails : QosOp → Host → Prop} {k₁ : Kernel} {s : Host} {saved : OrdMap String Entry}
    {dump : List Qdisc} {active : List String} {x : String × Entry} (hx : wanted.find x.1 = some x.2)
    (hdump : ∀ q, q ∈ dump ↔ q ∈ k₁.qdiscs) (h : Planted wanted k₁ s.kernel) :
    KeepsE (backend fails) (fun s' => Planted wanted k₁ s'.kernel) (fun _ s' => Planted wanted k₁ s'.kernel)
      (fun _ _ => True) (install saved dump active x) s := by
  obtain ⟨iface, idx, o⟩ := x
  refine keeps_install (fun _ => h) (fun _ _ => h) (fun _ _ _ => trivial) (fun _ _ _ => trivial)
    fun _ hcus s₁ temps hs₁ => ?_
  have h₁ : Planted wanted k₁ s₁.kernel := by rw [hs₁]; exact h
  refine ⟨h₁, fun _ _ => trivial, fun k' hk => ?_⟩
  have h₂ := h.add hx ((custom_eq_false hdump).mp hcus) hk
  exact ⟨h₂, fun _ _ => trivial, h₂⟩

theorem reconcile_untouched {fails : QosOp → Host → Prop} {s : Host} :
    KeepsE (backend fails) (Untouched wanted s) (fun _ _ => True) (fun _ _ => True) (reconcile wanted) s := by
  have hdropped : ∀ s₁ : Host, Dropped s.journals s.kernel s₁.kernel → Untouched wanted s s₁ := fun s₁ h q hq =>
    (h.kept q hq).imp_right .inl
  have hplanted : ∀ (k₁ : Kernel) (s₂ : Host), Dropped s.journals s.kernel k₁ → Planted wanted k₁ s₂.kernel →
      Untouched wanted s s₂ := fun _ _ h₁ h₂ _ hq => h₁.planted h₂ hq
  refine keeps_reconcile
    (P := fun dump _ s₁ => (∀ q, q ∈ dump ↔ q ∈ s.kernel.qdiscs) ∧ Dropped s.journals s.kernel s₁.kernel)
    (T := fun dump _ _ s₂ => ∃ k₁, (∀ q, q ∈ dump ↔ q ∈ k₁.qdiscs) ∧ Dropped s.journals s.kernel k₁ ∧
      Planted wanted k₁ s₂.kernel)
    (fun q hq => .inl hq) (fun _ _ s₁ h => hdropped s₁ h.2) (fun _ _ _ s₂ ⟨k₁, _, h₁, h₂⟩ => hplanted k₁ s₂ h₁ h₂)
    (fun _ _ => trivial) (fun _ _ => trivial) (fun dump hdump => ⟨hdump, .refl⟩)
    (fun dump x es hsuf s₁ h₁ => ?_) (fun _ _ _ _ _ => trivial)
    (fun dump s₁ dump' h₁ hdump' => ⟨s₁.kernel, hdump', h₁.2, .refl⟩)
    (fun dump x es hsuf active s₂ h₂ => ?_) fun _ _ _ _ => trivial
  · obtain ⟨hdump, hd⟩ := h₁
    have hx := OrdMap.mem_entries.mp (hsuf.subset List.mem_cons_self)
    exact (dropStale_dropped hx hdump hd).mono (fun s' => hdropped s') (fun _ s' _ h' => ⟨hdump, h'⟩)
      fun _ _ _ hf => hf
  · obtain ⟨k₁, hdump, hd, hp⟩ := h₂
    have hx := OrdMap.mem_entries.mp (hsuf.subset List.mem_cons_self)
    exact (install_planted hx hdump hp).mono (fun s' => hplanted k₁ s' hd) (fun _ s' _ h' => ⟨k₁, hdump, hd, h'⟩)
      fun _ _ _ hf => hf

/-- **`reconcile` never touches a foreign qdisc.** Whatever fails and wherever it is cut, a
qdisc that was there before is there after, unless it is a CAKE root a journal names or the
kernel's own default at a wanted interface. A root with the module's handle and other
options than its journal says is there after. -/
theorem foreign_untouched {s s' : Host} (hv : Visits (backend fun _ _ => True) (reconcile wanted).run s s')
    {q : Qdisc} (hq : q ∈ s.kernel.qdiscs) :
    (q ∈ s'.kernel.qdiscs ∨ Ours s.journals q ∨ Default wanted s.kernel q) ∧
      (q.parent = root → q.handle = handle → (∀ iface, s.journals.find iface ≠ some (q.index, q.options)) →
        q ∈ s'.kernel.qdiscs) := by
  have h := reconcile_untouched.visits hv q hq
  refine ⟨h, fun hroot hhandle hnone => ?_⟩
  rcases h with h | ⟨iface, e, hfind, rfl⟩ | hdef
  · exact h
  · exact absurd hfind (hnone iface)
  · obtain ⟨r, -, -, -, hrep, rfl | ⟨hne, -⟩⟩ := hdef.default
    · rw [replaceable_handle hrep] at hhandle
      cases hhandle
    · exact absurd hroot hne

/-- The CAKE qdisc of the journal `rmnet_data2`, with an option changed since. -/
def altered : Host :=
  { bare with
    kernel := Kernel.empty.plant 2 (.insert .empty 6 [18, 0, 0, 0])
    journals := .insert .empty "rmnet_data2" (2, .empty) }

/-- Stopping leaves the changed qdisc. -/
theorem foreign_untouched_altered : ∃ s',
    Runs (backend fun _ _ => True) (reconcile .empty).run altered (.ok "disabled") s' ∧
    cake 2 (.insert .empty 6 [18, 0, 0, 0]) ∈ s'.kernel.qdiscs := by
  have hrun := runs_machine (reconcile .empty).run altered
  have hok : ((reconcile .empty).run.eval machine altered).1 = .ok "disabled" := by decide +kernel
  rw [hok] at hrun
  have hrun := hrun.mono (backend_mono fun _ _ _ => trivial)
  refine ⟨_, hrun, (foreign_untouched (.of_runs hrun) List.mem_cons_self).2 rfl rfl fun iface => ?_⟩
  rw [altered, OrdMap.find_insert]
  split
  · decide
  · simp

end Nfqttl.Qos
