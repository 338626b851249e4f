/-
The backend when nothing fails: what each operation still refuses, and a kernel and a
state directory to run `reconcile` on.
-/
import Nfqttl.Qos

namespace Nfqttl.Qos

open Effect

/-- What a backend that does not fail still refuses: to replace a root with a handle, to
delete a root that is not there, to move or remove a file that is not there. -/
def blocked : QosOp → Host → Prop
  | .add i _, s => ∃ r ∈ s.kernel.qdiscs, r.index = i ∧ r.parent = root ∧ r.handle ≠ 0
  | .delete i, s => ∀ r ∈ s.kernel.qdiscs, r.index = i → r.parent = root → r.handle ≠ handle
  | .rename iface, s => s.temps.find iface = none
  | .removeFile iface, s => s.journals.find iface = none
  | _, _ => False

instance (i : Nat) (o : Options) (s : Host) : Decidable (blocked (.add i o) s) :=
  inferInstanceAs (Decidable (∃ r ∈ s.kernel.qdiscs, _))

instance (i : Nat) (s : Host) : Decidable (blocked (.delete i) s) :=
  inferInstanceAs (Decidable (∀ r ∈ s.kernel.qdiscs, _))

def Kernel.empty : Kernel := ⟨[], fun _ h => absurd h List.not_mem_nil, fun _ h => absurd h List.not_mem_nil⟩

/-- A host without qdiscs or journals. -/
def bare : Host := ⟨.empty, .empty, .empty, [], []⟩

/-- A file that was written can be moved. -/
theorem faulty_of_journalFails {fails : QosOp → Host → Prop} {faulty : Prop}
    (hfails : ∀ op s, fails op s → blocked op s ∨ faulty) {iface : String} {i : Nat} {o : Options} {s : Host}
    (hf : JournalFails fails iface i o s) : faulty := by
  rcases hf with hf | hf | ⟨temps, hfind, hf⟩
  · exact (hfails _ _ hf).resolve_left id
  · exact (hfails _ _ hf).resolve_left id
  · refine (hfails _ _ hf).resolve_left fun hblocked => ?_
    cases (show some (i, o) = none from hfind.symm.trans hblocked)

theorem not_journalFails {iface : String} {i : Nat} {o : Options} {s : Host} :
    ¬ JournalFails blocked iface i o s := faulty_of_journalFails fun _ _ => .inl

/-- Without the root of an interface and what hangs below it. -/
def Kernel.sweep (k : Kernel) (i : Nat) : Kernel where
  qdiscs := k.qdiscs.filter fun q => decide (q.index = i → q.parent ≠ root ∧ q.isIngress = true)
  oneRoot q hq r hr := k.oneRoot q (List.mem_filter.mp hq).1 r (List.mem_filter.mp hr).1
  hung c hc hne hno := by
    obtain ⟨hc, hkeep⟩ := List.mem_filter.mp hc
    have hci : c.index ≠ i := fun hi => by simp [(of_decide_eq_true hkeep hi).2] at hno
    obtain ⟨r, hr, hri, hroot, hkind⟩ := k.hung c hc hne hno
    exact ⟨r, List.mem_filter.mpr ⟨hr, by simp [hri, hci]⟩, hri, hroot, hkind⟩

theorem Kernel.mem_sweep {k : Kernel} {i : Nat} {q : Qdisc} : q ∈ (k.sweep i).qdiscs ↔
    q ∈ k.qdiscs ∧ (q.index = i → q.parent ≠ root ∧ q.isIngress = true) := by
  rw [Kernel.sweep, List.mem_filter, decide_eq_true_eq]

/-- With a CAKE root in place of the root of an interface. -/
def Kernel.plant (k : Kernel) (i : Nat) (o : Options) : Kernel where
  qdiscs := cake i o :: (k.sweep i).qdiscs
  oneRoot q hq r hr hqr hrr hi := by
    have hno : ∀ p ∈ (k.sweep i).qdiscs, p.parent = root → p.index ≠ i := fun p hp hroot hi =>
      ((Kernel.mem_sweep.mp hp).2 hi).1 hroot
    rcases List.mem_cons.mp hq with rfl | hq <;> rcases List.mem_cons.mp hr with rfl | hr
    · rfl
    · exact absurd hi.symm (hno r hr hrr)
    · exact absurd hi (hno q hq hqr)
    · exact (k.sweep i).oneRoot q hq r hr hqr hrr hi
  hung c hc hne hno := by
    rcases List.mem_cons.mp hc with rfl | hc
    · exact absurd rfl hne
    · obtain ⟨r, hr, h⟩ := (k.sweep i).hung c hc hne hno
      exact ⟨r, List.mem_cons_of_mem _ hr, h⟩

theorem Kernel.plant_added {k : Kernel} {i : Nat} {o : Options}
    (hfree : ∀ r ∈ k.qdiscs, r.index = i → r.parent = root → r.handle = 0) : Added i o k (k.plant i o) where
  free := hfree
  here := List.mem_cons_self
  new q hq := (List.mem_cons.mp hq).imp id fun hq => (Kernel.mem_sweep.mp hq).1
  kept q hq := by
    by_cases hi : q.index = i
    case neg => exact .inl (List.mem_cons_of_mem _ (Kernel.mem_sweep.mpr ⟨hq, fun h => absurd h hi⟩))
    by_cases hroot : q.parent = root
    · exact .inr ⟨q, hq, hi, hroot, hfree q hq hi hroot, .inl rfl⟩
    by_cases hin : q.isIngress = true
    · exact .inl (List.mem_cons_of_mem _ (Kernel.mem_sweep.mpr ⟨hq, fun _ => ⟨hroot, hin⟩⟩))
    · have hno : q.isIngress = false := by simpa using hin
      obtain ⟨r, hr, hri, hrr, -⟩ := k.hung q hq hroot hno
      exact .inr ⟨r, hr, hri.trans hi, hrr, hfree r hr (hri.trans hi) hrr, .inr ⟨hi, hroot, hno⟩⟩

theorem Kernel.sweep_deleted {k : Kernel} {i : Nat}
    (hwas : ∃ r ∈ k.qdiscs, r.index = i ∧ r.parent = root ∧ r.handle = handle) : Deleted i k (k.sweep i) where
  was := hwas
  gone r hr hi hroot := absurd hroot ((Kernel.mem_sweep.mp hr).2 hi).1
  new q hq := .inl (Kernel.mem_sweep.mp hq).1
  kept q hq := by
    by_cases hi : q.index = i
    case neg => exact .inl (Kernel.mem_sweep.mpr ⟨hq, fun h => absurd h hi⟩)
    by_cases hroot : q.parent = root
    · obtain ⟨r, hr, hri, hrr, hrh⟩ := hwas
      have heq := k.oneRoot q hq r hr hroot hrr (hi.trans hri.symm)
      exact .inr ⟨hi, .inl ⟨hroot, heq ▸ hrh⟩⟩
    by_cases hin : q.isIngress = true
    · exact .inl (Kernel.mem_sweep.mpr ⟨hq, fun _ => ⟨hroot, hin⟩⟩)
    · exact .inr ⟨hi, .inr ⟨hroot, by simpa using hin⟩⟩

/-- The backend that does what it is asked unless it is blocked, and brings back no default. -/
def machine : Handler QosSig Host
  | .journals, s => (.ok s.journals, s)
  | .roots, s => (.ok s.kernel.qdiscs, s)
  | .add i o, s =>
    if blocked (.add i o) s then (.error (bad "busy"), s) else (.ok (), s.added i o (s.kernel.plant i o))
  | .delete i, s =>
    if blocked (.delete i) s then (.error (bad "absent"), s) else (.ok (), s.deleted i (s.kernel.sweep i))
  | .ensureState, s => (.ok (), s)
  | .writeTemp iface i o, s => (.ok (), s.withTemps (s.temps.insert iface (i, o)))
  | .rename iface, s =>
    match s.temps.find iface with
    | none => (.error (bad "absent"), s)
    | some e => (.ok (), (s.journal iface e).withTemps (s.temps.erase iface))
  | .removeFile iface, s =>
    if (s.journals.find iface).isSome then (.ok (), s.unlink iface) else (.error (bad "absent"), s)

theorem machine_backend (op : QosOp) (s : Host) : backend blocked op s (machine op s).1 (machine op s).2 := by
  cases op with
  | journals => exact ⟨rfl, .inl rfl⟩
  | roots => exact ⟨rfl, .inl ⟨_, rfl, fun _ => Iff.rfl⟩⟩
  | add i o =>
    by_cases hb : blocked (.add i o) s
    · simp only [machine, if_pos hb]
      exact .inr ⟨hb, ⟨_, rfl⟩, rfl⟩
    · simp only [machine, if_neg hb]
      exact .inl ⟨rfl, _, Kernel.plant_added (by simpa [blocked] using hb), rfl⟩
  | delete i =>
    by_cases hb : blocked (.delete i) s
    · simp only [machine, if_pos hb]
      exact .inr ⟨hb, ⟨_, rfl⟩, rfl⟩
    · simp only [machine, if_neg hb]
      exact .inl ⟨rfl, _, Kernel.sweep_deleted (by simpa [blocked] using hb), rfl⟩
  | ensureState => exact ⟨rfl, .inl rfl⟩
  | writeTemp iface i o => exact .inl ⟨rfl, rfl⟩
  | rename iface =>
    cases hf : s.temps.find iface with
    | none => simpa only [machine, hf] using .inr ⟨hf, ⟨_, rfl⟩, rfl⟩
    | some e => simpa only [machine, hf] using .inl ⟨rfl, e, hf, rfl⟩
  | removeFile iface =>
    by_cases hs : (s.journals.find iface).isSome = true
    · simp only [machine, if_pos hs]
      exact .inl ⟨rfl, hs, rfl⟩
    · simp only [machine, if_neg hs]
      exact .inr ⟨by simpa [blocked] using hs, ⟨_, rfl⟩, rfl⟩

/-- Where nothing fails every program runs to its end. -/
theorem runs_machine {α : Type} (p : Prog QosSig α) (s : Host) :
    Runs (backend blocked) p s (p.eval machine s).1 (p.eval machine s).2 := by
  refine (Prog.runs_iff_eval.mpr rfl).mono ?_
  intro op s a s' h
  obtain ⟨rfl, rfl⟩ := Prod.mk.inj (show machine op s = (a, s') from h)
  exact machine_backend op s

end Nfqttl.Qos
