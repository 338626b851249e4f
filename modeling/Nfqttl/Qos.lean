/-
`qos.rs`: the optional CAKE qdiscs, and the journals that say which of them are the
module's own.

`reconcile` asks the kernel and the file system for one thing after the other; any
of them may fail, and the daemon may be killed between any two. A journal stands here
for the entry its text gives back.
-/
import Mathlib.Tactic.Simps.Basic
import Nfqttl.Lib.OrdMap
import Nfqttl.Lib.Prog
import Nfqttl.Util

namespace Nfqttl.Qos

open Effect

def root : Nat := 0xffffffff
def handle : Nat := 0x7e100000

/-- The options of a CAKE qdisc, by attribute type. -/
abbrev Options := OrdMap Nat (List UInt8)

structure Qdisc where
  index : Nat
  parent : Nat
  handle : Nat
  kind : String
  options : Options
  deriving DecidableEq

/-- What a journal records: the ifindex and the options of a CAKE qdisc. -/
abbrev Entry := Nat × Options

def bad (text : String) : IoError := .new .invalidData text

/-! ## What `reconcile` asks for -/

inductive QosOp
  | journals
  | roots
  | add (index : Nat) (o : Options)
  | delete (index : Nat)
  | ensureState
  | writeTemp (iface : String) (index : Nat) (o : Options)
  | rename (iface : String)
  | removeFile (iface : String)

@[reducible] def QosSig : Sig where
  Op := QosOp
  Ans := fun
    | .journals => Except IoError (OrdMap String Entry)
    | .roots => Except IoError (List Qdisc)
    | _ => Except IoError Unit

abbrev QosProg := ExceptT IoError (Prog QosSig)

def journals : QosProg (OrdMap String Entry) := .mk (.op QosOp.journals .ret)
def roots : QosProg (List Qdisc) := .mk (.op QosOp.roots .ret)
def add (index : Nat) (o : Options) : QosProg Unit := .mk (.op (QosOp.add index o) .ret)
def delete (index : Nat) : QosProg Unit := .mk (.op (QosOp.delete index) .ret)
def ensureState : QosProg Unit := .mk (.op QosOp.ensureState .ret)
def writeTemp (iface : String) (index : Nat) (o : Options) : QosProg Unit :=
  .mk (.op (QosOp.writeTemp iface index o) .ret)
def rename (iface : String) : QosProg Unit := .mk (.op (QosOp.rename iface) .ret)
def removeFile (iface : String) : QosProg Unit := .mk (.op (QosOp.removeFile iface) .ret)

/-! ## `reconcile` -/

def owned (q : Qdisc) (index : Nat) (o : Options) : Bool :=
  q.index == index && q.parent == root && q.handle == handle && q.kind == "cake" && q.options == o

def replaceable (q : Qdisc) : Bool :=
  q.handle == 0 && ["noqueue", "pfifo_fast", "fq", "fq_codel", "mq"].contains q.kind

/-- The kinds that are attached beside the root qdisc. -/
def Qdisc.isIngress (q : Qdisc) : Bool := ["ingress", "clsact"].contains q.kind

def writeJournal (iface : String) (index : Nat) (o : Options) : QosProg Unit := do
  ensureState
  writeTemp iface index o
  rename iface

/-- The first loop, for one journal: keep what is wanted and there, else remove it. -/
def dropStale (wanted : OrdMap String Entry) (dump : List Qdisc) : String × Entry → QosProg Unit
  | (iface, idx, o) =>
    if wanted.find iface = some (idx, o) ∧ dump.any (owned · idx o) then pure ()
    else do
      if dump.any (owned · idx o) then delete idx else pure ()
      removeFile iface

def rootOf (dump : List Qdisc) (idx : Nat) : Option Qdisc :=
  dump.find? fun q => q.index == idx && q.parent == root

/-- The interface has a root that is not the kernel's own, or qdiscs below it. Built-in
roots may be missing from the dump. -/
def custom (dump : List Qdisc) (idx : Nat) : Bool :=
  (rootOf dump idx).any (!replaceable ·) ||
    dump.any fun q => q.index == idx && q.parent != root && !q.isIngress && q.handle != 0

/-- The second loop, for one wanted interface: keep what is there, else own it and add it. -/
def install (saved : OrdMap String Entry) (dump : List Qdisc) (active : List String) :
    String × Entry → QosProg (List String)
  | (iface, idx, o) =>
    if saved.find iface = some (idx, o) ∧ (rootOf dump idx).any (owned · idx o) then pure (active ++ [iface])
    else if custom dump idx then throw (bad (iface ++ ": custom qdisc preserved"))
    else do
      writeJournal iface idx o
      add idx o
      let check ← roots
      if check.any (owned · idx o) then pure (active ++ [iface])
      else throw (bad "CAKE verification failed")

/-- What `reconcile` answers with. -/
def status (active : List String) : String :=
  if active.isEmpty then "disabled" else "CAKE: " ++ ", ".intercalate active

def reconcile (wanted : OrdMap String Entry) : QosProg String := do
  let saved ← journals
  if saved.isEmpty && wanted.isEmpty then return "disabled"
  else
    let dump ← roots
    saved.entries.forM (dropStale wanted dump)
    -- Deletion brings back the kernel's default qdisc, so the dump is taken again.
    let dump ← if saved.isEmpty then pure dump else roots
    let active ← wanted.entries.foldlM (install saved dump) []
    return status active

/-! ## The kernel and the state directory -/

/-- The CAKE qdisc the module installs. -/
def cake (index : Nat) (o : Options) : Qdisc := ⟨index, root, handle, "cake", o⟩

theorem owned_iff {q : Qdisc} {index : Nat} {o : Options} : owned q index o = true ↔ q = cake index o := by
  obtain ⟨i, p, h, k, os⟩ := q
  simp [owned, cake, and_assoc]

theorem cake_handle (index : Nat) (o : Options) : (cake index o).handle ≠ 0 := (by decide : handle ≠ 0)

/-- The qdiscs of the kernel that a dump shows: each interface has one root, and what is
neither a root nor attached beside one hangs below a root that is there too. That root is
not CAKE, which is classless; nor is it one that dumps leave out, which are classless too. -/
structure Kernel where
  qdiscs : List Qdisc
  oneRoot : ∀ q ∈ qdiscs, ∀ r ∈ qdiscs, q.parent = root → r.parent = root → q.index = r.index → q = r
  hung : ∀ c ∈ qdiscs, c.parent ≠ root → c.isIngress = false →
    ∃ r ∈ qdiscs, r.index = c.index ∧ r.parent = root ∧ r.kind ≠ "cake"

/-- A CAKE root has nothing but `ingress` and `clsact` beside it. -/
theorem Kernel.leaf (k : Kernel) {r c : Qdisc} (hr : r ∈ k.qdiscs) (hroot : r.parent = root) (hkind : r.kind = "cake")
    (hc : c ∈ k.qdiscs) (hi : c.index = r.index) (hne : c.parent ≠ root) : c.isIngress = true := by
  by_contra hno
  obtain ⟨r', hr', hi', hroot', hkind'⟩ := k.hung c hc hne (by simpa using hno)
  have heq := k.oneRoot r' hr' r hr hroot' hroot (hi'.trans hi)
  exact hkind' (heq ▸ hkind)

/-- A successful change of the kernel's qdiscs. -/
inductive Act
  | add (index : Nat) (o : Options)
  | delete (index : Nat)
  deriving DecidableEq

/-- What `reconcile` works on. Two fields only record what happened: `ours`, the CAKE
qdiscs the module added and that were neither deleted nor altered since, and `acts`,
the changes made. -/
structure Host where
  kernel : Kernel
  journals : OrdMap String Entry
  temps : OrdMap String Entry
  ours : List Entry
  acts : List Act

@[simps] def Host.deleted (s : Host) (i : Nat) (k' : Kernel) : Host :=
  { s with kernel := k', ours := s.ours.filter (·.1 ≠ i), acts := s.acts ++ [.delete i] }

@[simps] def Host.added (s : Host) (i : Nat) (o : Options) (k' : Kernel) : Host :=
  { s with kernel := k', ours := (i, o) :: s.ours.filter (·.1 ≠ i), acts := s.acts ++ [.add i o] }

@[simps] def Host.unlink (s : Host) (iface : String) : Host := { s with journals := s.journals.erase iface }

@[simps] def Host.journal (s : Host) (iface : String) (e : Entry) : Host :=
  { s with journals := s.journals.insert iface e }

@[simps] def Host.withTemps (s : Host) (temps : OrdMap String Entry) : Host := { s with temps := temps }

/-- What a successful `add` may make of the qdiscs: the new root replaces at most a
root with handle 0 and what hangs off it. -/
structure Added (index : Nat) (o : Options) (k k' : Kernel) : Prop where
  free : ∀ r ∈ k.qdiscs, r.index = index → r.parent = root → r.handle = 0
  here : cake index o ∈ k'.qdiscs
  new : ∀ q ∈ k'.qdiscs, q = cake index o ∨ q ∈ k.qdiscs
  kept : ∀ q ∈ k.qdiscs, q ∈ k'.qdiscs ∨ ∃ r ∈ k.qdiscs, r.index = index ∧ r.parent = root ∧ r.handle = 0 ∧
    (q = r ∨ q.index = index ∧ q.parent ≠ root ∧ q.isIngress = false)

/-- What a successful `delete` may make of the qdiscs: the root with the module's handle
goes with what hangs below it, and the kernel's default, with handle 0, may come back. -/
structure Deleted (index : Nat) (k k' : Kernel) : Prop where
  was : ∃ r ∈ k.qdiscs, r.index = index ∧ r.parent = root ∧ r.handle = handle
  gone : ∀ r ∈ k'.qdiscs, r.index = index → r.parent = root → r.handle ≠ handle
  new : ∀ q ∈ k'.qdiscs, q ∈ k.qdiscs ∨ q.index = index ∧ q.handle = 0 ∧ (q.parent = root → replaceable q = true)
  kept : ∀ q ∈ k.qdiscs, q ∈ k'.qdiscs ∨ q.index = index ∧
    (q.parent = root ∧ q.handle = handle ∨ q.parent ≠ root ∧ q.isIngress = false)

/-- What each operation may do: its work, or, where `fails` allows it, end in any error
and without effect (of a file half written only the temporary name knows). -/
def backend (fails : QosOp → Host → Prop) : Sem QosSig Host := fun op =>
  match op with
  | .journals => fun s a s' => s' = s ∧ (a = .ok s.journals ∨ fails .journals s ∧ ∃ e, a = .error e)
  | .roots => fun s a s' => s' = s ∧
    ((∃ dump, a = .ok dump ∧ ∀ q, q ∈ dump ↔ q ∈ s.kernel.qdiscs) ∨ fails .roots s ∧ ∃ e, a = .error e)
  | .add i o => fun s a s' =>
    (a = .ok () ∧ ∃ k', Added i o s.kernel k' ∧ s' = s.added i o k') ∨
    (fails (.add i o) s ∧ (∃ e, a = .error e) ∧ s' = s)
  | .delete i => fun s a s' =>
    (a = .ok () ∧ ∃ k', Deleted i s.kernel k' ∧ s' = s.deleted i k') ∨
    (fails (.delete i) s ∧ (∃ e, a = .error e) ∧ s' = s)
  | .ensureState => fun s a s' => s' = s ∧ (a = .ok () ∨ fails .ensureState s ∧ ∃ e, a = .error e)
  | .writeTemp iface i o => fun s a s' =>
    (a = .ok () ∧ s' = s.withTemps (s.temps.insert iface (i, o))) ∨
    (fails (.writeTemp iface i o) s ∧ (∃ e, a = .error e) ∧ s' = s.withTemps (s.temps.erase iface))
  | .rename iface => fun s a s' =>
    (a = .ok () ∧ ∃ e, s.temps.find iface = some e ∧
      s' = (s.journal iface e).withTemps (s.temps.erase iface)) ∨
    (fails (.rename iface) s ∧ (∃ e, a = .error e) ∧ s' = s)
  | .removeFile iface => fun s a s' =>
    (a = .ok () ∧ (s.journals.find iface).isSome ∧ s' = s.unlink iface) ∨
    (fails (.removeFile iface) s ∧ (∃ e, a = .error e) ∧ s' = s)

theorem backend_mono {fails fails' : QosOp → Host → Prop} (h : ∀ op s, fails op s → fails' op s) (op : QosOp)
    (s : Host) (a : QosSig.Ans op) (s' : Host) (hb : backend fails op s a s') : backend fails' op s a s' := by
  cases op with
  | journals => exact hb.imp_right (.imp_right (.imp_left (h _ s)))
  | roots => exact hb.imp_right (.imp_right (.imp_left (h _ s)))
  | add i o => exact hb.imp_right (.imp_left (h _ s))
  | delete i => exact hb.imp_right (.imp_left (h _ s))
  | ensureState => exact hb.imp_right (.imp_right (.imp_left (h _ s)))
  | writeTemp iface i o => exact hb.imp_right (.imp_left (h _ s))
  | rename iface => exact hb.imp_right (.imp_left (h _ s))
  | removeFile iface => exact hb.imp_right (.imp_left (h _ s))

/-! ## One operation at a time -/

section rules
variable {fails : QosOp → Host → Prop} {I : Host → Prop} {F : IoError → Host → Prop} {s : Host}

theorem keeps_journals {Q : OrdMap String Entry → Host → Prop} (hI : I s) (hF : fails .journals s → ∀ e, F e s)
    (hQ : Q s.journals s) : KeepsE (backend fails) I Q F journals s := by
  refine ⟨hI, ?_⟩
  intro a s' ⟨hs, h⟩
  subst hs
  rcases h with rfl | ⟨hf, e, rfl⟩
  exacts [⟨hI, hQ⟩, ⟨hI, hF hf e⟩]

theorem keeps_roots {Q : List Qdisc → Host → Prop} (hI : I s) (hF : fails .roots s → ∀ e, F e s)
    (hQ : ∀ dump, (∀ q, q ∈ dump ↔ q ∈ s.kernel.qdiscs) → Q dump s) :
    KeepsE (backend fails) I Q F roots s := by
  refine ⟨hI, ?_⟩
  intro a s' ⟨hs, h⟩
  subst hs
  rcases h with ⟨dump, rfl, hdump⟩ | ⟨hf, e, rfl⟩
  exacts [⟨hI, hQ dump hdump⟩, ⟨hI, hF hf e⟩]

variable {Q : Unit → Host → Prop}

theorem keeps_add {i : Nat} {o : Options} (hI : I s) (hF : fails (.add i o) s → ∀ e, F e s)
    (hQ : ∀ k', Added i o s.kernel k' → I (s.added i o k') ∧ Q () (s.added i o k')) :
    KeepsE (backend fails) I Q F (add i o) s := by
  refine ⟨hI, ?_⟩
  intro a s' h
  rcases h with ⟨rfl, k', hk, rfl⟩ | ⟨hf, ⟨e, rfl⟩, rfl⟩
  exacts [hQ k' hk, ⟨hI, hF hf e⟩]

theorem keeps_delete {i : Nat} (hI : I s) (hF : fails (.delete i) s → ∀ e, F e s)
    (hQ : ∀ k', Deleted i s.kernel k' → I (s.deleted i k') ∧ Q () (s.deleted i k')) :
    KeepsE (backend fails) I Q F (delete i) s := by
  refine ⟨hI, ?_⟩
  intro a s' h
  rcases h with ⟨rfl, k', hk, rfl⟩ | ⟨hf, ⟨e, rfl⟩, rfl⟩
  exacts [hQ k' hk, ⟨hI, hF hf e⟩]

theorem keeps_removeFile {iface : String} (hI : I s) (hF : fails (.removeFile iface) s → ∀ e, F e s)
    (hQ : I (s.unlink iface) ∧ Q () (s.unlink iface)) :
    KeepsE (backend fails) I Q F (removeFile iface) s := by
  refine ⟨hI, ?_⟩
  intro a s' h
  rcases h with ⟨rfl, -, rfl⟩ | ⟨hf, ⟨e, rfl⟩, rfl⟩
  exacts [hQ, ⟨hI, hF hf e⟩]

/-- A failure of one of the three steps of `write_journal`. -/
def JournalFails (fails : QosOp → Host → Prop) (iface : String) (i : Nat) (o : Options) (s : Host) : Prop :=
  fails .ensureState s ∨ fails (.writeTemp iface i o) s ∨
    ∃ temps : OrdMap String Entry, temps.find iface = some (i, o) ∧ fails (.rename iface) (s.withTemps temps)

/-- `write_journal` changes temporary files, then puts the entry in place at once. -/
theorem keeps_writeJournal {iface : String} {i : Nat} {o : Options} (hI : ∀ temps, I (s.withTemps temps))
    (hF : JournalFails fails iface i o s → ∀ temps e, F e (s.withTemps temps))
    (hQ : ∀ temps, I ((s.journal iface (i, o)).withTemps temps) ∧
      Q () ((s.journal iface (i, o)).withTemps temps)) :
    KeepsE (backend fails) I Q F (writeJournal iface i o) s := by
  unfold writeJournal
  refine keepsE_bind.mpr ⟨hI s.temps, ?_⟩
  intro a s' ⟨hs, h⟩
  subst hs
  rcases h with rfl | ⟨hf, e, rfl⟩
  case inr => exact ⟨hI s'.temps, hF (.inl hf) s'.temps e⟩
  refine ⟨hI s'.temps, keepsE_bind.mpr ⟨hI s'.temps, ?_⟩⟩
  intro a s₁ h
  rcases h with ⟨rfl, rfl⟩ | ⟨hf, ⟨e, rfl⟩, rfl⟩
  case inr => exact ⟨hI _, hF (.inr (.inl hf)) _ e⟩
  refine ⟨hI _, hI _, ?_⟩
  intro a s₂ h
  rcases h with ⟨rfl, e, he, rfl⟩ | ⟨hf, ⟨e, rfl⟩, rfl⟩
  · obtain rfl : (i, o) = e := by simpa using he
    exact hQ _
  · exact ⟨hI _, hF (.inr (.inr ⟨_, by simp, hf⟩)) _ e⟩

/-! ## The rounds of the two loops -/

theorem any_owned {dump : List Qdisc} {i : Nat} {o : Options} :
    dump.any (owned · i o) = true ↔ cake i o ∈ dump := by
  simp [List.any_eq_true, owned_iff]

theorem rootOf_some {k : Kernel} {dump : List Qdisc} (hdump : ∀ q, q ∈ dump ↔ q ∈ k.qdiscs) {i : Nat} {r : Qdisc} :
    rootOf dump i = some r ↔ r ∈ k.qdiscs ∧ r.index = i ∧ r.parent = root := by
  constructor
  · intro h
    have hr := List.find?_some h
    simp only [Bool.and_eq_true, beq_iff_eq] at hr
    exact ⟨(hdump r).mp (List.mem_of_find?_eq_some h), hr⟩
  · intro ⟨hr, hi, hroot⟩
    cases hf : rootOf dump i with
    | none => simpa [hi, hroot] using List.find?_eq_none.mp hf r ((hdump r).mpr hr)
    | some r' =>
      have hr' := List.find?_some hf
      simp only [Bool.and_eq_true, beq_iff_eq] at hr'
      have hin := (hdump r').mp (List.mem_of_find?_eq_some hf)
      rw [k.oneRoot r' hin r hr hr'.2 hroot (hr'.1.trans hi.symm)]

theorem any_rootOf {k : Kernel} {dump : List Qdisc} (hdump : ∀ q, q ∈ dump ↔ q ∈ k.qdiscs) {i : Nat} {o : Options} :
    (rootOf dump i).any (owned · i o) = true ↔ cake i o ∈ k.qdiscs := by
  rw [Option.any_eq_true]
  constructor
  · intro ⟨r, hr, hown⟩
    exact owned_iff.mp hown ▸ ((rootOf_some hdump).mp hr).1
  · intro hin
    exact ⟨_, (rootOf_some hdump).mpr ⟨hin, rfl, rfl⟩, owned_iff.mpr rfl⟩

/-- An interface is not custom when its root, if it has one, is the kernel's own, and
what hangs below it has no handle. -/
structure Kernel.Plain (k : Kernel) (i : Nat) : Prop where
  roots : ∀ r ∈ k.qdiscs, r.index = i → r.parent = root → replaceable r = true
  below : ∀ c ∈ k.qdiscs, c.index = i → c.parent ≠ root → c.isIngress = true ∨ c.handle = 0

theorem custom_eq_false {k : Kernel} {dump : List Qdisc} (hdump : ∀ q, q ∈ dump ↔ q ∈ k.qdiscs) {i : Nat} :
    custom dump i = false ↔ k.Plain i := by
  have hroot : (rootOf dump i).any (!replaceable ·) = false ↔
      ∀ r ∈ k.qdiscs, r.index = i → r.parent = root → replaceable r = true := by
    cases hf : rootOf dump i with
    | none =>
      have hno : ∀ r ∈ k.qdiscs, r.index = i → r.parent ≠ root := by
        intro r hr hi hroot
        rw [(rootOf_some hdump).mpr ⟨hr, hi, hroot⟩] at hf
        cases hf
      exact ⟨fun _ r hr hi hroot => absurd hroot (hno r hr hi), fun _ => rfl⟩
    | some r =>
      obtain ⟨hr, hi, hroot⟩ := (rootOf_some hdump).mp hf
      rw [Option.any_some, Bool.not_eq_false']
      constructor
      · intro h r' hr' hi' hroot'
        rwa [k.oneRoot r' hr' r hr hroot' hroot (hi'.trans hi.symm)]
      · intro h
        exact h r hr hi hroot
  have hbelow : (dump.any fun q => q.index == i && q.parent != root && !q.isIngress && q.handle != 0) = false ↔
      ∀ c ∈ k.qdiscs, c.index = i → c.parent ≠ root → c.isIngress = true ∨ c.handle = 0 := by
    simp only [List.any_eq_false, hdump, Bool.and_eq_true, beq_iff_eq, bne_iff_ne, Bool.not_eq_true']
    grind
  rw [custom, Bool.or_eq_false_iff, hroot, hbelow]
  exact ⟨fun ⟨h₁, h₂⟩ => ⟨h₁, h₂⟩, fun h => ⟨h.roots, h.below⟩⟩

/-- A round of the first loop keeps the journal, or removes it, the qdisc before it. -/
theorem keeps_dropStale {wanted : OrdMap String Entry} {dump : List Qdisc} {iface : String} {idx : Nat} {o : Options}
    (hI : I s) (hkeep : wanted.find iface = some (idx, o) → cake idx o ∈ dump → Q () s)
    (hremove : ¬ (wanted.find iface = some (idx, o) ∧ cake idx o ∈ dump) →
      ∀ s₁, (s₁ = s ∧ cake idx o ∉ dump ∨ cake idx o ∈ dump ∧ ∃ k', Deleted idx s.kernel k' ∧ s₁ = s.deleted idx k') →
      I s₁ ∧ (fails (.removeFile iface) s₁ → ∀ e, F e s₁) ∧ I (s₁.unlink iface) ∧ Q () (s₁.unlink iface))
    (hfail : cake idx o ∈ dump → fails (.delete idx) s → ∀ e, F e s) :
    KeepsE (backend fails) I Q F (dropStale wanted dump (iface, idx, o)) s := by
  simp only [dropStale, any_owned]
  split
  · next h => exact keepsE_pure.mpr ⟨hI, hkeep h.1 h.2⟩
  next hnot =>
  by_cases hown : cake idx o ∈ dump
  · simp only [hown, if_true]
    refine keepsE_bind.mpr (keeps_delete hI (hfail hown) fun k' hk => ?_)
    obtain ⟨hI₁, hF₁, h₂⟩ := hremove hnot _ (.inr ⟨hown, k', hk, rfl⟩)
    exact ⟨hI₁, keeps_removeFile hI₁ hF₁ h₂⟩
  · simp only [hown, if_false]
    obtain ⟨hI₁, hF₁, h₂⟩ := hremove hnot _ (.inl ⟨rfl, hown⟩)
    exact keepsE_bind.mpr (keepsE_pure.mpr ⟨hI, keeps_removeFile hI₁ hF₁ h₂⟩)

/-- A round of the second loop keeps the qdisc, refuses, or journals it and adds it; what
was added is there when it is looked for. -/
theorem keeps_install {Q : List String → Host → Prop} {saved : OrdMap String Entry} {dump : List Qdisc}
    {active : List String} {iface : String} {idx : Nat} {o : Options} (hI : ∀ temps, I (s.withTemps temps))
    (hkeep : saved.find iface = some (idx, o) → (rootOf dump idx).any (owned · idx o) = true →
      Q (active ++ [iface]) s)
    (hcustom : ¬ (saved.find iface = some (idx, o) ∧ (rootOf dump idx).any (owned · idx o) = true) →
      custom dump idx = true → ∀ e, F e s)
    (hjournal : JournalFails fails iface idx o s → ∀ temps e, F e (s.withTemps temps))
    (hadd : ¬ (saved.find iface = some (idx, o) ∧ (rootOf dump idx).any (owned · idx o) = true) →
      custom dump idx = false → ∀ s₁ temps, s₁ = (s.journal iface (idx, o)).withTemps temps →
      I s₁ ∧ (fails (.add idx o) s₁ → ∀ e, F e s₁) ∧ ∀ k', Added idx o s.kernel k' →
        I (s₁.added idx o k') ∧ (fails .roots (s₁.added idx o k') → ∀ e, F e (s₁.added idx o k')) ∧
        Q (active ++ [iface]) (s₁.added idx o k')) :
    KeepsE (backend fails) I Q F (install saved dump active (iface, idx, o)) s := by
  simp only [install]
  split
  · next h => exact keepsE_pure.mpr ⟨hI s.temps, hkeep h.1 h.2⟩
  next hnot =>
  split
  · next hcus => exact keepsE_throw.mpr ⟨hI s.temps, hcustom hnot hcus _⟩
  next hcus =>
  refine keepsE_bind.mpr (keeps_writeJournal hI hjournal fun temps => ?_)
  obtain ⟨hI₁, hF₁, h₂⟩ := hadd hnot (by simpa using hcus) _ temps rfl
  refine ⟨hI₁, keepsE_bind.mpr (keeps_add hI₁ hF₁ fun k' hk => ?_)⟩
  obtain ⟨hI₂, hF₂, hQ⟩ := h₂ k' hk
  refine ⟨hI₂, keepsE_bind.mpr (keeps_roots hI₂ hF₂ fun check hcheck => ?_)⟩
  have hin : check.any (owned · idx o) = true := any_owned.mpr ((hcheck _).mpr hk.here)
  rw [if_pos hin]
  exact keepsE_pure.mpr ⟨hI₂, hQ⟩

/-- `reconcile`, by an invariant for each of its loops. -/
theorem keeps_reconcile {Q : String → Host → Prop} {wanted : OrdMap String Entry}
    {P : List Qdisc → List (String × Entry) → Host → Prop}
    {T : List Qdisc → List (String × Entry) → List String → Host → Prop}
    (hI : I s) (hI₁ : ∀ dump es s₁, P dump es s₁ → I s₁) (hI₂ : ∀ dump es active s₂, T dump es active s₂ → I s₂)
    (hread : fails .journals s ∨ fails .roots s → ∀ e, F e s)
    (hempty : s.journals.isEmpty = true → wanted.isEmpty = true → Q "disabled" s)
    (hstart : ∀ dump, (∀ q, q ∈ dump ↔ q ∈ s.kernel.qdiscs) → P dump s.journals.entries s)
    (hdrop : ∀ dump x es, x :: es <:+ s.journals.entries → ∀ s₁, P dump (x :: es) s₁ →
      KeepsE (backend fails) I (fun _ s' => P dump es s') F (dropStale wanted dump x) s₁)
    (hread₁ : ∀ dump s₁, P dump [] s₁ → fails .roots s₁ → ∀ e, F e s₁)
    (hmid : ∀ dump s₁ dump', P dump [] s₁ → (∀ q, q ∈ dump' ↔ q ∈ s₁.kernel.qdiscs) →
      T dump' wanted.entries [] s₁)
    (hinstall : ∀ dump x es, x :: es <:+ wanted.entries → ∀ active s₂, T dump (x :: es) active s₂ →
      KeepsE (backend fails) I (fun active' s' => T dump es active' s') F (install s.journals dump active x) s₂)
    (hend : ∀ dump active s₂, T dump [] active s₂ → Q (status active) s₂) :
    KeepsE (backend fails) I Q F (reconcile wanted) s := by
  have hsecond : ∀ dump s₁, T dump wanted.entries [] s₁ → KeepsE (backend fails) I Q F
      (wanted.entries.foldlM (install s.journals dump) [] >>= fun active => pure (status active)) s₁ := by
    intro dump s₁ h₂
    refine keepsE_bind.mpr ((keepsE_foldlM (P := T dump) (fun a s₂ h => hI₂ dump [] a s₂ h) _ (hinstall dump) []
      s₁ h₂).mono (fun _ hi => hi) (fun active s₂ hi h => ?_) fun _ _ _ hf => hf)
    exact keepsE_pure.mpr ⟨hi, hend dump active s₂ h⟩
  unfold reconcile
  refine keepsE_bind.mpr (keeps_journals hI (fun hf => hread (.inl hf)) ?_)
  by_cases hboth : (s.journals.isEmpty && wanted.isEmpty) = true
  · obtain ⟨hj, hw⟩ := Bool.and_eq_true_iff.mp hboth
    rw [if_pos hboth]
    exact keepsE_pure.mpr ⟨hI, hempty hj hw⟩
  rw [if_neg hboth]
  refine keepsE_bind.mpr (keeps_roots hI (fun hf => hread (.inr hf)) fun dump hdump => ?_)
  have hfirst := keepsE_forM (P := P dump) (fun s₁ h => hI₁ dump [] s₁ h) _ (hdrop dump) s (hstart dump hdump)
  by_cases hj : s.journals.isEmpty = true
  · -- No journal, no first loop: the dump still stands.
    have hnil : s.journals.entries = [] := List.isEmpty_iff.mp hj
    have h₁ : P dump [] s := hnil ▸ hstart dump hdump
    rw [hnil, if_pos hj]
    refine keepsE_bind.mpr (keepsE_pure.mpr ⟨hI, keepsE_bind.mpr (keepsE_pure.mpr ⟨hI, ?_⟩)⟩)
    exact hsecond dump s (hmid dump s dump h₁ hdump)
  · rw [if_neg hj]
    refine keepsE_bind.mpr (hfirst.mono (fun _ hi => hi) (fun _ s₁ hi h₁ => ?_) fun _ _ _ hf => hf)
    refine keepsE_bind.mpr (keeps_roots hi (hread₁ dump s₁ h₁) fun dump' hdump' => ?_)
    exact hsecond dump' s₁ (hmid dump s₁ dump' h₁ hdump')

end rules

end Nfqttl.Qos
