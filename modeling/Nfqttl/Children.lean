/-
The daemon and its children: the worker processes it has started and holds a `Child` of.

A `Child` is held until its process has been waited for. A look at it (`try_wait`) may
have done that already, and `stop` signals the pid all the same; but it must not name a
pid to `kill` or `wait` that it holds no `Child` of, and must not end with a `Child` that
it has not waited for.
-/
import Nfqttl.DaemonRun
import Nfqttl.Lifetime

namespace Nfqttl.Daemon

open Effect

/-- The pids of the `Child` values held, and those that were signalled or asked about when they were none of them. -/
structure Brood where
  children : List Nat
  strays : List Nat
  deriving DecidableEq, Repr

/-- The process an operation is about. -/
def about : DaemonOp → Option Nat
  | .terminate _ pid | .tryWait pid | .kill pid | .reap pid => some pid
  | _ => none

def Brood.name (b : Brood) : Option Nat → Brood
  | some pid => if pid ∈ b.children then b else { b with strays := b.strays ++ [pid] }
  | none => b

/-- A new process may have any pid; the `Child` that is waited for is dropped. -/
def tended : Sem DaemonSig Brood := fun op b a b' =>
  match op, a with
  | .spawn .., some pid => b' = { b with children := b.children ++ [pid] }
  | .reap pid, _ => b' = { b.name (some pid) with children := b.children.erase pid }
  | op, _ => b' = b.name (about op)

def Brood.Unstrayed (b : Brood) : Prop := b.strays = []

/-- The children are the workers of `items`. -/
structure Brood.Of (b : Brood) (items : List Worker) : Prop where
  strays : b.strays = []
  children : b.children = items.map (·.pid)

abbrev Minds {α : Type} (Q : α → Brood → Prop) (p : DaemonProg α) (b : Brood) : Prop := Keeps tended Brood.Unstrayed Q p b

variable {items : List Worker} {b : Brood} {α : Type}

theorem Brood.name_of_mem {pid : Nat} (h : pid ∈ b.children) : b.name (some pid) = b := if_pos h

theorem Brood.Of.mem (h : b.Of items) {w : Worker} (hw : w ∈ items) : w.pid ∈ b.children := by
  rw [h.children]
  exact List.mem_map_of_mem hw

/-- Waiting for the first worker leaves the others. -/
theorem Brood.Of.reap {w : Worker} (h : b.Of (w :: items)) :
    Brood.Of { b.name (some w.pid) with children := b.children.erase w.pid } items := by
  have hchildren : b.children = w.pid :: items.map (·.pid) := h.children
  have herase : b.children.erase w.pid = items.map (·.pid) := by rw [hchildren, List.erase_cons_head]
  refine ⟨?_, herase⟩
  rw [Brood.name_of_mem (h.mem (List.mem_cons_self ..))]
  exact h.strays

theorem Brood.Of.spawn (h : b.Of items) {pid q : Nat} :
    Brood.Of { b with children := b.children ++ [pid] } (items ++ [⟨q, pid⟩]) := by
  refine ⟨h.strays, ?_⟩
  rw [List.map_append, h.children]
  rfl

/-! ## Operations -/

/-- The operations that neither name a process nor start one. -/
def apart : DaemonOp → Bool
  | .terminate .. | .tryWait _ | .kill _ | .reap _ | .spawn .. => false
  | _ => true

theorem apart_of_mild (op : DaemonOp) (h : mild op = true) : apart op = true := by
  cases op <;> first | rfl | cases h

theorem tended_apart {op : DaemonOp} (hop : apart op = true) {a : DaemonSig.Ans op} {b' : Brood} (h : tended op b a b') :
    b' = b := by
  cases op <;> first | exact h | cases hop

/-- A program of such operations leaves the children as they are. -/
theorem minds_apart {Q : α → Prop} {p : DaemonProg α} (h : Within (apart · = true) Q p) (hb : b.Of items) :
    Minds (fun a b' => b'.Of items ∧ Q a) p b := by
  refine (h.keeps (I := fun b' => b'.Of items) ?_ hb).mono (fun b' hb' => hb'.strays) fun _ _ _ h => h
  intro op b' a b'' hop hb' hr
  rw [tended_apart hop hr]
  exact hb'

theorem minds_ask {op : DaemonOp} {f : DaemonSig.Ans op → DaemonProg α} {Q : α → Brood → Prop} (hop : apart op = true)
    (hb : b.Of items) (hf : ∀ a, Minds Q (f a) b) : Minds Q (ask op >>= f) b := by
  refine ⟨hb.strays, ?_⟩
  intro a b' hr
  rw [tended_apart hop hr]
  exact hf a

theorem minds_last {op : DaemonOp} (hop : apart op = true) (hb : b.Of items) :
    Minds (fun _ b' => b'.Of items) (ask op) b := by
  have hwithin : Within (apart · = true) (fun _ => True) (ask op) := ⟨hop, fun _ => trivial⟩
  exact (minds_apart hwithin hb).post fun _ _ _ h => h.1

/-- A question about a worker, or a signal to it. -/
theorem minds_name {op : DaemonOp} {f : DaemonSig.Ans op → DaemonProg α} {Q : α → Brood → Prop} {w : Worker}
    (hop : about op = some w.pid) (hreap : op ≠ .reap w.pid) (hb : b.Of items) (hw : w ∈ items)
    (hf : ∀ a, Minds Q (f a) b) : Minds Q (ask op >>= f) b := by
  refine ⟨hb.strays, ?_⟩
  intro a b' hr
  have hsame : b' = b := by
    rw [← Brood.name_of_mem (hb.mem hw), ← hop]
    cases op with
    | terminate site pid => exact hr
    | tryWait pid => exact hr
    | kill pid => exact hr
    | reap pid =>
      obtain rfl := Option.some.inj hop
      exact absurd rfl hreap
    | _ => cases hop
  rw [hsame]
  exact hf a

/-! ## The workers -/

theorem stop_minds {site : Site} (hb : b.Of items) : Minds (fun _ b' => b'.Of []) (Workers.stop site items) b := by
  have hterm : Minds (fun _ b' => b'.Of items) (items.forM fun w => do
      let _ ← ask (.terminate site w.pid)) b := by
    refine keeps_forM (P := fun _ (b' : Brood) => b'.Of items) (fun b' h => h.strays) items ?_ b hb
    intro w rest hsub b' h
    have hw : w ∈ items := hsub.subset (List.mem_cons_self ..)
    exact minds_name (f := fun _ => pure ()) rfl (by simp) h hw fun _ => ⟨h.strays, h⟩
  have hreap : ∀ b' : Brood, b'.Of items → Minds (fun _ b'' => b''.Of []) (items.forM fun w => do
      if !(← ask (.tryWait w.pid)) then ask (.kill w.pid)
      ask (.reap w.pid)
      ask (.removeState (Workers.pidFile w.queue))) b' := by
    refine keeps_forM (P := fun rest (b' : Brood) => b'.Of rest) (fun b' h => h.strays) items ?_
    intro w rest _ b' h
    have hw : w ∈ w :: rest := List.mem_cons_self ..
    have hgone : Minds (fun _ b'' => b''.Of rest) (do
        ask (.reap w.pid)
        ask (.removeState (Workers.pidFile w.queue))) b' := by
      refine ⟨h.strays, ?_⟩
      rintro _ b'' rfl
      exact minds_last rfl h.reap
    refine minds_name rfl (by simp) h hw ?_
    intro exited
    cases exited
    · exact minds_name rfl (by simp) h hw fun _ => hgone
    · exact hgone
  have hend : ∀ b' : Brood, b'.Of [] → Minds (fun _ b'' => b''.Of []) (ask (.removeState "worker.pid")) b' :=
    fun b' h => minds_last rfl h
  unfold Workers.stop
  refine keeps_bind.mpr (hterm.post fun _ b' _ h => ?_)
  split
  · exact minds_ask rfl h fun _ => keeps_bind.mpr ((hreap b' h).post fun _ b'' _ h => hend b'' h)
  · exact keeps_bind.mpr ((hreap b' h).post fun _ b'' _ h => hend b'' h)

theorem allOwn_minds : ∀ (ws : List Worker), ws ⊆ items → b.Of items →
    Minds (fun _ b' => b'.Of items) (Workers.allOwn ws) b
  | [], _, hb => ⟨hb.strays, hb⟩
  | w :: ws, hsub, hb => by
    refine minds_name rfl (by simp) hb (hsub (List.mem_cons_self ..)) ?_
    intro exited
    cases exited
    case true => exact ⟨hb.strays, hb⟩
    refine minds_ask rfl hb ?_
    intro owner
    dsimp only
    split
    · exact ⟨hb.strays, hb⟩
    · exact allOwn_minds ws (List.subset_of_cons_subset hsub) hb

theorem healthy_minds (count : Nat) (hb : b.Of items) :
    Minds (fun _ b' => b'.Of items) (Workers.healthy items count) b := by
  unfold Workers.healthy
  split
  · exact ⟨hb.strays, hb⟩
  · exact allOwn_minds items (List.Subset.refl items) hb

theorem spawnAll_minds {c : Config} : ∀ (qs : List Nat) (items : List Worker) (b : Brood), b.Of items →
    Minds (fun r b' => b'.Of r.2) (Workers.spawnAll c items qs) b
  | [], items, b, hb => ⟨hb.strays, hb⟩
  | q :: qs, items, b, hb => by
    have hgive : Minds (fun (r : Bool × List Worker) b' => b'.Of r.2) (do
        Workers.stop .start items
        return (false, [])) b := keeps_bind.mpr ((stop_minds hb).post fun _ b' _ h => ⟨h.strays, h⟩)
    refine minds_ask rfl hb ?_
    intro opened
    cases opened
    case false => exact minds_ask rfl hb fun _ => hgive
    refine minds_ask rfl hb ?_
    intro cloned
    cases cloned
    case false => exact hgive
    refine ⟨hb.strays, ?_⟩
    intro pid b' hr
    cases pid with
    | none =>
      obtain rfl : b' = b := hr
      exact hgive
    | some pid =>
      obtain rfl : b' = { b with children := b.children ++ [pid] } := hr
      have hb' : Brood.Of { b with children := b.children ++ [pid] } (items ++ [⟨q, pid⟩]) := hb.spawn
      refine minds_ask rfl hb' ?_
      intro _
      dsimp only
      split
      · exact minds_ask rfl hb' fun _ => spawnAll_minds qs _ _ hb'
      · exact spawnAll_minds qs _ _ hb'

theorem awaitReady_minds (count : Nat) : ∀ (n : Nat) (b : Brood), b.Of items →
    Minds (fun r b' => b'.Of r.2) (Workers.awaitReady items count n) b
  | 0, b, hb => ⟨hb.strays, hb⟩
  | n + 1, b, hb => by
    have hagain : ∀ b' : Brood, b'.Of items → Minds (fun r b'' => b''.Of r.2) (do
        ask (.sleep 100)
        Workers.awaitReady items count n) b' := fun b' h => minds_ask rfl h fun _ => awaitReady_minds count n b' h
    refine minds_ask rfl hb ?_
    intro stopping
    cases stopping
    case true => exact keeps_bind.mpr ((stop_minds hb).post fun _ b' _ h => ⟨h.strays, h⟩)
    refine keeps_bind.mpr ((healthy_minds count hb).post ?_)
    intro healthy b' _ h
    cases healthy
    case false => exact hagain b' h
    refine keeps_bind.mpr ((minds_apart (allReady_within (fun _ => rfl) items) h).post ?_)
    intro ready b'' _ h'
    cases ready
    · exact hagain b'' h'.1
    · exact ⟨h'.1.strays, h'.1⟩

/-- Whatever `start` answers, the workers it leaves are the children. -/
theorem start_minds {c : Config} (count : Nat) (hb : b.Of items) :
    Minds (fun r b' => b'.Of r.2) (Workers.start c items count) b := by
  unfold Workers.start
  refine keeps_bind.mpr ((stop_minds hb).post ?_)
  intro _ b' _ h
  refine keeps_bind.mpr ((minds_apart (allFree_within (fun _ => rfl) (fun _ => rfl) _) h).post ?_)
  intro free b'' _ h'
  cases free
  case false => exact ⟨h'.1.strays, h'.1⟩
  refine keeps_bind.mpr ((spawnAll_minds _ [] b'' h'.1).post ?_)
  intro r b₃ _ h₃
  obtain ⟨ok, items'⟩ := r
  cases ok
  · exact ⟨h₃.strays, h₃⟩
  · exact awaitReady_minds count 80 b₃ h₃

/-! ## The loop -/

section loop
variable {c : Setup} {l : Loop}

theorem takeDown_minds (hb : b.Of l.items) : Minds (fun l' b' => b'.Of l'.items) (takeDown c l) b := by
  unfold takeDown
  refine keeps_bind.mpr ((stop_minds hb).post ?_)
  intro _ b' _ h
  have hcool : ∀ (n : Nat) (l' : Loop), l'.items = [] → ∀ b' : Brood, b'.Of [] →
      Minds (fun l' b'' => b''.Of l'.items) (do
        coolDown n
        return l') b' := by
    intro n l' hl' b' h
    refine keeps_bind.mpr ((minds_apart (coolDown_within apart_of_mild n) h).post ?_)
    intro _ b'' _ h'
    refine ⟨h'.1.strays, ?_⟩
    change b''.Of l'.items
    rw [hl']
    exact h'.1
  dsimp only
  split
  · exact minds_ask rfl h fun _ => minds_ask rfl h fun _ => hcool _ _ rfl b' h
  · exact hcool _ _ rfl b' h

theorem recover_minds {why : String} (hb : b.Of l.items) : Minds (fun l' b' => b'.Of l'.items) (recover c l why) b := by
  unfold recover
  refine minds_ask rfl hb fun _ => minds_ask rfl hb fun _ => minds_ask rfl hb fun _ => minds_ask rfl hb fun ok => ?_
  cases ok
  · exact minds_ask rfl hb fun _ => takeDown_minds hb
  · exact takeDown_minds hb

/-- The workers a part of the loop's body leaves. -/
def Step.workers : Step → List Worker
  | .go l | .again l => l.items

theorem recoverFirst_minds {why : String} (hb : b.Of l.items) :
    Minds (fun r b' => b'.Of r.workers) (recoverFirst c l why) b := by
  unfold recoverFirst
  exact keeps_bind.mpr ((recover_minds hb).post fun _ _ _ h => ⟨h.strays, h⟩)

theorem detach_minds (hb : b.Of l.items) : Minds (fun l' b' => b'.Of l'.items) (detach l) b := by
  have hstop : ∀ l' : Loop, l'.items = [] → Minds (fun l' b' => b'.Of l'.items) (do
      Workers.stop .idle l.items
      return l') b := by
    intro l' hl'
    refine keeps_bind.mpr ((stop_minds hb).post ?_)
    intro _ b' _ h
    refine ⟨h.strays, ?_⟩
    change b'.Of l'.items
    rw [hl']
    exact h
  unfold detach
  refine minds_ask rfl hb ?_
  intro cleaned
  cases cleaned
  · exact minds_ask rfl hb fun _ => hstop _ rfl
  · exact hstop _ rfl

theorem idle_minds (hb : b.Of l.items) : Minds (fun l' b' => b'.Of l'.items) (idle l) b := by
  have hend : ∀ (l' : Loop) (b' : Brood), b'.Of l'.items → Minds (fun l' b'' => b''.Of l'.items) (do
      writeState "phase" "idle"
      writeState "interfaces" (interfaces l'.links)
      return l') b' := fun l' b' h => minds_ask rfl h fun _ => minds_ask rfl h fun _ => ⟨h.strays, h⟩
  unfold idle
  split
  · exact keeps_bind.mpr ((detach_minds hb).post fun l' b' _ h => hend l' b' h)
  · exact hend l b hb

theorem ensureWorkers_minds (hb : b.Of l.items) :
    Minds (fun r b' => b'.Of r.2) (ensureWorkers c l) b := by
  unfold ensureWorkers
  split
  case isFalse => exact ⟨hb.strays, hb⟩
  refine keeps_bind.mpr ((healthy_minds l.activeWorkers hb).post ?_)
  intro healthy b' _ h
  cases healthy
  · exact start_minds l.activeWorkers h
  · exact ⟨h.strays, h⟩

theorem installRules_apart : Within (apart · = true) (fun r => r.2.items = l.items) (installRules c l) := by
  refine ⟨rfl, ?_⟩
  intro r
  obtain ⟨ok, active4⟩ := r
  cases ok
  case false => exact rfl
  exact ⟨rfl, fun _ => rfl⟩

theorem install_minds (hb : b.Of l.items) : Minds (fun r b' => b'.Of r.workers) (install c l) b := by
  unfold install
  refine minds_ask rfl hb fun _ => keeps_bind.mpr ((ensureWorkers_minds hb).post ?_)
  intro r b' _ h
  obtain ⟨ok, items⟩ := r
  cases ok
  case false => exact recoverFirst_minds h
  refine keeps_bind.mpr ((minds_apart installRules_apart h).post ?_)
  intro r b'' _ h'
  obtain ⟨ok, l'⟩ := r
  obtain ⟨h', hitems⟩ := h'
  have hl' : b''.Of l'.items := by
    rw [hitems]
    exact h'
  cases ok
  case false => exact recoverFirst_minds hl'
  exact minds_ask rfl hl' fun _ => minds_ask rfl hl' fun _ => minds_ask rfl hl' fun _ => ⟨hl'.strays, hl'⟩

theorem settle_minds {sig : String} {step : Step} (hb : b.Of step.workers) :
    Minds (fun r b' => b'.Of r.workers) (settle sig step) b := by
  cases step with
  | again l => exact ⟨hb.strays, hb⟩
  | go l => exact minds_ask rfl hb fun _ => ⟨hb.strays, hb⟩

theorem update_minds {whole : Bool} (hb : b.Of l.items) : Minds (fun r b' => b'.Of r.workers) (update c l whole) b := by
  have hfirst : b.Of ({ l with first := false } : Loop).items := hb
  unfold update
  split
  case isFalse => exact ⟨hb.strays, hb⟩
  dsimp only
  split
  · refine keeps_bind.mpr ((install_minds hfirst).post ?_)
    intro r b' _ h
    exact settle_minds h
  · refine keeps_bind.mpr ((idle_minds hfirst).post ?_)
    intro l' b' _ h
    exact settle_minds h

theorem sample_minds (hb : b.Of l.items) : Minds (fun r b' => b'.Of r.workers) (sample c l) b := by
  unfold sample
  refine minds_ask rfl hb fun _ => minds_ask rfl hb fun qs => ?_
  refine keeps_bind.mpr ((healthy_minds l.activeWorkers hb).post ?_)
  intro healthy b' _ h
  dsimp only
  split
  · exact recoverFirst_minds h
  refine keeps_bind.mpr ((minds_apart (report_within apart_of_mild fun _ => rfl) h).post ?_)
  intro r b'' _ h'
  obtain ⟨l', stalled⟩ := r
  obtain ⟨h', progress, warn, rfl⟩ := h'
  dsimp only
  split
  · exact recoverFirst_minds h'
  · exact ⟨h'.strays, h'⟩

theorem monitor_minds (hb : b.Of l.items) : Minds (fun r b' => b'.Of r.workers) (monitor c l) b := by
  unfold monitor
  split
  case isFalse => exact ⟨hb.strays, hb⟩
  refine minds_ask rfl hb ?_
  intro due
  cases due
  · exact ⟨hb.strays, hb⟩
  · exact sample_minds hb

/-- The workers after a turn; one that leaves the loop has done nothing to them. -/
def itemsAfter (l : Loop) : Option Loop → List Worker
  | some l' => l'.items
  | none => l.items

theorem turn_minds (hb : b.Of l.items) : Minds (fun r b' => b'.Of (itemsAfter l r)) (turn c l) b := by
  unfold turn
  refine minds_ask rfl hb ?_
  intro stopping
  cases stopping
  case true => exact ⟨hb.strays, hb⟩
  refine minds_ask rfl hb ?_
  intro halted
  cases halted
  case true => exact minds_ask rfl hb fun _ => ⟨hb.strays, hb⟩
  refine keeps_bind.mpr ((minds_apart (rescan_within apart_of_mild rfl) hb).post ?_)
  intro l₁ b₁ _ h₁
  obtain ⟨h₁, links, rfl⟩ := h₁
  have h₁ : b₁.Of ({ l with links := links } : Loop).items := h₁
  refine keeps_bind.mpr ((minds_apart (syncQos_within apart_of_mild) h₁).post ?_)
  intro _ b₂ _ h₂
  refine keeps_bind.mpr ((minds_apart (intact_within apart_of_mild fun _ _ _ _ => rfl) h₂.1).post ?_)
  intro whole b₃ _ h₃
  refine keeps_bind.mpr ((update_minds h₃.1).post ?_)
  intro r b₄ _ h₄
  cases r with
  | again l₄ => exact ⟨h₄.strays, h₄⟩
  | go l₄ =>
    refine keeps_bind.mpr ((monitor_minds h₄).post ?_)
    intro r b₅ _ h₅
    cases r with
    | again l₅ => exact ⟨h₅.strays, h₅⟩
    | go l₅ =>
      refine keeps_bind.mpr ((minds_apart (rest_within apart_of_mild rfl) h₅).post ?_)
      intro l₆ b₆ _ h₆
      obtain ⟨h₆, failures, changed, rfl⟩ := h₆
      exact ⟨h₆.strays, h₆⟩

theorem shutdown_minds (hb : b.Of l.items) : Minds (fun _ b' => b'.Of []) (shutdown l) b := by
  unfold shutdown
  refine minds_ask rfl hb fun cleaned => keeps_bind.mpr ((stop_minds hb).post ?_)
  intro _ b' _ h
  refine minds_ask rfl h fun _ => minds_ask rfl h fun _ => minds_ask rfl h fun _ => ?_
  exact keeps_bind.mpr ((stop_minds h).post fun _ b'' _ h' => ⟨h'.strays, h'⟩)

end loop

end Nfqttl.Daemon

namespace Nfqttl.Life

open Effect Daemon

/-! ## The whole life -/

/-- The other operations of `run` are not about children. -/
def tended : Sem LifeSig Brood := fun op =>
  match op with
  | .loop op => Daemon.tended op
  | .run _ => fun b _ b' => b' = b

/-- An operation of `run`, or one of the loop that is not about children. -/
def apart : LifeOp → Bool
  | .loop op => Daemon.apart op
  | .run _ => true

theorem keeps_apart {α : Type} {Q : α → Prop} {p : LifeProg α} (h : Within (apart · = true) Q p) {b : Brood}
    {items : List Worker} (hb : b.Of items) :
    Keeps tended Brood.Unstrayed (fun a b' => b'.Of items ∧ Q a) p b := by
  refine (h.keeps (I := fun b' => b'.Of items) ?_ hb).mono (fun b' hb' => hb'.strays) fun _ _ _ h => h
  intro op b' a b'' hop hb' hr
  cases op with
  | loop op =>
    rw [tended_apart hop hr]
    exact hb'
  | run op =>
    obtain rfl : b'' = b' := hr
    exact hb'

theorem early_apart : ∀ op, early op = true → apart op = true
  | .run _, _ => rfl
  | .loop op, h => by
    cases op <;> first | rfl | cases h

theorem keeps_looped {α : Type} {Q : α → Brood → Prop} {p : DaemonProg α} {b : Brood} (h : Minds Q p b) :
    Keeps tended Brood.Unstrayed Q (looped p) b :=
  h.hoist fun _ _ hb hnext => ⟨hb, fun a b' hr => ⟨hnext a b' hr, hr⟩⟩

theorem holding_apart {step : LifeProg (Except LockError Unit)} {next : LifeProg Acquired}
    (hs : Within (apart · = true) (fun _ => True) step) (hn : Within (apart · = true) (fun _ => True) next) :
    Within (apart · = true) (fun _ => True) (holding step next) := by
  refine within_bind.mpr (hs.mono ?_)
  intro r _
  cases r with
  | ok a => exact hn
  | error e => exact ⟨rfl, fun _ => trivial⟩

theorem acquireLock_apart : Within (apart · = true) (fun _ => True) acquireLock := by
  refine ⟨rfl, fun r => ?_⟩
  cases r with
  | error e => trivial
  | ok a =>
    refine ⟨rfl, fun r => ?_⟩
    cases r with
    | error e => trivial
    | ok a =>
      refine ⟨rfl, fun got => ?_⟩
      cases got
      case false => trivial
      have hask : ∀ op : RunOp, Within (apart · = true) (fun _ => True) (Life.ask op) := fun op => ⟨rfl, fun _ => trivial⟩
      exact holding_apart (hask .createLock) (holding_apart (hask .createPid) (holding_apart (hask .writePid) trivial))

theorem prepare_apart : Within (apart · = true) (fun _ => True) prepare.run := by
  refine ⟨rfl, fun halted => ?_⟩
  cases halted
  case true => exact ⟨rfl, fun _ => trivial⟩
  exact prepareUnhalted_early.ops early_apart

theorem finish_apart (result : Except IoError Unit) : Within (apart · = true) (fun _ => True) (finish result) := by
  cases result with
  | ok a => exact ⟨rfl, fun _ => ⟨rfl, fun _ => ⟨rfl, fun _ => trivial⟩⟩⟩
  | error e =>
    refine within_bind.mpr ((describe_within (P := (apart · = true)) rfl e).mono fun text _ => ?_)
    exact ⟨rfl, fun _ => ⟨rfl, fun _ => ⟨rfl, fun _ => ⟨rfl, fun _ => ⟨rfl, fun _ => ⟨rfl, fun _ => trivial⟩⟩⟩⟩⟩⟩

theorem conclude_apart (result : Except IoError Unit) : Within (apart · = true) (fun _ => True) (conclude result) := by
  refine ⟨rfl, fun r => ?_⟩
  cases r with
  | ok a => exact finish_apart result
  | error e =>
    change Within _ _ (describe e >>= _)
    refine within_bind.mpr ((describe_within (P := (apart · = true)) rfl e).mono fun text _ => ⟨rfl, fun _ => ?_⟩)
    cases result with
    | ok a => exact finish_apart (.error e)
    | error e' => exact finish_apart (.error e')

/-- The children where a round starts. -/
def Stage.Minded : Stage → Brood → Prop
  | .run, b => b.Of []
  | .turn _ l, b | .shutdown l, b => b.Of l.items

/-- From the lock to the end of the process, the children are the workers of the loop. -/
theorem round_minds (x : Stage) (b : Brood) (h : x.Minded b) :
    Keeps tended Brood.Unstrayed (EndsAt Stage.Minded fun _ b' => b'.Of []) (round x) b := by
  have hconclude : ∀ (result : Except IoError Unit) (b : Brood), b.Of [] →
      Keeps tended Brood.Unstrayed (EndsAt Stage.Minded fun _ b' => b'.Of []) (do
        return .inr (← conclude result)) b := by
    intro result b h
    refine keeps_bind.mpr ((keeps_apart (conclude_apart result) h).post ?_)
    intro _ b' hu h'
    exact ⟨hu, h'.1⟩
  cases x with
  | run =>
    refine keeps_bind.mpr ((keeps_apart acquireLock_apart h).post ?_)
    intro got b₁ hu h₁
    cases got with
    | already => exact ⟨hu, h₁.1⟩
    | failed e => exact ⟨hu, h₁.1⟩
    | held =>
      refine keeps_bind.mpr ((keeps_apart prepare_apart h₁.1).post ?_)
      intro r b₂ hu h₂
      cases r with
      | error e => exact hconclude (.error e) b₂ h₂.1
      | ok found =>
        cases found with
        | none => exact hconclude (.ok ()) b₂ h₂.1
        | some found => exact ⟨hu, h₂.1⟩
  | turn c l =>
    refine keeps_bind.mpr ((keeps_looped (turn_minds h)).post ?_)
    intro r b' hu h'
    cases r with
    | some l' => exact ⟨hu, h'⟩
    | none => exact ⟨hu, h'⟩
  | shutdown l =>
    refine keeps_bind.mpr ((keeps_looped (shutdown_minds h)).post ?_)
    intro cleaned b' _ h'
    exact hconclude _ b' h'

/-- A daemon names to `kill` and `wait` only processes it holds a `Child` of, however its life goes and
wherever it is cut, and one that ends by itself has waited for all of them. -/
theorem life_tended : (∀ b, Passes tended round .run ⟨[], []⟩ b → b.strays = []) ∧
    ∀ result b, Repeats tended round .run ⟨[], []⟩ result b → b = ⟨[], []⟩ := by
  have hstart : Stage.Minded .run ⟨[], []⟩ := ⟨rfl, rfl⟩
  constructor
  · intro b hp
    exact hp.kept round_minds hstart
  · intro result b hr
    have hend : b.Of [] := hr.done round_minds hstart
    calc b = ⟨b.children, b.strays⟩ := rfl
      _ = ⟨[], []⟩ := by rw [hend.children, hend.strays]; rfl

end Nfqttl.Life
