/-
Runs of the daemon's loop: any number of turns, each with any answers, and the events of
a run that say when rules were attached and workers stopped.
-/
import Nfqttl.Daemon
import Nfqttl.Lib.Trace

namespace Nfqttl.Daemon

open Effect

inductive Event
  | cleanup (ok : Bool)
  /-- `install4` answered that its rules are attached. -/
  | installed
  | stopped (site : Site) (pid : Nat) (running : Bool)
  deriving DecidableEq, Repr

abbrev Trace := List Event

def events : (op : DaemonOp) → DaemonSig.Ans op → Trace
  | .cleanup, ok => [.cleanup ok]
  | .install4 .., (ok, _) => if ok then [.installed] else []
  | .terminate site pid, running => [.stopped site pid running]
  | _, _ => []

/-- What `install4` answers: whether it went through, and the active chain after it. -/
def Installs (active : Option String) (r : Bool × Option String) : Prop :=
  r.1 = false ∧ r.2 = active ∨ r.1 = true ∧ r.2.isSome = true

/-- Any answer goes, but `install4` names a chain as the active one just when it went through. -/
def logged : Sem DaemonSig Trace := fun op t a t' =>
  t' = t ++ events op a ∧
    match op, a with
    | .install4 _ _ _ _ active, r => Installs active r
    | _, _ => True

/-- The firewall's own `install4` answers so. -/
theorem install4_installs {fw : Firewall} {links : Links} {kernel : Bool} {workers ttl : Nat}
    {active : Option String} :
    Within (fun _ => True) (Installs active) (fw.install4 links kernel workers ttl active) := by
  have hno : Within (E := FwSig) (fun _ => True) (Installs active) (pure (false, active)) := .inl ⟨rfl, rfl⟩
  unfold Firewall.install4 Firewall.install
  refine within_bind.mpr ((within_true _).mono fun _ _ => within_bind.mpr ((within_true _).mono fun flushed _ => ?_))
  cases flushed
  case false => exact hno
  refine within_bind.mpr ((within_true _).mono fun appended _ => ?_)
  cases appended
  case false => exact hno
  refine within_bind.mpr ((within_true _).mono fun activated _ => ?_)
  cases activated
  case false => exact hno
  exact within_bind.mpr ((within_true _).mono fun _ _ => .inr ⟨rfl, rfl⟩)

/-- Since the last `install4` that went through, `cleanup` was not called. -/
def hooked (t : Trace) : Bool :=
  t.foldl (fun h e => match e with | .installed => true | .cleanup _ => false | .stopped .. => h) false

/-- The last `cleanup` failed, and no `install4` went through since. -/
def pending (t : Trace) : Bool :=
  t.foldl (fun p e => match e with | .installed => false | .cleanup ok => !ok | .stopped .. => p) false

section fold
variable {t : Trace} {ok running : Bool} {site : Site} {pid : Nat}

@[simp] theorem hooked_installed : hooked (t ++ [.installed]) = true := by simp [hooked]
@[simp] theorem hooked_cleanup : hooked (t ++ [.cleanup ok]) = false := by simp [hooked]
@[simp] theorem hooked_stopped : hooked (t ++ [.stopped site pid running]) = hooked t := by simp [hooked]
@[simp] theorem pending_installed : pending (t ++ [.installed]) = false := by simp [pending]
@[simp] theorem pending_stopped : pending (t ++ [.stopped site pid running]) = pending t := by simp [pending]

end fold

/-- Any operation but `install4`. -/
def installs : DaemonOp → Bool
  | .install4 .. => true
  | _ => false

/-- What an operation adds to the trace, by its event. -/
theorem logged_cases {op : DaemonOp} {t t' : Trace} {a : DaemonSig.Ans op} (h : logged op t a t') :
    t' = t ∨ (op = .cleanup ∧ ∃ ok, t' = t ++ [.cleanup ok]) ∨ (installs op = true ∧ t' = t ++ [.installed]) ∨
      ∃ site pid running, op = .terminate site pid ∧ t' = t ++ [.stopped site pid running] := by
  obtain ⟨rfl, -⟩ := h
  cases op with
  | cleanup => exact .inr (.inl ⟨rfl, a, rfl⟩)
  | terminate site pid => exact .inr (.inr (.inr ⟨site, pid, a, rfl, rfl⟩))
  | install4 =>
    obtain ⟨ok, active⟩ := a
    cases ok
    · exact .inl (List.append_nil t)
    · exact .inr (.inr (.inl ⟨rfl, rfl⟩))
  | _ => exact .inl (List.append_nil t)

/-! ## Runs -/

/-- A turn of the loop that went to its end: the variables and the trace before and after it. -/
structure Turn where
  before : Loop
  t : Trace
  after : Loop
  t' : Trace

/-- The loop's turns from its start, which comes after a `cleanup` that went through. -/
inductive Run (c : Setup) (workers : Nat) : List Turn → Loop → Trace → Prop
  | start : Run c workers [] (.initial workers) [.cleanup true]
  | turn {ts : List Turn} {l l' : Loop} {t t' : Trace} : Run c workers ts l t →
      Runs logged (turn c l) t (some l') t' → Run c workers (ts ++ [⟨l, t, l', t'⟩]) l' t'

/-! ## What the parts of a turn ask for -/

/-- The operations that leave no event. -/
def quiet : DaemonOp → Bool
  | .cleanup | .install4 .. | .terminate .. => false
  | _ => true

theorem events_of_quiet {op : DaemonOp} (h : quiet op = true) (a : DaemonSig.Ans op) : events op a = [] := by
  cases op <;> first | rfl | cases h

/-- All of these but finding the interfaces, saying that they are dealt with, and starting a worker. -/
def calm : DaemonOp → Bool
  | .discover | .reset .stable | .spawn .. => false
  | op => quiet op

theorem quiet_of_calm (op : DaemonOp) (h : calm op = true) : quiet op = true := by
  unfold calm at h
  split at h
  all_goals first | exact h | cases h

/-- Those of them that are about no process, no file and no rules, and do not ask whether the loop is stable. -/
def mild : DaemonOp → Bool
  | .tryWait _ | .kill _ | .reap _ | .queueOwner _ | .rulesOk .. | .install6 .. | .writeState ..
  | .removeState _ | .elapsed .stable _ => false
  | op => calm op

theorem calm_of_mild (op : DaemonOp) (h : mild op = true) : calm op = true := by
  unfold mild at h
  split at h
  all_goals first | exact h | cases h

section within
variable {P : DaemonOp → Prop}

/-- What calm operations have, mild ones have. -/
theorem mildly (hP : ∀ op, calm op = true → P op) (op : DaemonOp) (h : mild op = true) : P op := hP op (calm_of_mild op h)

theorem within_forM {f : Worker → DaemonProg Unit} : ∀ (ws : List Worker), (∀ w ∈ ws, Within P (fun _ => True) (f w)) →
    Within P (fun _ => True) (ws.forM f)
  | [], _ => trivial
  | w :: ws, h => within_bind.mpr ((h w (List.mem_cons_self ..)).mono fun _ _ =>
      within_forM ws fun x hx => h x (List.mem_cons_of_mem w hx))

theorem within_ite {α : Type} {Q : α → Prop} {b : Prop} [Decidable b] {p q : DaemonProg α} :
    Within P Q (if b then p else q) ↔ (b → Within P Q p) ∧ (¬ b → Within P Q q) := by
  split <;> simp_all

theorem allFree_within (howner : ∀ q, P (.queueOwner q)) (hlog : ∀ text, P (.log text)) :
    ∀ queues : List Nat, Within P (fun _ => True) (Workers.allFree queues)
  | [] => trivial
  | q :: qs => by
    refine ⟨howner q, fun owner => ?_⟩
    cases owner with
    | none => exact allFree_within howner hlog qs
    | some pid => exact ⟨hlog _, fun _ => trivial⟩

theorem allReady_within (hready : ∀ q, P (.ready q)) : ∀ items : List Worker,
    Within P (fun _ => True) (Workers.allReady items)
  | [] => trivial
  | w :: ws => by
    simp [Workers.allReady, within_ite, allReady_within hready ws]
    exact hready w.queue

section mild
variable (hP : ∀ op, mild op = true → P op)
include hP

theorem orElapsed_within {b : Bool} {timer : Timer} {ms : Nat} (htimer : timer ≠ .stable) :
    Within P (fun _ => True) (orElapsed b timer ms) := by
  cases b
  · refine ⟨hP _ ?_, fun _ => trivial⟩
    cases timer <;> first | rfl | exact absurd rfl htimer
  · trivial

theorem rescan_within (hfind : P .discover) {c : Setup} {l : Loop} :
    Within P (fun l' => ∃ links, l' = { l with links := links }) (rescan c l) := by
  unfold rescan
  refine within_bind.mpr ((orElapsed_within hP (by decide)).mono fun due _ => ?_)
  cases due
  case false => exact ⟨l.links, rfl⟩
  exact ⟨hfind, fun links => ⟨hP _ rfl, fun _ => ⟨links, rfl⟩⟩⟩

theorem syncQos_within {l : Loop} : Within P (fun _ => True) (syncQos l) := by
  unfold syncQos
  refine within_bind.mpr ((orElapsed_within hP (by decide)).mono fun due _ => ?_)
  cases due
  case false => trivial
  exact ⟨hP _ rfl, fun _ => ⟨hP _ rfl, fun _ => trivial⟩⟩

theorem intact_within {c : Setup} {l : Loop}
    (hrules : ∀ v6 active kernel value, P (.rulesOk v6 active l.links kernel l.activeWorkers value c.v6)) :
    Within P (fun _ => True) (intact c l) := by
  unfold intact
  refine within_bind.mpr ((orElapsed_within hP (by decide)).mono fun due _ => ?_)
  split
  case isFalse => trivial
  refine within_bind.mpr ⟨hP _ rfl, fun _ => within_bind.mpr ⟨hrules _ _ _ _, fun ok => ?_⟩⟩
  cases ok
  case false => trivial
  dsimp only
  split
  · exact ⟨hrules _ _ _ _, fun _ => trivial⟩
  · trivial

theorem coolDown_within : ∀ n, Within P (fun _ => True) (coolDown n)
  | 0 => trivial
  | n + 1 => by
    unfold coolDown
    refine within_bind.mpr ⟨hP _ rfl, fun stopping => ?_⟩
    cases stopping
    case true => trivial
    refine within_bind.mpr ⟨hP _ rfl, fun paused => ?_⟩
    cases paused
    case true => trivial
    exact ⟨hP _ rfl, fun _ => coolDown_within n⟩

theorem housekeep_within {c : Setup} {l : Loop} : Within P (fun _ => True) (housekeep c l) := by
  unfold housekeep
  refine within_bind.mpr ⟨hP _ rfl, fun due => ?_⟩
  cases due
  case false => trivial
  exact ⟨hP _ rfl, fun _ => ⟨hP _ rfl, fun _ => ⟨hP _ rfl, fun _ => trivial⟩⟩⟩

theorem waitNext_within {c : Setup} {l : Loop} : Within P (fun _ => True) (waitNext c l) := by
  unfold waitNext
  cases c.watcher
  case false => exact ⟨hP _ rfl, fun _ => trivial⟩
  refine within_bind.mpr ⟨hP _ rfl, fun changed => ?_⟩
  cases changed
  case false => trivial
  exact ⟨hP _ rfl, fun _ => trivial⟩

theorem rest_within (hstable : P (.elapsed .stable 60000)) {c : Setup} {l : Loop} :
    Within P (fun l' => ∃ failures changed, l' = { l with failures := failures, changed := changed }) (rest c l) := by
  refine within_bind.mpr ⟨hstable, fun stable => ?_⟩
  refine within_bind.mpr ((housekeep_within hP).mono fun _ _ => ?_)
  exact within_bind.mpr ((waitNext_within hP).mono fun changed _ => ⟨_, changed, rfl⟩)

theorem report_within (hwrite : ∀ text, P (.writeState "queue.stats" text)) {c : Setup} {l : Loop} {qs : QStats} :
    Within P (fun r => ∃ progress warn, r.1 = { l with queueProgress := progress, warnBacklog := warn })
      (report c l qs) := by
  have hend : ∀ (progress : Progress) (warn stalled : Nat) (text text' : String), Within P
      (fun r => ∃ progress warn, r.1 = { l with queueProgress := progress, warnBacklog := warn }) (do
        if warn % 20 = 1 then log text'
        writeState "queue.stats" text
        return ({ l with queueProgress := progress, warnBacklog := warn }, stalled)) := by
    intro progress warn stalled text text'
    have hlast : Within P (fun r => ∃ progress warn, r.1 = { l with queueProgress := progress, warnBacklog := warn }) (do
        writeState "queue.stats" text
        return ({ l with queueProgress := progress, warnBacklog := warn }, stalled)) :=
      ⟨hwrite text, fun _ => ⟨progress, warn, rfl⟩⟩
    split
    · exact ⟨hP _ rfl, fun _ => hlast⟩
    · exact hlast
  unfold report
  dsimp only
  split
  · exact ⟨hP _ rfl, fun _ => hend _ _ _ _ _⟩
  · exact hend _ _ _ _ _

end mild

variable (hP : ∀ op, calm op = true → P op)
include hP

theorem stop_within {site : Site} (items : List Worker) (hsite : ∀ w ∈ items, P (.terminate site w.pid)) :
    Within P (fun _ => True) (Workers.stop site items) := by
  have hterm : ∀ w ∈ items, Within P (fun _ => True) (do
      let _ ← ask (.terminate site w.pid)) := fun w hw => ⟨hsite w hw, fun _ => trivial⟩
  have hreap : ∀ w ∈ items, Within P (fun _ => True) (do
      if !(← ask (.tryWait w.pid)) then ask (.kill w.pid)
      ask (.reap w.pid)
      ask (.removeState (Workers.pidFile w.queue))) := by
    intro w _
    simp [within_ite]
    grind [calm, quiet]
  unfold Workers.stop
  refine within_bind.mpr ((within_forM items hterm).mono fun _ _ => ?_)
  split
  · refine within_bind.mpr ⟨hP _ rfl, fun _ => within_bind.mpr ((within_forM items hreap).mono fun _ _ => ?_)⟩
    exact ⟨hP _ rfl, fun _ => trivial⟩
  · refine within_bind.mpr ((within_forM items hreap).mono fun _ _ => ?_)
    exact ⟨hP _ rfl, fun _ => trivial⟩

theorem allOwn_within : ∀ items : List Worker, Within P (fun _ => True) (Workers.allOwn items)
  | [] => trivial
  | w :: ws => by
    simp [Workers.allOwn, within_ite, allOwn_within ws]
    exact ⟨hP _ rfl, hP _ rfl⟩

theorem healthy_within (items : List Worker) (count : Nat) :
    Within P (fun _ => True) (Workers.healthy items count) := by
  simp [Workers.healthy, within_ite, allOwn_within hP]

theorem takeDown_within (hsite : ∀ pid, P (.terminate .recover pid)) {c : Setup} {l : Loop} :
    Within P (fun l' => l'.active4 = none ∧ l'.active6 = none ∧ l'.last = l.last ∧ l'.links = l.links) (takeDown c l) := by
  unfold takeDown
  refine within_bind.mpr ((stop_within hP l.items fun w _ => hsite w.pid).mono fun _ _ => ?_)
  dsimp only
  split
  · refine within_bind.mpr ⟨hP _ rfl, fun _ => within_bind.mpr ⟨hP _ rfl, fun _ => ?_⟩⟩
    exact within_bind.mpr ((coolDown_within (mildly hP) _).mono fun _ _ => ⟨rfl, rfl, rfl, rfl⟩)
  · exact within_bind.mpr ((coolDown_within (mildly hP) _).mono fun _ _ => ⟨rfl, rfl, rfl, rfl⟩)

section start
variable (hstart : ∀ pid, P (.terminate .start pid))
include hstart

theorem awaitReady_within (items : List Worker) (count : Nat) : ∀ n,
    Within P (fun _ => True) (Workers.awaitReady items count n)
  | 0 => trivial
  | n + 1 => by
    unfold Workers.awaitReady
    refine within_bind.mpr ⟨hP _ rfl, fun stopping => ?_⟩
    cases stopping
    case true => exact within_bind.mpr ((stop_within hP items fun w _ => hstart w.pid).mono fun _ _ => trivial)
    have hagain : Within P (fun _ => True) (do
        ask (.sleep 100)
        Workers.awaitReady items count n) := ⟨hP _ rfl, fun _ => awaitReady_within items count n⟩
    refine within_bind.mpr ((healthy_within hP items count).mono fun healthy _ => ?_)
    cases healthy
    case false => exact hagain
    refine within_bind.mpr ((allReady_within (fun _ => hP _ rfl) items).mono fun ready _ => ?_)
    cases ready
    case false => exact hagain
    trivial

variable (hspawn : ∀ q args, P (.spawn q args))
include hspawn

theorem spawnAll_within {c : Config} : ∀ (qs : List Nat) (items : List Worker),
    Within P (fun _ => True) (Workers.spawnAll c items qs)
  | [], _ => trivial
  | q :: qs, items => by
    have hgive : Within P (fun _ => True) (do
        Workers.stop .start items
        return (false, ([] : List Worker))) := within_bind.mpr ((stop_within hP items fun w _ => hstart w.pid).mono fun _ _ => trivial)
    refine ⟨hP _ rfl, fun opened => ?_⟩
    cases opened
    · exact ⟨hP _ rfl, fun _ => hgive⟩
    refine ⟨hP _ rfl, fun cloned => ?_⟩
    cases cloned
    · exact hgive
    refine ⟨hspawn _ _, fun pid => ?_⟩
    cases pid with
    | none => exact hgive
    | some pid =>
      refine ⟨hP _ rfl, fun _ => ?_⟩
      by_cases hq : q = queueBase
      · simp only [hq, if_true]
        exact ⟨hP _ rfl, fun _ => spawnAll_within qs _⟩
      · simp only [hq, if_false]
        exact spawnAll_within qs _

theorem start_within {c : Config} (items : List Worker) (count : Nat) :
    Within P (fun _ => True) (Workers.start c items count) := by
  unfold Workers.start
  refine within_bind.mpr ((stop_within hP items fun w _ => hstart w.pid).mono fun _ _ => ?_)
  refine within_bind.mpr ((allFree_within (fun _ => hP _ rfl) (fun _ => hP _ rfl) _).mono fun free _ => ?_)
  cases free
  case false => trivial
  refine within_bind.mpr ((spawnAll_within hP hstart hspawn _ []).mono fun spawned _ => ?_)
  obtain ⟨ok, items⟩ := spawned
  cases ok
  case false => trivial
  exact awaitReady_within hP hstart items count 80

theorem ensureWorkers_within {c : Setup} {l : Loop} : Within P (fun _ => True) (ensureWorkers c l) := by
  unfold ensureWorkers
  split
  case isFalse => trivial
  refine within_bind.mpr ((healthy_within hP _ _).mono fun healthy _ => ?_)
  cases healthy
  · exact start_within hP hstart hspawn _ _
  · trivial

end start

end within

end Nfqttl.Daemon
