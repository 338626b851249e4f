/-
Hook removal precedes worker termination. `ctl.rs` says so of its own `stop`, and the
loop keeps to it when it idles, recovers and shuts down: each of these calls `cleanup`
and then stops the workers. `Workers::start` does not. It stops what runs before it
starts anew, and what it has started when it gives up, with the rules still attached
when the loop calls it to reinstall them.

So it depends on what runs then: the loop runs on a phone where workers die at any time
and every operation answers as the phone likes.
-/
import Nfqttl.Retry

namespace Nfqttl.Daemon

open Effect

/-- A worker was told to stop that was still running. -/
def Event.hits : Event → Bool
  | .stopped _ _ running => running
  | _ => false

/-- Whenever a running worker is stopped, `cleanup` was called since the last `install4`
that went through. -/
def HooksFirst (t : Trace) : Prop := Always (fun u e => e.hits = true → hooked u = false) t

/-! ## The phone -/

/-- The daemon's processes that run, and what happened up to now. -/
structure World where
  now : Nat
  running : List Nat
  trace : Trace

/-- What the operations answer in each state of the world, and which processes die before the next one. -/
structure Phone where
  answer : (op : DaemonOp) → World → DaemonSig.Ans op
  dies : World → List Nat
  installs : ∀ links kernel workers ttl active w,
    Installs active (answer (.install4 links kernel workers ttl active) w)

namespace Phone

def alive (phone : Phone) (w : World) : List Nat := w.running.filter (· ∉ phone.dies w)

/-- A process is found running if it is. -/
def answers (phone : Phone) (op : DaemonOp) (w : World) : DaemonSig.Ans op :=
  match op with
  | .terminate _ pid => decide (pid ∈ phone.alive w)
  | .tryWait pid => decide (pid ∉ phone.alive w)
  | op => phone.answer op w

/-- The processes that run after an operation. -/
def leaves (running : List Nat) : (op : DaemonOp) → DaemonSig.Ans op → List Nat
  | .spawn .., some pid => pid :: running
  | .kill pid, _ => running.filter (· != pid)
  | .reap pid, _ => running.filter (· != pid)
  | _, _ => running

def handler (phone : Phone) : Handler DaemonSig World := fun op w =>
  (phone.answers op w,
    ⟨w.now + 1, leaves (phone.alive w) op (phone.answers op w), w.trace ++ events op (phone.answers op w)⟩)

abbrev sem (phone : Phone) : Sem DaemonSig World := phone.handler.sem

end Phone

/-- The answers that make `Workers::start` give up and stop what it has started. -/
def givesUp : (op : DaemonOp) → DaemonSig.Ans op → Bool
  | .openLog _, opened => !opened
  | .cloneLog _, cloned => !cloned
  | .spawn .., pid => pid.isNone
  | .stopping, stopping => stopping
  | _, _ => false

/-- No process is in the way of a `Workers::start`: none of the previous workers runs when it is called, and
none at all where it gives up. -/
structure Phone.Vacant (phone : Phone) (c : Config) (items : List Worker) (count : Nat) (w : World) : Prop where
  stopped : ∀ x ∈ items, x.pid ∉ w.running
  started : ∀ op w', Asks phone.sem (Workers.start c items count) w op w' → givesUp op (phone.answers op w') = true →
    w'.running = []

/-- If a turn begins with rules attached, no process is in the way of the `Workers::start` it comes to. -/
def Phone.Spares (phone : Phone) (c : Setup) (l : Loop) (w : World) : Prop :=
  l.active4.isSome = true → ∀ items count k w',
    Leads phone.sem (turn c l) w (Workers.start c.config items count >>= k) w' → phone.Vacant c.config items count w'

/-- The loop's turns from its start, which comes after a `cleanup` that went through, each of them begun with `P`. -/
inductive Course (phone : Phone) (c : Setup) (workers : Nat) (P : Loop → World → Prop) : Loop → World → Prop
  | start : Course phone c workers P (.initial workers) ⟨0, [], [.cleanup true]⟩
  | turn {l l' : Loop} {w w' : World} : Course phone c workers P l w → P l w →
      Runs phone.sem (turn c l) w (some l') w' → Course phone c workers P l' w'

/-- Where the loop may be cut, and what comes after it. -/
inductive Arrives (phone : Phone) (c : Setup) (workers : Nat) (P : Loop → World → Prop) : World → Prop
  | turn {l : Loop} {w w' : World} : Course phone c workers P l w → P l w →
      Visits phone.sem (turn c l) w w' → Arrives phone c workers P w'
  | left {l : Loop} {w w' w'' : World} : Course phone c workers P l w → P l w →
      Runs phone.sem (turn c l) w none w' → Visits phone.sem (shutdown l) w' w'' → Arrives phone c workers P w''

/-! ## One operation -/

variable {phone : Phone} {w w' : World} {op : DaemonOp}

theorem sem_answers {a : DaemonSig.Ans op} (hr : phone.sem op w a w') : phone.answers op w = a :=
  congrArg Prod.fst hr

theorem sem_running {a : DaemonSig.Ans op} (hr : phone.sem op w a w') :
    w'.running = Phone.leaves (phone.alive w) op a := by
  obtain ⟨rfl, rfl⟩ := Prod.mk.inj hr
  rfl

theorem sem_logged {a : DaemonSig.Ans op} (hr : phone.sem op w a w') : logged op w.trace a w'.trace := by
  obtain ⟨rfl, rfl⟩ := Prod.mk.inj hr
  cases op with
  | install4 links kernel workers ttl active => exact ⟨rfl, phone.installs links kernel workers ttl active w⟩
  | _ => exact ⟨rfl, trivial⟩

theorem mem_alive {pid : Nat} (h : pid ∈ phone.alive w) : pid ∈ w.running := List.mem_of_mem_filter h

/-- Any operation but a `spawn`. -/
def bears : DaemonOp → Bool
  | .spawn .. => true
  | _ => false

theorem sem_shrinks (hop : bears op = false) {a : DaemonSig.Ans op} (hr : phone.sem op w a w') :
    ∀ pid ∈ w'.running, pid ∈ w.running := by
  intro pid hmem
  rw [sem_running hr] at hmem
  cases op with
  | spawn => cases hop
  | kill => exact mem_alive (List.mem_of_mem_filter hmem)
  | reap => exact mem_alive (List.mem_of_mem_filter hmem)
  | _ => exact mem_alive hmem

/-- A process that was told to stop and runs, ran. -/
theorem sem_terminate {site : Site} {pid : Nat} {a : Bool} (hr : phone.sem (.terminate site pid) w a w')
    (ha : a = true) : pid ∈ w.running := by
  rw [← sem_answers hr] at ha
  exact mem_alive (of_decide_eq_true ha)

/-- Any operation that stops no worker. -/
def plain : DaemonOp → Bool
  | .terminate .. => false
  | _ => true

theorem plain_of_calm (op : DaemonOp) (h : calm op = true) : plain op = true := by
  have hquiet := quiet_of_calm op h
  cases op <;> first | rfl | cases hquiet

theorem not_installs_of_calm (op : DaemonOp) (h : calm op = true) : installs op = false := by
  have hquiet := quiet_of_calm op h
  cases op <;> first | rfl | cases hquiet

theorem HooksFirst.plain {a : DaemonSig.Ans op} (hop : plain op = true) (h : HooksFirst w.trace)
    (hr : phone.sem op w a w') : HooksFirst w'.trace := by
  rcases logged_cases (sem_logged hr) with ht | ⟨-, ok, ht⟩ | ⟨-, ht⟩ | ⟨site, pid, running, rfl, -⟩
  · exact ht ▸ h
  · exact ht ▸ always_snoc.mpr ⟨h, by simp [Event.hits]⟩
  · exact ht ▸ always_snoc.mpr ⟨h, by simp [Event.hits]⟩
  · cases hop

/-- A worker that does not run may be stopped. -/
theorem HooksFirst.gone {site : Site} {pid : Nat} {a : Bool} (hgone : pid ∉ w.running) (h : HooksFirst w.trace)
    (hr : phone.sem (.terminate site pid) w a w') : HooksFirst w'.trace := by
  have hno : a = false := by
    rw [Bool.eq_false_iff]
    exact fun ha => hgone (sem_terminate hr ha)
  have ht : w'.trace = w.trace ++ [.stopped site pid a] := (sem_logged hr).1
  rw [ht, hno]
  exact always_snoc.mpr ⟨h, by simp [Event.hits]⟩

/-- With the rules detached any worker may be stopped, and nothing but `install4` attaches them. -/
def Detached (w : World) : Prop := HooksFirst w.trace ∧ hooked w.trace = false

theorem Detached.step {a : DaemonSig.Ans op} (hop : installs op = false) (h : Detached w) (hr : phone.sem op w a w') :
    Detached w' := by
  obtain ⟨h, hh⟩ := h
  rcases logged_cases (sem_logged hr) with ht | ⟨-, ok, ht⟩ | ⟨hi, -⟩ | ⟨site, pid, running, -, ht⟩
  · exact ⟨ht ▸ h, ht ▸ hh⟩
  · exact ⟨ht ▸ always_snoc.mpr ⟨h, by simp [Event.hits]⟩, ht ▸ hooked_cleanup⟩
  · rw [hi] at hop
    cases hop
  · exact ⟨ht ▸ always_snoc.mpr ⟨h, fun _ => hh⟩, ht ▸ hooked_stopped.trans hh⟩

/-! ## The parts of a turn -/

/-- In order up to wherever `p` is cut. -/
abbrev Orderly {α : Type} (phone : Phone) (p : DaemonProg α) (w : World) : Prop :=
  Keeps phone.sem (HooksFirst ·.trace) (fun _ w' => HooksFirst w'.trace) p w

/-- Started in order, `p` stays in order. -/
def Kept {α : Type} (phone : Phone) (p : DaemonProg α) : Prop := ∀ w, HooksFirst w.trace → Orderly phone p w

theorem Kept.pure {α : Type} {a : α} : Kept phone (.ret a : DaemonProg α) := fun _ h => ⟨h, h⟩

theorem Kept.bind {α β : Type} {p : DaemonProg α} {f : α → DaemonProg β} (hp : Kept phone p) (hf : ∀ a, Kept phone (f a)) :
    Kept phone (p >>= f) := fun w h =>
  keeps_bind.mpr ((hp w h).post fun a w' _ h' => hf a w' h')

theorem Kept.of_within {α : Type} {Q : α → Prop} {p : DaemonProg α} (h : Within (plain · = true) Q p) : Kept phone p :=
  fun _ hw => (h.keeps (I := fun w' : World => HooksFirst w'.trace) (fun _ _ _ _ hop hw hr => HooksFirst.plain hop hw hr) hw).post
    fun _ _ _ h' => h'.1

theorem Kept.of_ask {α : Type} {f : DaemonSig.Ans op → DaemonProg α} (hop : Daemon.plain op = true)
    (hf : ∀ a, Kept phone (f a)) : Kept phone (ask op >>= f) := fun _ h =>
  ⟨h, fun a w' hr => hf a w' (h.plain hop hr)⟩

/-- Detached, `p` stays so. -/
theorem Detached.keeps {α : Type} {p : DaemonProg α} (hp : Within (installs · = false) (fun _ => True) p)
    (hw : Detached w) : Orderly phone p w :=
  (hp.keeps (I := Detached) (fun _ _ _ _ hop h hr => h.step hop hr) hw).mono (fun _ h => h.1) fun _ _ h _ => h.1

/-- After a `cleanup` anything goes but `install4`. -/
theorem Kept.cleanup {α : Type} {f : Bool → DaemonProg α}
    (hf : ∀ ok, Within (installs · = false) (fun _ => True) (f ok)) : Kept phone (ask .cleanup >>= f) := by
  intro w hw
  refine ⟨hw, fun ok w' hr => ?_⟩
  have ht : w'.trace = w.trace ++ [.cleanup ok] := (sem_logged hr).1
  exact Detached.keeps (hf ok) ⟨ht ▸ always_snoc.mpr ⟨hw, by simp [Event.hits]⟩, ht ▸ hooked_cleanup⟩

theorem recover_kept {c : Setup} {l : Loop} {why : String} : Kept phone (recover c l why) := by
  have hdown := takeDown_within (P := (installs · = false)) not_installs_of_calm (fun _ => rfl) (c := c) (l := l)
  unfold recover
  refine .of_ask rfl fun _ => .of_ask rfl fun _ => .of_ask rfl fun _ => .cleanup fun ok => ?_
  cases ok
  · exact within_bind.mpr ⟨rfl, fun _ => hdown.mono fun _ _ => trivial⟩
  · exact hdown.mono fun _ _ => trivial

theorem recoverFirst_kept {c : Setup} {l : Loop} {why : String} : Kept phone (recoverFirst c l why) :=
  recover_kept.bind fun _ => .pure

theorem idle_kept {l : Loop} : Kept phone (idle l) := by
  have hend : ∀ l : Loop, Kept phone (do
      writeState "phase" "idle"
      writeState "interfaces" (interfaces l.links)
      return l) := fun l => .of_ask rfl fun _ => .of_ask rfl fun _ => .pure
  have hdetach : Kept phone (detach l) := by
    have hstop : Within (installs · = false) (fun _ => True) (Workers.stop .idle l.items) :=
      stop_within not_installs_of_calm l.items fun _ _ => rfl
    refine .cleanup ?_
    intro ok
    cases ok
    · exact within_bind.mpr ⟨rfl, fun _ => within_bind.mpr (hstop.mono fun _ _ => trivial)⟩
    · exact within_bind.mpr (hstop.mono fun _ _ => trivial)
  unfold idle
  split
  · exact hdetach.bind hend
  · exact Kept.pure.bind hend

theorem installRules_kept {c : Setup} {l : Loop} : Kept phone (installRules c l) := by
  unfold installRules
  refine .of_ask rfl ?_
  intro r
  obtain ⟨ok, active4⟩ := r
  cases ok
  · exact .pure
  · exact .of_ask rfl fun _ => .pure

theorem settle_kept {sig : String} {step : Step} : Kept phone (settle sig step) := by
  cases step
  · exact .of_ask rfl fun _ => .pure
  · exact .pure

theorem monitor_kept {c : Setup} {l : Loop} : Kept phone (monitor c l) := by
  have hsample : Kept phone (sample c l) := by
    refine .of_ask rfl fun _ => .of_ask rfl fun qs =>
      .bind (.of_within (healthy_within plain_of_calm _ _)) fun healthy => ?_
    split
    · exact recoverFirst_kept
    refine .bind (.of_within (report_within (mildly plain_of_calm) fun _ => rfl)) ?_
    intro r
    obtain ⟨l, stalled⟩ := r
    dsimp only
    split
    · exact recoverFirst_kept
    · exact .pure
  unfold monitor
  split
  case isFalse => exact .pure
  refine .of_ask rfl ?_
  intro due
  cases due
  · exact .pure
  · exact hsample

theorem shutdown_kept {l : Loop} : Kept phone (shutdown l) := by
  have hstop : ∀ site items, Within (installs · = false) (fun _ => True) (Workers.stop site items) :=
    fun site items => stop_within not_installs_of_calm items fun _ _ => rfl
  refine .cleanup fun cleaned => within_bind.mpr ((hstop _ _).mono fun _ _ => ?_)
  refine within_bind.mpr ⟨rfl, fun _ => within_bind.mpr ⟨rfl, fun _ => within_bind.mpr ⟨rfl, fun _ => ?_⟩⟩⟩
  exact within_bind.mpr ((hstop _ _).mono fun _ _ => trivial)

/-! ## `Workers::start` -/

section start
variable {c : Config} {items : List Worker} {count : Nat}

/-- Workers that do not run may be stopped. -/
theorem stop_orderly {site : Site} (hw : HooksFirst w.trace) (hgone : ∀ x ∈ items, x.pid ∉ w.running) :
    Keeps phone.sem (HooksFirst ·.trace) (fun _ w' => HooksFirst w'.trace) (Workers.stop site items) w := by
  have hstop : Within (fun op : DaemonOp => bears op = false ∧
      ∀ site pid, op = .terminate site pid → ∃ x ∈ items, x.pid = pid) (fun _ => True) (Workers.stop site items) := by
    refine stop_within ?_ items ?_
    · intro op hop
      cases op with
      | terminate => cases hop
      | spawn => cases hop
      | _ => exact ⟨rfl, fun _ _ h => by cases h⟩
    · intro x hx
      refine ⟨rfl, fun _ _ h => ?_⟩
      cases h
      exact ⟨x, hx, rfl⟩
  refine (hstop.keeps (I := fun w' : World => HooksFirst w'.trace ∧ ∀ pid ∈ w'.running, pid ∈ w.running) ?_ ⟨hw, fun _ h => h⟩).mono
    (fun _ h => h.1) fun _ _ h _ => h.1
  intro op w₁ a w₂ hop h hr
  obtain ⟨hbears, hterm⟩ := hop
  refine ⟨?_, fun pid hpid => h.2 pid (sem_shrinks hbears hr pid hpid)⟩
  cases hplain : plain op with
  | true => exact h.1.plain hplain hr
  | false =>
    cases op with
    | terminate site pid =>
      obtain ⟨x, hx, rfl⟩ := hterm site pid rfl
      exact h.1.gone (fun hmem => hgone x hx (h.2 _ hmem)) hr
    | _ => cases hplain

/-- Where `p` gives up, no process runs. -/
def Gives {α : Type} (phone : Phone) (p : DaemonProg α) (w : World) : Prop :=
  ∀ op w', Asks phone.sem p w op w' → givesUp op (phone.answers op w') = true → w'.running = []

theorem Gives.now {α : Type} {f : DaemonSig.Ans op → DaemonProg α} {a : DaemonSig.Ans op}
    (h : Gives phone (.op op f) w) (hr : phone.sem op w a w') (ha : givesUp op a = true) : w.running = [] :=
  h op w .here (sem_answers hr ▸ ha)

theorem Gives.next {α : Type} {f : DaemonSig.Ans op → DaemonProg α} {a : DaemonSig.Ans op}
    (h : Gives phone (.op op f) w) (hr : phone.sem op w a w') : Gives phone (f a) w' :=
  fun o w'' ha => h o w'' (.op hr ha)

theorem Gives.left {α β : Type} {p : DaemonProg β} {f : β → DaemonProg α} (h : Gives phone (p >>= f) w) : Gives phone p w :=
  fun o w' ha => h o w' (ha.left f)

theorem Gives.bind {α β : Type} {p : DaemonProg β} {f : β → DaemonProg α} {b : β} (h : Gives phone (p >>= f) w)
    (hr : Runs phone.sem p w b w') : Gives phone (f b) w' := fun o w'' ha => h o w'' (ha.bind hr)

/-- A part that leaves no event. -/
theorem quietly {α β : Type} {Q : β → Prop} {p : DaemonProg β} {f : β → DaemonProg α} (hw : HooksFirst w.trace)
    (hp : Within (quiet · = true) Q p)
    (hf : ∀ b w', HooksFirst w'.trace → w'.trace = w.trace → Runs phone.sem p w b w' → Orderly phone (f b) w') :
    Orderly phone (p >>= f) w := by
  have hsame : Keeps phone.sem (HooksFirst ·.trace) (fun _ w' => w'.trace = w.trace) p w := by
    refine (hp.keeps (I := fun w' : World => w'.trace = w.trace) ?_ rfl).mono (fun _ h => h ▸ hw) fun _ _ h _ => h
    intro op w₁ a w₂ hop h hr
    rw [(sem_logged hr).1, events_of_quiet hop a, List.append_nil, h]
  refine keeps_bind.mpr (hsame.traced.post ?_)
  intro b w' hw' h
  exact hf b w' hw' h.1 h.2

theorem giveUp_orderly {r : Bool × List Worker} (hw : HooksFirst w.trace) (hidle : w.running = []) :
    Orderly phone (do
      Workers.stop .start items
      return r) w := by
  have hgone : ∀ x ∈ items, x.pid ∉ w.running := fun x _ => hidle ▸ List.not_mem_nil
  exact keeps_bind.mpr ((stop_orderly hw hgone).post fun _ _ hw' _ => ⟨hw', hw'⟩)

theorem idle_of_shrinks (hop : bears op = false) {a : DaemonSig.Ans op} (hr : phone.sem op w a w')
    (hidle : w.running = []) : w'.running = [] :=
  List.eq_nil_iff_forall_not_mem.mpr fun pid hmem => absurd (hidle ▸ sem_shrinks hop hr pid hmem) List.not_mem_nil

theorem spawnAll_orderly : ∀ (qs : List Nat) (items : List Worker) (w : World), HooksFirst w.trace →
    Gives phone (Workers.spawnAll c items qs) w → Orderly phone (Workers.spawnAll c items qs) w
  | [], _, _, hw, _ => ⟨hw, hw⟩
  | q :: qs, items, w, hw, hg => by
    refine ⟨hw, fun opened w₁ hr₁ => ?_⟩
    have hw₁ : HooksFirst w₁.trace := hw.plain rfl hr₁
    have hg₁ := hg.next hr₁
    cases opened
    case false =>
      have hidle := idle_of_shrinks rfl hr₁ (hg.now hr₁ rfl)
      exact ⟨hw₁, fun _ w₂ hr₂ => giveUp_orderly (hw₁.plain rfl hr₂) (idle_of_shrinks rfl hr₂ hidle)⟩
    refine ⟨hw₁, fun cloned w₂ hr₂ => ?_⟩
    have hw₂ : HooksFirst w₂.trace := hw₁.plain rfl hr₂
    have hg₂ := hg₁.next hr₂
    cases cloned
    case false => exact giveUp_orderly hw₂ (idle_of_shrinks rfl hr₂ (hg₁.now hr₂ rfl))
    refine ⟨hw₂, fun pid w₃ hr₃ => ?_⟩
    have hw₃ : HooksFirst w₃.trace := hw₂.plain rfl hr₃
    have hg₃ := hg₂.next hr₃
    cases pid with
    | none =>
      have hnone : ∀ pid ∈ w₃.running, pid ∈ w₂.running := by
        intro pid hmem
        rw [sem_running hr₃] at hmem
        exact mem_alive hmem
      have hidle : w₃.running = [] := List.eq_nil_iff_forall_not_mem.mpr fun pid hmem =>
        absurd (hg₂.now hr₃ rfl ▸ hnone pid hmem) List.not_mem_nil
      exact giveUp_orderly hw₃ hidle
    | some pid =>
      refine ⟨hw₃, fun a w₄ hr₄ => ?_⟩
      have hw₄ : HooksFirst w₄.trace := hw₃.plain rfl hr₄
      have hg₄ := hg₃.next hr₄
      by_cases hq : q = queueBase
      · simp only [hq, if_true] at hg₄ ⊢
        exact ⟨hw₄, fun _ w₅ hr₅ => spawnAll_orderly qs _ w₅ (hw₄.plain rfl hr₅) (hg₄.next hr₅)⟩
      · simp only [hq, if_false] at hg₄ ⊢
        exact spawnAll_orderly qs _ w₄ hw₄ hg₄

theorem awaitReady_orderly : ∀ (n : Nat) (w : World), HooksFirst w.trace →
    Gives phone (Workers.awaitReady items count n) w → Orderly phone (Workers.awaitReady items count n) w
  | 0, _, hw, _ => ⟨hw, hw⟩
  | n + 1, w, hw, hg => by
    have hagain : ∀ w', HooksFirst w'.trace → Gives phone (do
        ask (.sleep 100)
        Workers.awaitReady items count n) w' → Orderly phone (do
        ask (.sleep 100)
        Workers.awaitReady items count n) w' :=
      fun w' hw' hg' => ⟨hw', fun _ w'' hr => awaitReady_orderly n w'' (hw'.plain rfl hr) (hg'.next hr)⟩
    refine ⟨hw, fun stopping w₁ hr₁ => ?_⟩
    have hw₁ : HooksFirst w₁.trace := hw.plain rfl hr₁
    have hg₁ := hg.next hr₁
    cases stopping
    case true => exact giveUp_orderly hw₁ (idle_of_shrinks rfl hr₁ (hg.now hr₁ rfl))
    change Gives phone (Workers.healthy items count >>= _) w₁ at hg₁
    change Orderly phone (Workers.healthy items count >>= _) w₁
    refine quietly hw₁ (healthy_within quiet_of_calm items count) fun healthy w₂ hw₂ _ hr₂ => ?_
    have hg₂ := hg₁.bind hr₂
    cases healthy
    case false => exact hagain w₂ hw₂ hg₂
    change Gives phone (Workers.allReady items >>= _) w₂ at hg₂
    change Orderly phone (Workers.allReady items >>= _) w₂
    refine quietly hw₂ (allReady_within (fun _ => rfl) items) fun ready w₃ hw₃ _ hr₃ => ?_
    have hg₃ := hg₂.bind hr₃
    cases ready
    · exact hagain w₃ hw₃ hg₃
    · exact ⟨hw₃, hw₃⟩

/-- With no process in its way, `start` stops none that runs. -/
theorem start_orderly (hw : HooksFirst w.trace) (h : phone.Vacant c items count w) :
    Orderly phone (Workers.start c items count) w := by
  have hg : Gives phone (Workers.start c items count) w := h.started
  refine keeps_bind.mpr ((stop_orderly hw h.stopped).traced.post ?_)
  intro _ w₁ hw₁ h₁
  have hg₁ := hg.bind h₁.2
  refine quietly hw₁ (allFree_within (fun _ => rfl) (fun _ => rfl) _) fun free w₂ hw₂ _ hr₂ => ?_
  have hg₂ := hg₁.bind hr₂
  cases free
  case false => exact ⟨hw₂, hw₂⟩
  refine keeps_bind.mpr ((spawnAll_orderly _ [] w₂ hw₂ hg₂.left).traced.post ?_)
  intro r w₃ hw₃ h₃
  have hg₃ := hg₂.bind h₃.2
  obtain ⟨ok, items'⟩ := r
  cases ok
  case false => exact ⟨hw₃, hw₃⟩
  exact awaitReady_orderly 80 w₃ hw₃ hg₃

end start

/-! ## A turn -/

variable {c : Setup} {l : Loop}

/-- No rules are attached, or no process is in the way of the `Workers::start` that `p` comes to. -/
def Meets {α : Type} (phone : Phone) (c : Setup) (p : DaemonProg α) (w : World) : Prop :=
  hooked w.trace = false ∨ ∀ items count k w',
    Leads phone.sem p w (Workers.start c.config items count >>= k) w' → phone.Vacant c.config items count w'

theorem Meets.left {α β : Type} {p : DaemonProg β} {f : β → DaemonProg α} (h : Meets phone c (p >>= f) w) :
    Meets phone c p w := by
  refine h.imp_right fun hv items count k w' hl => ?_
  refine hv items count (fun r => k r >>= f) w' ?_
  rw [← bind_assoc]
  exact hl.left f

theorem Meets.bind {α β : Type} {p : DaemonProg β} {f : β → DaemonProg α} {b : β} (h : Meets phone c (p >>= f) w)
    (hr : Runs phone.sem p w b w') (ht : w'.trace = w.trace) : Meets phone c (f b) w' := by
  refine h.imp (fun hh => ht ▸ hh) fun hv items count k w'' hl => ?_
  exact hv items count k w'' (hl.bind hr)

theorem ensureWorkers_orderly (hw : HooksFirst w.trace) (h : Meets phone c (ensureWorkers c l) w) :
    Orderly phone (ensureWorkers c l) w := by
  unfold ensureWorkers at h ⊢
  split at h
  case isFalse hb =>
    rw [if_neg hb]
    exact ⟨hw, hw⟩
  next hb =>
  rw [if_pos hb]
  refine quietly hw (healthy_within quiet_of_calm _ _) fun healthy w₁ hw₁ ht₁ hr₁ => ?_
  have h₁ := h.bind hr₁ ht₁
  cases healthy
  case true => exact ⟨hw₁, hw₁⟩
  rcases h₁ with hh | hv
  · exact Detached.keeps (start_within not_installs_of_calm (fun _ => rfl) (fun _ _ => rfl) _ _) ⟨hw₁, hh⟩
  · refine start_orderly hw₁ (hv l.items l.activeWorkers .ret w₁ ?_)
    rw [Prog.bind_ret_right]
    exact .here

theorem install_orderly (hw : HooksFirst w.trace) (h : Meets phone c (install c l) w) :
    Orderly phone (install c l) w := by
  have hphase : Within (quiet · = true) (fun _ => True) (writeState "phase" "installing") := ⟨rfl, fun _ => trivial⟩
  refine quietly hw hphase fun _ w₁ hw₁ ht₁ hr₁ => ?_
  have h₁ := h.bind hr₁ ht₁
  refine keeps_bind.mpr ((ensureWorkers_orderly hw₁ h₁.left).post fun r w₂ hw₂ _ => ?_)
  obtain ⟨ok, items⟩ := r
  cases ok
  case false => exact recoverFirst_kept w₂ hw₂
  refine keeps_bind.mpr ((installRules_kept w₂ hw₂).post fun r w₃ hw₃ _ => ?_)
  obtain ⟨ok, l⟩ := r
  cases ok
  case false => exact recoverFirst_kept w₃ hw₃
  have hend : Kept phone (do
      writeState "interfaces" (interfaces l.links)
      writeState "phase" "active"
      log ("rules active: " ++ interfaces l.links)
      return Step.go l) := .of_ask rfl fun _ => .of_ask rfl fun _ => .of_ask rfl fun _ => .pure
  exact hend w₃ hw₃

theorem update_orderly {whole : Bool} (hw : HooksFirst w.trace) (h : Meets phone c (update c l whole) w) :
    Orderly phone (update c l whole) w := by
  unfold update at h ⊢
  split at h
  case isFalse hb =>
    rw [if_neg hb]
    exact ⟨hw, hw⟩
  next hb =>
  rw [if_pos hb]
  dsimp only at h ⊢
  split at h
  · next hactive =>
    rw [if_pos hactive]
    exact keeps_bind.mpr ((install_orderly hw h.left).post fun step w₁ hw₁ _ => settle_kept w₁ hw₁)
  · next hactive =>
    rw [if_neg hactive]
    exact keeps_bind.mpr ((idle_kept w hw).post fun l' w₁ hw₁ _ => settle_kept w₁ hw₁)

theorem turn_orderly (hw : HooksFirst w.trace) (h : Meets phone c (turn c l) w) : Orderly phone (turn c l) w := by
  have hask : ∀ op, quiet op = true → Within (quiet · = true) (fun _ => True) (ask op) :=
    fun op hop => ⟨hop, fun _ => trivial⟩
  refine quietly hw (hask .stopping rfl) fun stopping w₁ hw₁ ht₁ hr₁ => ?_
  have h₁ := h.bind hr₁ ht₁
  cases stopping
  case true => exact ⟨hw₁, hw₁⟩
  refine quietly hw₁ (hask .halted rfl) fun halted w₂ hw₂ ht₂ hr₂ => ?_
  have h₂ := h₁.bind hr₂ ht₂
  cases halted
  case true =>
    have hend : Kept phone (do
        log "stopping: disabled/removed/paused"
        return (none : Option Loop)) := .of_ask rfl fun _ => .pure
    exact hend w₂ hw₂
  refine quietly hw₂ (rescan_within (mildly quiet_of_calm) rfl) fun l₁ w₃ hw₃ ht₃ hr₃ => ?_
  have h₃ := h₂.bind hr₃ ht₃
  refine quietly hw₃ (syncQos_within (mildly quiet_of_calm)) fun _ w₄ hw₄ ht₄ hr₄ => ?_
  have h₄ := h₃.bind hr₄ ht₄
  refine quietly hw₄ (intact_within (mildly quiet_of_calm) fun _ _ _ _ => rfl) fun whole w₅ hw₅ ht₅ hr₅ => ?_
  have h₅ := h₄.bind hr₅ ht₅
  refine keeps_bind.mpr ((update_orderly hw₅ h₅.left).post fun step w₆ hw₆ _ => ?_)
  cases step with
  | again l₂ => exact ⟨hw₆, hw₆⟩
  | go l₂ =>
    refine keeps_bind.mpr ((monitor_kept w₆ hw₆).post fun step w₇ hw₇ _ => ?_)
    cases step with
    | again l₃ => exact ⟨hw₇, hw₇⟩
    | go l₃ =>
      have hrest : Kept phone (rest c l₃) := .of_within (rest_within (mildly plain_of_calm) rfl)
      exact keeps_bind.mpr ((hrest w₇ hw₇).post fun _ w₈ hw₈ _ => ⟨hw₈, hw₈⟩)

/-! ## The runs -/

variable {workers : Nat} {P : Loop → World → Prop}

/-- The flags of the loop say what the trace does. -/
theorem Course.inStep (h : Course phone c workers P l w) : l.InStep w.trace := by
  induction h with
  | start => exact ⟨rfl, fun _ => ⟨rfl, rfl⟩⟩
  | turn _ _ hr ih =>
    have hlogged := hr.map (f := World.trace) fun _ _ _ _ hs => sem_logged hs
    exact ((turn_inStep ih).runs hlogged _ rfl).1

/-- Where no rules are attached nothing is asked of the phone. -/
theorem Course.meets (h : Course phone c workers P l w) (hp : phone.Spares c l w) : Meets phone c (Daemon.turn c l) w := by
  have hflag := h.inStep.hooked
  cases h4 : l.active4.isSome with
  | false => exact .inl (hflag.trans h4)
  | true => exact .inr (hp h4)

theorem Course.orderly (h : Course phone c workers (phone.Spares c) l w) : HooksFirst w.trace := by
  induction h with
  | start => exact always_snoc.mpr ⟨always_nil, by simp [Event.hits]⟩
  | turn hc hp hr ih => exact (turn_orderly ih (hc.meets hp)).runs hr

/-- **Hook removal precedes worker termination**, in every run, cut anywhere, in whose turns no process is in
the way of `Workers::start`: where a turn that begins with rules attached calls it, none of the previous workers
runs, and none at all where it gives up. -/
theorem hooks_first (h : Arrives phone c workers (phone.Spares c) w) : HooksFirst w.trace := by
  cases h with
  | turn hc hp hv => exact (turn_orderly hc.orderly (hc.meets hp)).visits hv
  | left hc hp hr hv => exact (shutdown_kept _ ((turn_orderly hc.orderly (hc.meets hp)).runs hr)).visits hv

/-! ## Phones -/

/-- Every operation succeeds, and a worker has the number of its queue. -/
def smooth (op : DaemonOp) (w : World) : DaemonSig.Ans op :=
  match op with
  | .discover => ⟨["ap0"], ["rmnet0"]⟩
  | .install4 _ _ _ _ active => (true, some (Firewall.inactive chainA chainB active))
  | .install6 .. => (true, none)
  | .spawn q _ => some q
  | .queueOwner q => if q ∈ w.running then some (q : Int) else none
  | .queueStats _ => ⟨w.running.length, 0, 0, 0, w.running.map fun q => (q, 0, 0)⟩
  | .rulesOk .. | .cleanup | .openLog _ | .cloneLog _ | .ready _ | .wait _ => true
  | .stopping | .halted | .paused | .elapsed .. | .terminate .. | .tryWait _ => false
  | .reset _ | .syncQos _ | .kill _ | .reap _ | .trimLogs _ | .sleep _ | .writeState .. | .removeState _ | .log _
  | .offloadApply _ | .offloadRestore => ()

/-- Once the rules are attached the upstream interface changes, and the first worker dies. -/
def roaming : Phone where
  answer op w :=
    match op with
    | .discover => if .installed ∈ w.trace then ⟨["ap0"], ["wlan0"]⟩ else ⟨["ap0"], ["rmnet0"]⟩
    | op => smooth op w
  dies w := if .installed ∈ w.trace then [6464] else []
  installs _ _ _ _ _ _ := .inr ⟨rfl, rfl⟩

/-- Once the rules are attached the daemon is to stop. -/
def quitting : Phone where
  answer op w :=
    match op with
    | .stopping => decide (.installed ∈ w.trace)
    | op => smooth op w
  dies _ := []
  installs _ _ _ _ _ _ := .inr ⟨rfl, rfl⟩

def twoQueues : Setup := ⟨{ backend := .nfqueue, workers := 2 }, .nfqueue, .passNoIp6tables, true⟩

/-- The variables and the world after the first turn. -/
def firstTurn (phone : Phone) : Option Loop × World :=
  (turn twoQueues (.initial 2)).eval phone.handler ⟨0, [], [.cleanup true]⟩

theorem course_first {l : Loop} (h : (firstTurn phone).1 = some l) (hp : P (.initial 2) ⟨0, [], [.cleanup true]⟩) :
    Course phone twoQueues 2 P l (firstTurn phone).2 := by
  have hrun := Prog.runs_eval (h := phone.handler) (turn twoQueues (.initial 2)) ⟨0, [], [.cleanup true]⟩
  exact .turn .start hp (h ▸ hrun)

def roamed : Loop := (firstTurn roaming).1.getD (.initial 2)

/-- The first worker died, so the change of interfaces restarts both: the second one is
stopped while the rules still send packets to its queue. -/
theorem hooks_first_restart : ∃ (phone : Phone) (c : Setup) (workers : Nat) (w : World), c.backend = .nfqueue ∧
    Arrives phone c workers (fun _ _ => True) w ∧ ¬HooksFirst w.trace := by
  have hcourse : Course roaming twoQueues 2 (fun _ _ => True) roamed (firstTurn roaming).2 := course_first rfl trivial
  have htrace : ((turn twoQueues roamed).eval roaming.handler (firstTurn roaming).2).2.trace =
      [.cleanup true, .installed, .stopped .start 6464 false] ++ .stopped .start 6465 true ::
        [.cleanup true, .stopped .recover 6464 false, .stopped .recover 6465 true] := by
    decide +kernel
  refine ⟨roaming, twoQueues, 2, _, rfl, .turn hcourse trivial (.of_runs (Prog.runs_eval _ _)), fun hf => ?_⟩
  have hlast := hf _ _ _ htrace rfl
  exact absurd hlast (by decide)

theorem start_first {c : Config} {items : List Worker} {count : Nat} {α : Type} {k : Bool × List Worker → DaemonProg α} :
    ∃ op f, op ≠ .stopping ∧ (Workers.start c items count >>= k) = .op op f := by
  cases items with
  | nil => exact ⟨_, _, (by simp), rfl⟩
  | cons x xs => exact ⟨_, _, (by simp), rfl⟩

def quit : Loop := (firstTurn quitting).1.getD (.initial 2)

/-- The second turn only sees that it is to stop. -/
theorem quitting_spares : quitting.Spares twoQueues quit (firstTurn quitting).2 := by
  intro _ items count k w' hl
  obtain ⟨op, f, hop, hstart⟩ : ∃ op f, op ≠ .stopping ∧ (Workers.start twoQueues.config items count >>= k) = .op op f :=
    start_first
  rw [hstart] at hl
  cases hl with
  | here => exact absurd rfl hop
  | op hr hl =>
    have hstop : quitting.answers .stopping (firstTurn quitting).2 = true := by decide +kernel
    rw [← sem_answers hr, hstop] at hl
    cases hl

/-- Both workers run until the daemon stops them, after it has removed the rules. -/
theorem hooks_first_quit : ∃ w : World, .stopped .shutdown 6465 true ∈ w.trace ∧ HooksFirst w.trace := by
  have hinitial : quitting.Spares twoQueues (.initial 2) ⟨0, [], [.cleanup true]⟩ := fun hf => by cases hf
  have hcourse : Course quitting twoQueues 2 (quitting.Spares twoQueues) quit (firstTurn quitting).2 :=
    course_first rfl hinitial
  have hleft := Prog.runs_eval (h := quitting.handler) (turn twoQueues quit) (firstTurn quitting).2
  have hnone : ((turn twoQueues quit).eval quitting.handler (firstTurn quitting).2).1 = none := rfl
  rw [hnone] at hleft
  refine ⟨_, ?_, hooks_first (.left hcourse quitting_spares hleft (.of_runs (Prog.runs_eval (shutdown quit) _)))⟩
  decide +kernel

end Nfqttl.Daemon
