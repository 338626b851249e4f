/-
What the daemon says of itself: the state files `phase`, `interfaces`, `backend`, `workers`
and `ipv6_mode`, and the pid files of its workers, which `nfqttl status` prints.

Between a change and the files that tell of it they are out of step, and while the daemon
takes its rules down they still say that it is active. What they have to tell is the truth
where it rests: from then until something happens, nobody corrects them.
-/
import Nfqttl.DaemonRun
import Nfqttl.Lifetime
import Nfqttl.Signature
import Std.Data.String.ToNat

namespace Nfqttl

open Effect

namespace Daemon

/-! ## What there is and what is told -/

/-- A worker process that was started and not waited for yet. -/
structure Hand where
  worker : Worker
  /-- What it was started with. -/
  args : List (List Char)
  /-- Whether it ran and had its queue when it was last looked at. -/
  well : Bool

structure Scene where
  /-- The state files by name. -/
  files : String → Option String
  /-- The settings that `Config::load` made of `config.conf`. -/
  config : Option Config
  /-- What `discover` last answered. -/
  found : Links
  /-- What the rules were installed for, until they are removed, or found to be damaged: the links, whether
  they set the TTL in the kernel, the workers and the TTL; for IPv6 the mode and the hop limit. -/
  rules4 : Option (Links × Bool × Nat × Nat)
  rules6 : Option (Links × V6Mode × Nat)
  /-- Whether there may be rules at all: since the last `cleanup` that went through, an installation was tried. -/
  attached : Bool
  /-- Whether the last `cleanup` failed, and no installation was tried since. -/
  failed : Bool
  hands : List Hand
  /-- Whether the daemon got the lock and put its pid there. -/
  entered : Bool

namespace Scene

def write (s : Scene) (name : String) (value : Option String) : Scene :=
  { s with files := fun n => if n = name then value else s.files n }

/-- A family's rules are no longer known to be as installed. -/
def damage (s : Scene) : Bool → Scene
  | false => { s with rules4 := none }
  | true => { s with rules6 := none }

def clear (s : Scene) : Scene := { s with rules4 := none, rules6 := none, attached := false, failed := false }

/-- A `cleanup` that fails leaves the rules of each family as they are, or takes some of them. -/
def Torn (s s' : Scene) : Prop :=
  ∃ rules4 rules6, s' = { s with rules4 := rules4, rules6 := rules6, failed := true } ∧
    (rules4 = s.rules4 ∨ rules4 = none) ∧ (rules6 = s.rules6 ∨ rules6 = none)

/-- An installation is tried: whether it goes through or not, rules may be there. -/
def try4 (s : Scene) (rules4 : Option (Links × Bool × Nat × Nat)) : Scene :=
  { s with rules4 := rules4, attached := true, failed := false }

def try6 (s : Scene) (rules6 : Option (Links × V6Mode × Nat)) : Scene :=
  { s with rules6 := rules6, attached := true, failed := false }

/-- The workers of `queue` are well if they own it. -/
def look (s : Scene) (queue : Nat) (owner : Option Int) : Scene :=
  { s with hands := s.hands.map fun h =>
      if h.worker.queue = queue then { h with well := owner == some (h.worker.pid : Int) } else h }

/-- The worker has exited. -/
def miss (s : Scene) (pid : Nat) : Scene :=
  { s with hands := s.hands.map fun h => if h.worker.pid = pid then { h with well := false } else h }

end Scene

/-- What the operations do to it, when the state files can be written. The links are `classify`'s, an installation
answers as the firewall's own may, and a `cleanup` that went through has removed every rule; every other answer
goes. -/
def scene : Sem DaemonSig Scene := fun op s a s' =>
  match op, a with
  | .discover, links => Classified links ∧ s' = { s with found := links }
  | .rulesOk v6 .., ok => s' = if ok then s else s.damage v6
  | .cleanup, ok => if ok then s' = s.clear else s.Torn s'
  | .install4 links kernel workers ttl active, r =>
    (∃ fw : Firewall, Yields (fw.install4 links kernel workers ttl active) r) ∧
      s' = s.try4 (if r.1 then some (links, kernel, workers, ttl) else none)
  | .install6 links mode hl _, r => s' = s.try6 (if r.1 then some (links, mode, hl) else none)
  | .spawn queue args, some pid => s' = { s with hands := s.hands ++ [⟨⟨queue, pid⟩, args, false⟩] }
  | .reap pid, _ => s' = { s with hands := s.hands.eraseP (·.worker.pid == pid) }
  | .tryWait pid, exited => s' = if exited then s.miss pid else s
  | .queueOwner queue, owner => s' = s.look queue owner
  | .writeState name value, _ => s' = s.write name (some value)
  | .removeState name, _ => s' = s.write name none
  | _, _ => s' = s

/-! ## The truth -/

namespace Scene

/-- The files tell what was chosen before the loop, and the number of workers. -/
structure Posted (s : Scene) (c : Setup) (workers : Nat) : Prop where
  config : s.config = some c.config
  backend : s.files "backend" = some (Life.backendName c.backend)
  workers : s.files "workers" = some (if c.backend == .kernel then "0" else toString workers)
  mode : s.files "ipv6_mode" = some (Life.modeName c.v6)

/-- The pid file of every worker has its pid. -/
def Badged (s : Scene) : Prop := ∀ h ∈ s.hands, s.files (Workers.pidFile h.worker.queue) = some (toString h.worker.pid)

/-- `active` is said, and is so: the rules are those of the settings for `links`, and each queue they name has
a worker that was well when it was last looked at. -/
structure Active (s : Scene) (c : Setup) (workers : Nat) (links : Links) : Prop where
  phase : s.files "phase" = some "active"
  interfaces : s.files "interfaces" = some (Daemon.interfaces links)
  rules4 : s.rules4 = some (links, c.kernel, workers, c.config.ttl)
  rules6 : s.rules6 = some (links, c.v6, c.config.ipv6Hl)
  queues : s.hands.map (·.worker.queue) = if c.backend == .kernel then [] else Workers.queues workers
  well : ∀ h ∈ s.hands, h.well = true
  badged : s.Badged

/-- There are no rules, unless the last `cleanup` failed. -/
def Bare (s : Scene) : Prop := s.attached = true → s.failed = true

/-- `idle` is said, no worker is left, and no rules, unless the last `cleanup` failed. -/
structure Idle (s : Scene) (links : Links) : Prop where
  phase : s.files "phase" = some "idle"
  interfaces : s.files "interfaces" = some (Daemon.interfaces links)
  bare : s.Bare
  hands : s.hands = []

def Settled (s : Scene) (c : Setup) (workers : Nat) (links : Links) : Prop :=
  links.active = true ∧ s.Active c workers links ∨ links.active = false ∧ s.Idle links

/-- The files tell the truth about the links found last. -/
def Told (s : Scene) : Prop := ∃ c workers, s.Posted c workers ∧ s.Settled c workers s.found

end Scene

/-- Each queue has the worker it needs, started with the settings of the configuration. -/
structure Scene.Serves (s : Scene) (kernel : Bool) (workers ttl : Nat) : Prop where
  settings : ∃ text, s.config = some (Config.load text) ∧ ttl = (Config.load text).ttl ∧
    ∀ h ∈ s.hands, h.args = Workers.args (Config.load text) h.worker.queue
  queues : s.hands.map (·.worker.queue) = if kernel then [] else Workers.queues workers
  few : 1 ≤ workers ∧ workers ≤ 8
  well : ∀ h ∈ s.hands, h.well = true

/-- Where the loop looks whether a minute has passed, it has dealt with everything and is about to wait. Where it
installs rules, the workers for them are there. -/
def truthful : DaemonOp → Scene → Prop
  | .elapsed .stable _, s => s.Told
  | .install4 _ kernel workers ttl _, s => s.Serves kernel workers ttl
  | _, _ => True

abbrev Tells {α : Type} (Q : α → Scene → Prop) (p : DaemonProg α) (s : Scene) : Prop := Guards scene truthful Q p s

variable {s s' : Scene} {items : List Worker} {α : Type}

/-! ## Operations -/

/-- The operations that change nothing of the scene. -/
def silent : DaemonOp → Bool
  | .stopping | .halted | .paused | .reset _ | .syncQos _ | .terminate .. | .kill _ | .openLog _ | .cloneLog _ | .ready _
  | .queueStats _ | .trimLogs _ | .sleep _ | .wait _ | .log _ | .offloadApply _ | .offloadRestore => true
  | .elapsed timer _ => timer != .stable
  | _ => false

theorem silent_of_mild (op : DaemonOp) (h : mild op = true) : silent op = true := by
  cases op with
  | elapsed timer ms => cases timer <;> first | rfl | cases h
  | _ => first | rfl | cases h

theorem truthful_silent {op : DaemonOp} (h : silent op = true) (s : Scene) : truthful op s := by
  cases op with
  | elapsed timer ms =>
    cases timer with
    | stable => cases h
    | _ => trivial
  | install4 => cases h
  | _ => trivial

theorem scene_silent {op : DaemonOp} (h : silent op = true) {a : DaemonSig.Ans op} (hr : scene op s a s') : s' = s := by
  cases op <;> first | exact hr | cases h

theorem tells_ask {op : DaemonOp} {f : DaemonSig.Ans op → DaemonProg α} {Q : α → Scene → Prop} (hop : truthful op s)
    (hf : ∀ a s', scene op s a s' → Tells Q (f a) s') : Tells Q (ask op >>= f) s := ⟨hop, hf⟩

/-- An operation that changes nothing of the scene. -/
theorem tells_still {op : DaemonOp} {f : DaemonSig.Ans op → DaemonProg α} {Q : α → Scene → Prop} (hop : silent op = true)
    (hf : ∀ a, Tells Q (f a) s) : Tells Q (ask op >>= f) s :=
  ⟨truthful_silent hop s, fun a _ hr => scene_silent hop hr ▸ hf a⟩

theorem tells_write {name value : String} {f : Unit → DaemonProg α} {Q : α → Scene → Prop}
    (hf : Tells Q (f ()) (s.write name (some value))) : Tells Q (writeState name value >>= f) s := by
  refine ⟨trivial, ?_⟩
  intro _ s' hr
  obtain rfl : s' = s.write name (some value) := hr
  exact hf

theorem tells_silent {Q : α → Prop} {p : DaemonProg α} (h : Within (silent · = true) Q p) :
    Tells (fun a s' => s' = s ∧ Q a) p s := by
  refine h.guards (I := (· = s)) (fun _ s hop _ => truthful_silent hop s) ?_ rfl
  intro op s₁ a s₂ hop hs hr
  rw [scene_silent hop hr, hs]

/-- A part that changes nothing. -/
theorem tells_past {β : Type} {P : β → Prop} {p : DaemonProg β} {f : β → DaemonProg α} {Q : α → Scene → Prop}
    (hp : Within (silent · = true) P p) (hf : ∀ b, P b → Tells Q (f b) s) : Tells Q (p >>= f) s := by
  refine guards_bind.mpr ((tells_silent hp).post ?_)
  intro b s' h
  obtain ⟨rfl, hb⟩ := h
  exact hf b hb

/-- The loop's operations do not touch the lock. -/
theorem scene_entered {op : DaemonOp} {a : DaemonSig.Ans op} (h : scene op s a s') : s'.entered = s.entered := by
  cases op with
  | discover =>
    obtain ⟨_, rfl⟩ := h
    rfl
  | rulesOk v6 =>
    obtain rfl : s' = if a then s else s.damage v6 := h
    cases a <;> cases v6 <;> rfl
  | cleanup =>
    cases a with
    | false =>
      obtain ⟨rules4, rules6, rfl, -⟩ : s.Torn s' := h
      rfl
    | true =>
      obtain rfl : s' = s.clear := h
      rfl
  | install4 =>
    obtain ⟨_, rfl⟩ := h
    rfl
  | spawn =>
    cases a <;> obtain rfl := h <;> rfl
  | tryWait pid =>
    obtain rfl : s' = if a then s.miss pid else s := h
    cases a <;> rfl
  | _ =>
    obtain rfl := h
    rfl

/-! ## The workers -/

/-- The files that tell of everything but single workers. -/
def telltale : List String := ["phase", "interfaces", "backend", "workers", "ipv6_mode", "last-error"]

theorem pidFile_inj {q q' : Nat} (h : Workers.pidFile q = Workers.pidFile q') : q = q' := by
  have hlist := congrArg String.toList h
  simp only [Workers.pidFile, String.toList_append, List.append_cancel_left_eq, List.append_cancel_right_eq] at hlist
  exact Nat.repr_injective (String.toList_inj.mp hlist)

theorem pidFile_digit (q : Nat) : (Workers.pidFile q).toList[7]?.any Char.isDigit = true := by
  obtain ⟨d, ds, hd⟩ := List.exists_cons_of_ne_nil (Nat.toDigits_ne_nil (n := q) (b := 10))
  have hdigit : d.isDigit = true := Nat.isDigit_of_mem_toDigits (by decide) (by decide) (hd ▸ List.mem_cons_self ..)
  have hlist : (Workers.pidFile q).toList = "worker.".toList ++ (d :: ds) ++ ".pid".toList := by
    rw [← hd, ← Nat.toList_repr, Workers.pidFile, String.toList_append, String.toList_append]
    rfl
  rw [hlist]
  exact hdigit

theorem pidFile_ne {q : Nat} {name : String} (h : name.toList[7]?.any Char.isDigit = false) : Workers.pidFile q ≠ name := by
  rintro rfl
  rw [pidFile_digit] at h
  cases h

theorem pidFile_notMem_telltale (q : Nat) : Workers.pidFile q ∉ telltale := by
  have hall : ∀ name ∈ telltale, name.toList[7]?.any Char.isDigit = false := by decide
  exact fun hmem => pidFile_ne (hall _ hmem) rfl

theorem queues_nodup (n : Nat) : (Workers.queues n).Nodup :=
  List.nodup_range.map fun _ _ h => Nat.add_left_cancel h

namespace Scene

/-- What the functions that deal with workers leave as it was. -/
structure Kept (s s' : Scene) : Prop where
  files : ∀ name ∈ telltale, s'.files name = s.files name
  config : s'.config = s.config
  found : s'.found = s.found
  rules4 : s'.rules4 = s.rules4
  rules6 : s'.rules6 = s.rules6
  attached : s'.attached = s.attached
  failed : s'.failed = s.failed

theorem Kept.refl (s : Scene) : s.Kept s := ⟨fun _ _ => rfl, rfl, rfl, rfl, rfl, rfl, rfl⟩

theorem Kept.trans {s₁ s₂ s₃ : Scene} (h : s₁.Kept s₂) (h' : s₂.Kept s₃) : s₁.Kept s₃ :=
  ⟨fun n hn => (h'.files n hn).trans (h.files n hn), h'.config.trans h.config, h'.found.trans h.found,
    h'.rules4.trans h.rules4, h'.rules6.trans h.rules6, h'.attached.trans h.attached, h'.failed.trans h.failed⟩

theorem Kept.bare (h : s.Kept s') (hs : s.Bare) : s'.Bare := by
  rw [Bare, h.attached, h.failed]
  exact hs

@[simp] theorem write_self (s : Scene) (name : String) (value : Option String) : (s.write name value).files name = value :=
  if_pos rfl

theorem write_of_ne (s : Scene) {name n : String} (h : n ≠ name) (value : Option String) :
    (s.write name value).files n = s.files n := if_neg h

theorem kept_write (s : Scene) {name : String} (h : name ∉ telltale) (value : Option String) : s.Kept (s.write name value) :=
  ⟨fun _ hn => s.write_of_ne (ne_of_mem_of_not_mem hn h) value, rfl, rfl, rfl, rfl, rfl, rfl⟩

end Scene

/-- The workers are those of `items`, their pid files have their pids, and they have the settings of `c`. -/
structure Scene.Staffed (s : Scene) (c : Config) (items : List Worker) : Prop where
  hands : s.hands.map (·.worker) = items
  badged : s.Badged
  args : ∀ h ∈ s.hands, h.args = Workers.args c h.worker.queue

theorem Scene.Staffed.none {s : Scene} {c : Config} (h : s.hands = []) : s.Staffed c [] := by
  have hno : ∀ x ∈ s.hands, False := by
    rw [h]
    exact fun x hx => absurd hx List.not_mem_nil
  exact ⟨by rw [h, List.map_nil], fun x hx => (hno x hx).elim, fun x hx => (hno x hx).elim⟩

namespace Scene

/-- Nothing is changed but how the workers looked. -/
structure Looked (s s' : Scene) : Prop where
  rest : s' = { s with hands := s'.hands }
  hands : s'.hands.map (·.worker) = s.hands.map (·.worker)
  same : ∀ h' ∈ s'.hands, ∃ h ∈ s.hands, h'.worker = h.worker ∧ h'.args = h.args

theorem Looked.refl (s : Scene) : s.Looked s := ⟨rfl, rfl, fun h hmem => ⟨h, hmem, rfl, rfl⟩⟩

theorem Looked.trans {s₁ s₂ s₃ : Scene} (h : s₁.Looked s₂) (h' : s₂.Looked s₃) : s₁.Looked s₃ := by
  refine ⟨?_, h'.hands.trans h.hands, ?_⟩
  · rw [h'.rest, h.rest]
  · intro z hz
    obtain ⟨y, hy, hworker, hargs⟩ := h'.same z hz
    obtain ⟨x, hx, hworker', hargs'⟩ := h.same y hy
    exact ⟨x, hx, hworker.trans hworker', hargs.trans hargs'⟩

theorem Looked.kept (h : s.Looked s') : s.Kept s' := by
  rw [h.rest]
  exact ⟨fun _ _ => rfl, rfl, rfl, rfl, rfl, rfl, rfl⟩

/-- Each worker may be found to be well, or not. -/
theorem looked_map (s : Scene) (f : Hand → Bool) : s.Looked { s with hands := s.hands.map fun h => { h with well := f h } } := by
  refine ⟨rfl, ?_, ?_⟩
  · change (s.hands.map fun h => { h with well := f h }).map (·.worker) = _
    rw [List.map_map]
    rfl
  · intro h' hmem
    obtain ⟨h, hh, rfl⟩ := List.mem_map.mp hmem
    exact ⟨h, hh, rfl, rfl⟩

theorem look_looked (s : Scene) (queue : Nat) (owner : Option Int) : s.Looked (s.look queue owner) := by
  have hmap : s.look queue owner = { s with hands := s.hands.map fun h =>
      { h with well := if h.worker.queue = queue then owner == some (h.worker.pid : Int) else h.well } } := by
    rw [look]
    congr 2
    funext h
    split <;> rfl
  rw [hmap]
  exact s.looked_map _

theorem miss_looked (s : Scene) (pid : Nat) : s.Looked (s.miss pid) := by
  have hmap : s.miss pid = { s with hands := s.hands.map fun h =>
      { h with well := if h.worker.pid = pid then false else h.well } } := by
    rw [miss]
    congr 2
    funext h
    split <;> rfl
  rw [hmap]
  exact s.looked_map _

/-- A look at a worker that ends with its exit being known, or not. -/
theorem tryWait_looked {pid : Nat} {exited : Bool} (h : scene (.tryWait pid) s exited s') : s.Looked s' := by
  obtain rfl : s' = if exited then s.miss pid else s := h
  split
  · exact s.miss_looked pid
  · exact .refl s

theorem Looked.staffed {c : Config} (h : s.Looked s') (hs : s.Staffed c items) : s'.Staffed c items := by
  have hfiles : s'.files = s.files := by rw [h.rest]
  refine ⟨h.hands.trans hs.hands, ?_, ?_⟩
  · intro x hx
    obtain ⟨y, hy, heq, _⟩ := h.same x hx
    rw [hfiles, heq]
    exact hs.badged y hy
  · intro x hx
    obtain ⟨y, hy, heq, hargs⟩ := h.same x hx
    rw [hargs, heq]
    exact hs.args y hy

/-- Waiting for the first worker leaves the others. -/
theorem reap_hands {w : Worker} {ws : List Worker} (h : s.hands.map (·.worker) = w :: ws) :
    (s.hands.eraseP (·.worker.pid == w.pid)).map (·.worker) = ws := by
  cases hs : s.hands with
  | nil =>
    rw [hs] at h
    cases h
  | cons x xs =>
    rw [hs, List.map_cons, List.cons.injEq] at h
    obtain ⟨rfl, hxs⟩ := h
    rw [List.eraseP_cons_of_pos (by simp)]
    exact hxs

end Scene

theorem stop_tells {site : Site} (hs : s.hands.map (·.worker) = items) :
    Tells (fun _ s' => s.Kept s' ∧ s'.hands = []) (Workers.stop site items) s := by
  have hterm : Tells (fun _ s' => s' = s) (items.forM fun w => do
      let _ ← ask (.terminate site w.pid)) s := by
    refine guards_forM (P := fun _ s' => s' = s) items ?_ s rfl
    intro w rest s' h
    exact tells_ask (f := fun _ => pure ()) trivial fun _ s'' hr => hr.trans h
  have hend : ∀ s' : Scene, s.Kept s' → s'.hands.map (·.worker) = [] →
      Tells (fun _ s' => s.Kept s' ∧ s'.hands = []) (ask (.removeState "worker.pid")) s' := by
    intro s' hk hnone
    refine ⟨trivial, ?_⟩
    intro _ s'' hr
    obtain rfl : s'' = s'.write "worker.pid" none := hr
    exact ⟨hk.trans (s'.kept_write (by decide) none), List.map_eq_nil_iff.mp hnone⟩
  have hreap : Tells (fun _ s' => s.Kept s' ∧ s'.hands.map (·.worker) = []) (items.forM fun w => do
      if !(← ask (.tryWait w.pid)) then ask (.kill w.pid)
      ask (.reap w.pid)
      ask (.removeState (Workers.pidFile w.queue))) s := by
    refine guards_forM (P := fun rest s' => s.Kept s' ∧ s'.hands.map (·.worker) = rest) items ?_ s ⟨.refl s, hs⟩
    intro w rest s₁ h
    have hgone : ∀ s₂, s.Kept s₂ → s₂.hands.map (·.worker) = w :: rest →
        Tells (fun _ s' => s.Kept s' ∧ s'.hands.map (·.worker) = rest) (do
          ask (.reap w.pid)
          ask (.removeState (Workers.pidFile w.queue))) s₂ := by
      intro s₂ hk hhands
      refine tells_ask trivial fun _ s₃ hr => ⟨trivial, fun _ s₄ hr' => ?_⟩
      obtain rfl : s₃ = { s₂ with hands := s₂.hands.eraseP (·.worker.pid == w.pid) } := hr
      obtain rfl : s₄ = _ := hr'
      have hreaped : s₂.Kept { s₂ with hands := s₂.hands.eraseP (·.worker.pid == w.pid) } :=
        ⟨fun _ _ => rfl, rfl, rfl, rfl, rfl, rfl, rfl⟩
      exact ⟨(hk.trans hreaped).trans (Scene.kept_write _ (pidFile_notMem_telltale _) none), Scene.reap_hands hhands⟩
    refine tells_ask trivial fun exited s₂ hr => ?_
    have hlook := Scene.tryWait_looked hr
    have hk := h.1.trans hlook.kept
    have hhands := hlook.hands.trans h.2
    cases exited
    · exact tells_still rfl fun _ => hgone s₂ hk hhands
    · exact hgone s₂ hk hhands
  have hrest : Tells (fun _ s' => s.Kept s' ∧ s'.hands = []) (do
      items.forM fun w => do
        if !(← ask (.tryWait w.pid)) then ask (.kill w.pid)
        ask (.reap w.pid)
        ask (.removeState (Workers.pidFile w.queue))
      ask (.removeState "worker.pid")) s := guards_bind.mpr (hreap.post fun _ s' h => hend s' h.1 h.2)
  unfold Workers.stop
  refine guards_bind.mpr (hterm.post ?_)
  intro _ s' hs'
  rw [hs']
  split
  · exact tells_still rfl fun _ => hrest
  · exact hrest

/-- A worker that has its queue is well, and the others look as before. -/
theorem look_well {w : Worker} {done : List Worker} (hs : s.hands.map (·.worker) = items)
    (hnodup : (items.map (·.queue)).Nodup) (hw : w ∈ items)
    (hdone : ∀ h ∈ s.hands, h.worker ∈ done → h.well = true) :
    ∀ h ∈ (s.look w.queue (some (w.pid : Int))).hands, h.worker ∈ done ++ [w] → h.well = true := by
  intro h hmem hin
  obtain ⟨x, hx, rfl⟩ := List.mem_map.mp hmem
  have hxw : x.worker ∈ items := hs ▸ List.mem_map_of_mem hx
  by_cases hqueue : x.worker.queue = w.queue
  · have heq : x.worker = w := List.inj_on_of_nodup_map hnodup hxw hw hqueue
    rw [if_pos hqueue, heq]
    exact beq_self_eq_true _
  · rw [if_neg hqueue] at hin ⊢
    rcases List.mem_append.mp hin with hin | hin
    · exact hdone x hx hin
    · exact absurd (congrArg Worker.queue (List.mem_singleton.mp hin)) hqueue

theorem allOwn_tells (hnodup : (items.map (·.queue)).Nodup) : ∀ (ws done : List Worker) (s : Scene),
    s.hands.map (·.worker) = items → items = done ++ ws → (∀ h ∈ s.hands, h.worker ∈ done → h.well = true) →
    Tells (fun ok s' => s.Looked s' ∧ (ok = true → ∀ h ∈ s'.hands, h.well = true)) (Workers.allOwn ws) s
  | [], done, s, hs, hitems, hdone => by
    rw [List.append_nil] at hitems
    refine ⟨.refl s, fun _ h hmem => hdone h hmem ?_⟩
    exact hitems ▸ hs ▸ List.mem_map_of_mem hmem
  | w :: ws, done, s, hs, hitems, hdone => by
    have hno : ∀ s', s.Looked s' → s.Looked s' ∧ (false = true → ∀ h ∈ s'.hands, h.well = true) :=
      fun s' h => ⟨h, fun hf => absurd hf Bool.false_ne_true⟩
    refine tells_ask trivial fun exited s₁ hr => ?_
    cases exited
    case true => exact hno s₁ (Scene.tryWait_looked hr)
    obtain rfl : s₁ = s := hr
    refine tells_ask trivial fun owner s₂ hr => ?_
    obtain rfl : s₂ = s₁.look w.queue owner := hr
    dsimp only
    have hlook := s₁.look_looked w.queue owner
    split
    · exact hno _ hlook
    · rename_i howner
      obtain rfl : owner = some (w.pid : Int) := by simpa using howner
      have hw : w ∈ items := by simp [hitems]
      have hrec := allOwn_tells hnodup ws (done ++ [w]) _ (hlook.hands.trans hs) (by simp [hitems])
        (look_well hs hnodup hw hdone)
      exact hrec.post fun ok s' h => ⟨hlook.trans h.1, h.2⟩

theorem healthy_tells {count : Nat} (hs : s.hands.map (·.worker) = items) (hnodup : (items.map (·.queue)).Nodup) :
    Tells (fun ok s' => s.Looked s' ∧ (ok = true → items.length = count ∧ ∀ h ∈ s'.hands, h.well = true))
      (Workers.healthy items count) s := by
  unfold Workers.healthy
  split
  · exact ⟨.refl s, fun h => absurd h Bool.false_ne_true⟩
  · rename_i hcount
    have hlength : items.length = count := by simpa using hcount
    refine (allOwn_tells hnodup items [] s hs rfl fun h _ hmem => absurd hmem List.not_mem_nil).post ?_
    exact fun ok s' h => ⟨h.1, fun hok => ⟨hlength, h.2 hok⟩⟩

theorem allFree_tells : ∀ (qs : List Nat) (s : Scene), Tells (fun _ s' => s.Looked s') (Workers.allFree qs) s
  | [], s => .refl s
  | q :: qs, s => by
    refine tells_ask trivial fun owner s₁ hr => ?_
    obtain rfl : s₁ = s.look q owner := hr
    have hlook := s.look_looked q owner
    cases owner with
    | none => exact (allFree_tells qs _).post fun _ s' h => hlook.trans h
    | some pid =>
      exact tells_still rfl fun _ => hlook

section start
variable {c : Config} {count : Nat}

theorem spawned {s₁ : Scene} {q pid : Nat} (hs : s.Staffed c items) (hq : q ∉ items.map (·.queue))
    (h : s₁ = { s with hands := s.hands ++ [⟨⟨q, pid⟩, Workers.args c q, false⟩] }) :
    s.Kept (s₁.write (Workers.pidFile q) (some (toString pid))) ∧
      (s₁.write (Workers.pidFile q) (some (toString pid))).Staffed c (items ++ [⟨q, pid⟩]) := by
  subst h
  have hkept : s.Kept { s with hands := s.hands ++ [⟨⟨q, pid⟩, Workers.args c q, false⟩] } :=
    ⟨fun _ _ => rfl, rfl, rfl, rfl, rfl, rfl, rfl⟩
  refine ⟨hkept.trans (Scene.kept_write _ (pidFile_notMem_telltale q) _), ?_, ?_, ?_⟩
  · change List.map (fun h : Hand => h.worker) (s.hands ++ [⟨⟨q, pid⟩, Workers.args c q, false⟩]) = _
    rw [List.map_append, hs.hands]
    rfl
  · intro x hx
    rcases List.mem_append.mp hx with hold | hnew
    · have hne : x.worker.queue ≠ q := by
        intro heq
        rw [← heq, ← hs.hands] at hq
        exact hq (List.mem_map_of_mem (List.mem_map_of_mem hold))
      rw [Scene.write_of_ne _ fun heq => hne (pidFile_inj heq)]
      exact hs.badged x hold
    · obtain rfl := List.mem_singleton.mp hnew
      exact Scene.write_self ..
  · intro x hx
    rcases List.mem_append.mp hx with hold | hnew
    · exact hs.args x hold
    · obtain rfl := List.mem_singleton.mp hnew
      rfl

theorem Scene.Staffed.write {name : String} {value : Option String} (hs : s.Staffed c items)
    (hname : name.toList[7]?.any Char.isDigit = false) : (s.write name value).Staffed c items := by
  refine ⟨hs.hands, fun x hx => ?_, hs.args⟩
  rw [Scene.write_of_ne _ (pidFile_ne hname)]
  exact hs.badged x hx

/-- What the workers are like after an attempt to start `count` of them. -/
structure Begun (s : Scene) (c : Config) (count : Nat) (r : Bool × List Worker) (s' : Scene) : Prop where
  kept : s.Kept s'
  staffed : s'.Staffed c r.2
  numbered : r.2.map (·.queue) = Workers.queues r.2.length
  all : r.1 = true → r.2.map (·.queue) = Workers.queues count

theorem Begun.of_kept {s₁ s₂ s₃ : Scene} {r : Bool × List Worker} (hk : s₁.Kept s₂) (h : Begun s₂ c count r s₃) :
    Begun s₁ c count r s₃ := ⟨hk.trans h.kept, h.staffed, h.numbered, h.all⟩

/-- The same, when workers that are there were seen to be well. -/
def Ready (s : Scene) (c : Config) (count : Nat) (r : Bool × List Worker) (s' : Scene) : Prop :=
  Begun s c count r s' ∧ (r.1 = true → ∀ h ∈ s'.hands, h.well = true)

theorem Ready.of_kept {s₁ s₂ s₃ : Scene} {r : Bool × List Worker} (hk : s₁.Kept s₂) (h : Ready s₂ c count r s₃) :
    Ready s₁ c count r s₃ := ⟨h.1.of_kept hk, h.2⟩

theorem stop_ready {site : Site} (hs : s.hands.map (·.worker) = items) :
    Tells (Ready s c count) (do
      Workers.stop site items
      return (false, [])) s := by
  refine guards_bind.mpr ((stop_tells hs).post ?_)
  intro _ s' h
  obtain ⟨hkept, hnone⟩ := h
  exact ⟨⟨hkept, .none hnone, rfl, fun hf => absurd hf Bool.false_ne_true⟩, fun hf => absurd hf Bool.false_ne_true⟩

theorem queues_length (n : Nat) : (Workers.queues n).length = n := by simp [Workers.queues]

theorem spawnAll_tells : ∀ (qs : List Nat) (items : List Worker) (s : Scene), s.Staffed c items →
    items.map (·.queue) ++ qs = Workers.queues count → Tells (Begun s c count) (Workers.spawnAll c items qs) s
  | [], items, s, hs, hqs => by
    rw [List.append_nil] at hqs
    have hlength : items.length = count := by rw [← queues_length count, ← hqs, List.length_map]
    exact ⟨.refl s, hs, hlength.symm ▸ hqs, fun _ => hqs⟩
  | q :: qs, items, s, hs, hqs => by
    have hfail : ∀ s', s' = s → Tells (Begun s c count) (do
        Workers.stop .start items
        return (false, [])) s' := by
      intro s' hs'
      rw [hs']
      exact (stop_ready hs.hands).post fun _ _ h => h.1
    have hnodup := queues_nodup count
    rw [← hqs, List.nodup_append] at hnodup
    have hq : q ∉ items.map (·.queue) := fun hmem => hnodup.2.2 q hmem q (List.mem_cons_self ..) rfl
    refine tells_ask trivial fun opened s₁ hr => ?_
    obtain rfl : s₁ = s := hr
    cases opened
    case false =>
      refine tells_ask trivial ?_
      exact fun _ s₂ hr => hfail s₂ hr
    refine tells_ask trivial fun cloned s₂ hr => ?_
    cases cloned
    case false => exact hfail s₂ hr
    obtain rfl : s₂ = s₁ := hr
    refine tells_ask trivial fun pid s₃ hr => ?_
    cases pid with
    | none => exact hfail s₃ hr
    | some pid =>
      have hnew : s₃ = { s₂ with hands := s₂.hands ++ [⟨⟨q, pid⟩, Workers.args c q, false⟩] } := hr
      obtain ⟨hkept, hstaffed⟩ := spawned hs hq hnew
      have hrest : List.map Worker.queue (items ++ [⟨q, pid⟩]) ++ qs = Workers.queues count := by
        rw [List.map_append, List.append_assoc]
        exact hqs
      refine tells_write ?_
      dsimp only
      split
      · refine tells_write ?_
        refine (spawnAll_tells qs _ _ (hstaffed.write (by decide)) hrest).post fun r s' h => ?_
        exact h.of_kept (hkept.trans (Scene.kept_write _ (by decide) _))
      · exact (spawnAll_tells qs _ _ hstaffed hrest).post fun r s' h => h.of_kept hkept

theorem awaitReady_tells (hqs : items.map (·.queue) = Workers.queues count) : ∀ (n : Nat) (s : Scene),
    s.Staffed c items → Tells (Ready s c count) (Workers.awaitReady items count n) s
  | 0, s, hs => by
    have hlength : items.length = count := by rw [← queues_length count, ← hqs, List.length_map]
    have hnumbered : items.map (·.queue) = Workers.queues items.length := hlength.symm ▸ hqs
    exact ⟨⟨.refl s, hs, hnumbered, fun _ => hqs⟩, fun hf => absurd hf Bool.false_ne_true⟩
  | n + 1, s, hs => by
    have hagain : ∀ s', s.Kept s' → s'.Staffed c items → Tells (Ready s c count) (do
        ask (.sleep 100)
        Workers.awaitReady items count n) s' := by
      intro s' hk hs'
      refine tells_still rfl fun _ => ?_
      exact (awaitReady_tells hqs n s' hs').post fun r s₃ h => h.of_kept hk
    have hlength : items.length = count := by rw [← queues_length count, ← hqs, List.length_map]
    refine tells_ask trivial fun stopping s₁ hr => ?_
    obtain rfl : s₁ = s := hr
    cases stopping
    case true => exact stop_ready hs.hands
    have hnodup : (items.map (·.queue)).Nodup := hqs ▸ queues_nodup count
    refine guards_bind.mpr ((healthy_tells hs.hands hnodup).post ?_)
    intro healthy s₂ h
    obtain ⟨hlook, hwell⟩ := h
    cases healthy
    case false => exact hagain s₂ hlook.kept (hlook.staffed hs)
    refine tells_past (allReady_within (fun _ => rfl) items) fun ready _ => ?_
    cases ready
    · exact hagain s₂ hlook.kept (hlook.staffed hs)
    · exact ⟨⟨hlook.kept, hlook.staffed hs, hlength.symm ▸ hqs, fun _ => hqs⟩, fun _ => (hwell rfl).2⟩

/-- Whatever `start` answers, the workers it leaves are the ones the scene has. -/
theorem start_tells (hs : s.hands.map (·.worker) = items) :
    Tells (Ready s c count) (Workers.start c items count) s := by
  unfold Workers.start
  refine guards_bind.mpr ((stop_tells hs).post ?_)
  intro _ s₁ h
  obtain ⟨hkept₁, hnone₁⟩ := h
  refine guards_bind.mpr ((allFree_tells _ s₁).post ?_)
  intro free s₂ hlook
  have hkept₂ := hkept₁.trans hlook.kept
  have hstaffed₂ : s₂.Staffed c [] := hlook.staffed (.none hnone₁)
  cases free
  case false => exact ⟨⟨hkept₂, hstaffed₂, rfl, fun hf => absurd hf Bool.false_ne_true⟩, fun hf => absurd hf Bool.false_ne_true⟩
  refine guards_bind.mpr ((spawnAll_tells _ [] s₂ hstaffed₂ rfl).post ?_)
  intro r s₃ h
  obtain ⟨ok, items'⟩ := r
  cases ok
  case false => exact ⟨h.of_kept hkept₂, fun hf => absurd hf Bool.false_ne_true⟩
  exact (awaitReady_tells (h.all rfl) 80 s₃ h.staffed).post fun r s₄ h' => h'.of_kept (hkept₂.trans h.kept)

end start

end Daemon

end Nfqttl
