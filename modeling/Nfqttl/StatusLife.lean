/-
The status over the daemon's whole life: from the files that an earlier daemon left, over
its choice of a backend and its loop, to the last word it leaves itself.
-/
import Nfqttl.Arguments
import Nfqttl.StatusLoop

namespace Nfqttl

open Effect

namespace Life

open Daemon

/-! ## The whole life -/

/-- The operations of `run` that the scene has something of. -/
def scene : Sem LifeSig Scene := fun op s a s' =>
  match op, a with
  | .loop op, a => Daemon.scene op s a s'
  | .run .loadConfig, text => s' = { s with config := some (Config.load text) }
  | .run .writePid, .ok () => s' = { s with entered := true }
  | .run _, _ => s' = s

def truthful : LifeOp → Scene → Prop
  | .loop op, s => Daemon.truthful op s
  | .run _, _ => True

/-- Before the daemon has done anything, with the files that earlier ones left, and their rules or none. -/
def start (files : String → Option String) (left : Bool) : Scene :=
  ⟨files, none, .default, none, none, left, false, [], false⟩

/-- Nothing is left, unless the last `cleanup` failed, but for rules that were there from the start. -/
structure Gone (left : Bool) (s : Scene) : Prop where
  attached : s.attached = true → s.failed = true ∨ left = true
  hands : s.hands = []

/-- What a life ends with, and what the files say then. -/
def Ended (left : Bool) (s : Scene) : Except IoError Unit → Prop
  | .ok _ => s.files "phase" = some "stopped" ∧ (s.attached = true → left = true)
  | .error e => s.files "phase" = some "error" ∧ ∃ text, Yields (describe e) text ∧ s.files "last-error" = some text

abbrev Tells {α : Type} (Q : α → Scene → Prop) (p : LifeProg α) (s : Scene) : Prop := Guards scene truthful Q p s

abbrev TellsE {α : Type} (Q : α → Scene → Prop) (F : IoError → Scene → Prop) (x : TryProg α) (s : Scene) : Prop :=
  GuardsE scene truthful Q F x s

variable {s s' : Scene} {α : Type}

theorem tells_ask {op : LifeOp} {f : LifeSig.Ans op → LifeProg α} {Q : α → Scene → Prop} (hop : truthful op s)
    (hf : ∀ a s', scene op s a s' → Tells Q (f a) s') : Tells Q (.op op f) s := ⟨hop, hf⟩

theorem tells_looped {Q : α → Scene → Prop} {p : DaemonProg α} (h : Daemon.Tells Q p s) : Tells Q (looped p) s :=
  h.hoist fun _ _ hT => ⟨hT, fun _ _ hr => hr⟩

/-- The operations that change nothing of the scene. -/
def silent : LifeOp → Bool
  | .loop op => Daemon.silent op
  | .run .loadConfig | .run .writePid => false
  | .run _ => true

theorem truthful_silent {op : LifeOp} (h : silent op = true) (s : Scene) : truthful op s := by
  cases op with
  | run op => trivial
  | loop op => exact Daemon.truthful_silent h s

theorem scene_silent {op : LifeOp} (h : silent op = true) {a : LifeSig.Ans op} (hr : scene op s a s') : s' = s := by
  cases op with
  | run op => cases op <;> first | exact hr | cases h
  | loop op => exact Daemon.scene_silent h hr

theorem silent_of_asking (op : LifeOp) (h : asking op = true) : silent op = true := by
  cases op with
  | run op => cases op <;> first | rfl | cases h
  | loop op => cases op <;> first | rfl | cases h

theorem tells_still {op : LifeOp} {f : LifeSig.Ans op → LifeProg α} {Q : α → Scene → Prop} (hop : silent op = true)
    (hf : ∀ a, Tells Q (f a) s) : Tells Q (.op op f) s :=
  ⟨truthful_silent hop s, fun a _ hr => scene_silent hop hr ▸ hf a⟩

theorem tells_write {name value : String} {f : Unit → LifeProg α} {Q : α → Scene → Prop}
    (hf : Tells Q (f ()) (s.write name (some value))) : Tells Q (.op (.loop (.writeState name value)) f) s := by
  refine ⟨trivial, ?_⟩
  intro _ s' hr
  obtain rfl : s' = s.write name (some value) := hr
  exact hf

theorem tells_silent {Q : α → Prop} {p : LifeProg α} (h : Within (silent · = true) Q p) :
    Tells (fun a s' => s' = s ∧ Q a) p s := by
  refine h.guards (I := (· = s)) (fun _ s hop _ => truthful_silent hop s) ?_ rfl
  intro op s₁ a s₂ hop hs hr
  rw [scene_silent hop hr, hs]

/-- A part that only asks. -/
theorem tellsE_past {β : Type} {F : IoError → Scene → Prop} {x : TryProg β} {f : β → TryProg α} {Q : α → Scene → Prop}
    (hx : Asking x.run) (hF : ∀ e, F e s) (hf : ∀ b, TellsE Q F (f b) s) : TellsE Q F (x >>= f) s := by
  refine guardsE_bind.mpr ((tells_silent (hx.ops silent_of_asking)).post ?_)
  intro r s' h
  obtain ⟨rfl, -⟩ := h
  cases r with
  | ok b => exact hf b
  | error e => exact hF e

/-- A daemon that has got in stays in. -/
theorem entered_stays (p : LifeProg α) (h : s.entered = true) : Guards scene (fun _ _ => True) (fun _ s' => s'.entered = true) p s := by
  refine ((within_true p).guards (I := fun s => s.entered = true) (fun _ _ _ _ => trivial) ?_ h).post fun _ _ h => h.1
  intro op s₁ a s₂ _ hs hr
  cases op with
  | run op =>
    cases op with
    | loadConfig =>
      obtain rfl : s₂ = { s₁ with config := some (Config.load a) } := hr
      exact hs
    | writePid =>
      cases a with
      | ok a =>
        obtain rfl : s₂ = { s₁ with entered := true } := hr
        rfl
      | error e =>
        obtain rfl : s₂ = s₁ := hr
        exact hs
    | _ =>
      obtain rfl : s₂ = s₁ := hr
      exact hs
  | loop op => exact (scene_entered hr).trans hs

theorem tells_entered {Q : α → Scene → Prop} {p : LifeProg α} (h : Tells Q p s) (hs : s.entered = true) :
    Tells (fun a s' => Q a s' ∧ s'.entered = true) p s := h.and (entered_stays p hs)

/-- Nothing was done yet that leaves rules. -/
structure Fresh (left : Bool) (s : Scene) : Prop where
  attached : s.attached = true → left = true
  hands : s.hands = []
  found : s.found = .default

theorem Fresh.gone {left : Bool} (h : Fresh left s) : Gone left s := ⟨fun ha => .inr (h.attached ha), h.hands⟩

theorem Fresh.write {left : Bool} (h : Fresh left s) (name : String) (value : Option String) :
    Fresh left (s.write name value) := ⟨h.attached, h.hands, h.found⟩

section prepare
variable {c : Config} {fw : Firewall} {files : String → Option String} {left : Bool}

/-- How what comes before the loop ends. -/
def Prepared (left : Bool) : Option (Setup × Nat) → Scene → Prop
  | some (c, workers), s => (Loop.initial workers).Agrees c s
  | none, s => s.hands = [] ∧ Ended left s (.ok ())

theorem posted_agrees (h : Fresh false s) (setup : Setup) {workers : Nat} (hconfig : s.config = some setup.config)
    (hchosen : Chosen setup workers) (hone : setup.backend = .kernel → workers = 1) : (Loop.initial workers).Agrees setup
      (((s.write "backend" (some (backendName setup.backend))).write "workers"
        (some (if setup.backend == .kernel then "0" else toString workers))).write "ipv6_mode" (some (modeName setup.v6))) := by
  have hposted : Scene.Posted (((s.write "backend" (some (backendName setup.backend))).write "workers"
      (some (if setup.backend == .kernel then "0" else toString workers))).write "ipv6_mode" (some (modeName setup.v6)))
      setup workers := by
    refine ⟨hconfig, ?_, ?_, Scene.write_self ..⟩
    · rw [Scene.write_of_ne _ (by decide), Scene.write_of_ne _ (by decide), Scene.write_self]
    · rw [Scene.write_of_ne _ (by decide), Scene.write_self]
  refine ⟨⟨hchosen, hposted, .none h.hands, rfl, fun hk => ⟨rfl, hone hk⟩, h.found.symm⟩, fun _ => ⟨rfl, fun ha => ?_⟩⟩
  exact absurd (h.attached ha) Bool.false_ne_true

theorem announce_tells (h : Fresh false s) (hconfig : s.config = some c) {backend : EffectiveBackend} {workers : Nat}
    (hloaded : ∃ text, c = Config.load text) (hfew : 1 ≤ workers ∧ workers ≤ 8) (hone : backend = .kernel → workers = 1)
    (v6 : V6Mode) :
    Tells (fun _ s' => ∀ watcher, (Loop.initial workers).Agrees ⟨c, backend, v6, watcher⟩ s')
      (announce c backend workers v6) s := by
  have hagrees := fun watcher => posted_agrees h ⟨c, backend, v6, watcher⟩ hconfig ⟨hloaded, hfew⟩ hone
  refine tells_write (tells_write (tells_write ?_))
  cases c.disableOffload
  · exact tells_still rfl fun _ => tells_still rfl fun _ => hagrees
  · exact tells_still rfl fun _ => tells_still rfl fun _ => hagrees

theorem Loop.Agrees.gone {setup : Setup} {workers : Nat} (h : (Loop.initial workers).Agrees setup s) : Gone left s :=
  ⟨fun ha => .inl ((h.bare rfl).2 ha), List.map_eq_nil_iff.mp h.staffed.hands⟩

/-- A single worker, if only because it is not used, where the kernel sets the TTL. -/
theorem chooseWorkers_few {text : Option (List Char)} {backend : EffectiveBackend} :
    Within (asking · = true) (fun workers => (1 ≤ workers ∧ workers ≤ 8) ∧ (backend = .kernel → workers = 1))
      (chooseWorkers backend (Config.load text)) := by
  have hrange := (Config.load_held text).numbers .workers rfl 1 8 rfl
  have hworkers : 1 ≤ (Config.load text).workers ∧ (Config.load text).workers ≤ 8 := by
    simp only [Setting.number] at hrange
    omega
  cases backend with
  | kernel => exact ⟨by decide, fun _ => rfl⟩
  | nfqueue =>
    refine ⟨rfl, fun ok => ?_⟩
    cases ok
    · exact ⟨by decide, fun h => by cases h⟩
    · exact ⟨hworkers, fun h => by cases h⟩

theorem setUp_tells (h : Fresh false s) :
    TellsE (fun r s' => Prepared left (some r) s') (fun _ s' => Gone left s') (setUp fw) s := by
  have hlog : ∀ text, Asking (attempt (log text)).run := fun _ => within_attempt ⟨rfl, fun _ => trivial⟩
  have hexe : Asking (orFail (ask .currentExe)).run := ⟨rfl, fun _ => trivial⟩
  have hwatch : Asking (attempt (ask .openWatcher)).run := within_attempt ⟨rfl, fun _ => trivial⟩
  unfold setUp
  refine guardsE_bind.mpr ⟨trivial, fun text s₁ hr => ?_⟩
  obtain rfl : s₁ = { s with config := some (Config.load text) } := hr
  have h₁ : Fresh false { s with config := some (Config.load text) } := ⟨h.attached, h.hands, h.found⟩
  have hF : ∀ _ : IoError, Gone left { s with config := some (Config.load text) } := fun _ =>
    ⟨fun ha => absurd (h.attached ha) Bool.false_ne_true, h.hands⟩
  refine tellsE_past (hlog _) hF fun _ => tellsE_past chooseBackend_asking hF fun backend => ?_
  refine guardsE_bind.mpr (guards_bind.mpr ((tells_silent (chooseWorkers_few.ops silent_of_asking)).post ?_))
  intro workers s₂ hworkers
  obtain ⟨rfl, hfew, hone⟩ := hworkers
  refine tellsE_past chooseV6_asking hF fun v6 => tellsE_past hexe hF fun _ => ?_
  refine guardsE_bind.mpr (guards_bind.mpr ((announce_tells h₁ rfl ⟨text, rfl⟩ hfew hone v6).post ?_))
  intro _ s₃ hagrees
  exact tellsE_past hwatch (fun _ => Loop.Agrees.gone (hagrees false)) fun watcher => hagrees watcher

theorem prepareBooted_tells (h : Fresh left s) :
    TellsE (fun r s' => Prepared left (some r) s') (fun _ s' => Gone left s') prepareBooted s := by
  have hread : Asking (orFail (ask .readConfig)).run := ⟨rfl, fun _ => trivial⟩
  have hvalid : ∀ text, Asking (orFail (pure (Config.validate text))).run := fun _ => trivial
  have hselect : Asking (attempt (ask .select)).run := within_attempt ⟨rfl, fun _ => trivial⟩
  have hF : ∀ _ : IoError, Gone left s := fun _ => h.gone
  unfold prepareBooted
  refine tellsE_past hread hF fun text => tellsE_past (hvalid text) hF fun _ => tellsE_past hselect hF fun fw => ?_
  cases fw with
  | none => exact h.gone
  | some fw =>
    refine guardsE_bind.mpr ⟨trivial, fun cleaned s₁ hr => ?_⟩
    obtain ⟨hapart, hbare, hclean⟩ : _ ∧ _ ∧ (cleaned = true → _) := swept hr
    obtain ⟨rules4, rules6, attached, failed, rfl⟩ := hapart
    cases cleaned
    · exact ⟨fun ha => .inl (hbare ha), h.hands⟩
    · exact setUp_tells ⟨fun ha => absurd ((hclean rfl).symm.trans ha) Bool.false_ne_true, h.hands, h.found⟩

theorem prepare_tells (h : Fresh left s) : TellsE (Prepared left) (fun _ s' => Gone left s') prepare s := by
  have hstopped : ∀ s' : Scene, Fresh left s' → TellsE (Prepared left) (fun _ s' => Gone left s') (do
      attempt (writeState "phase" "stopped")
      return none) s' :=
    fun s' h' => guardsE_bind.mpr (tells_write ⟨h'.hands, Scene.write_self .., h'.attached⟩)
  unfold prepare
  refine guardsE_bind.mpr (tells_still rfl fun halted => ?_)
  cases halted
  case true => exact hstopped s h
  unfold prepareUnhalted
  have h₁ := h.write "phase" (some "boot-wait")
  refine guardsE_bind.mpr (tells_write ?_)
  refine tellsE_past (within_attempt (bootWait_asking 120)) (fun _ => h₁.gone) fun _ => ?_
  refine guardsE_bind.mpr (tells_still rfl fun stopping => ?_)
  cases stopping
  case true => exact hstopped _ h₁
  exact guardsE_bind.mpr ((prepareBooted_tells h₁).post fun _ _ h => h)

end prepare

/-! ## The end of a life -/

section ends
variable {left : Bool} {result : Except IoError Unit}

/-- The text of an error. -/
theorem describe_tells (e : IoError) : Tells (fun text s' => s' = s ∧ Yields (describe e) text) (describe e) s := by
  cases e with
  | new kind text => exact ⟨rfl, rfl⟩
  | last => exact tells_still rfl fun text => ⟨rfl, text, rfl⟩

theorem finish_tells (h : Gone left s) (hok : ∀ a, result = .ok a → Ended left s (.ok a)) :
    Tells (fun r s' => Gone left s' ∧ Ended left s' r) (finish result) s := by
  have hlock : ∀ s' : Scene, Gone left s' ∧ Ended left s' result → Tells (fun r s' => Gone left s' ∧ Ended left s' r) (do
      releaseLock
      ask .unlock
      return result) s' := by
    intro s' h'
    exact tells_still rfl fun _ => tells_still rfl fun _ => tells_still rfl fun _ => h'
  cases result with
  | ok a => exact hlock s ⟨h, hok a rfl⟩
  | error e =>
    refine guards_bind.mpr ((describe_tells e).post ?_)
    intro text s' htext
    obtain ⟨rfl, hyields⟩ := htext
    refine tells_still rfl fun _ => tells_write (tells_write ?_)
    refine hlock _ ⟨⟨h.attached, h.hands⟩, ?_, text, hyields, Scene.write_self ..⟩
    rw [Scene.write_of_ne _ (by decide), Scene.write_self]

theorem conclude_tells (h : Gone left s) (hok : ∀ a, result = .ok a → Ended left s (.ok a)) :
    Tells (fun r s' => Gone left s' ∧ Ended left s' r) (conclude result) s := by
  have herror : ∀ e : IoError, Tells (fun r s' => Gone left s' ∧ Ended left s' r) (finish (.error e)) s :=
    fun e => finish_tells h fun _ he => by cases he
  refine tells_still rfl fun r => ?_
  cases r with
  | ok a => exact finish_tells h hok
  | error e =>
    change Tells _ (describe e >>= _) s
    refine guards_bind.mpr ((describe_tells e).post ?_)
    intro text s' htext
    obtain ⟨rfl, -⟩ := htext
    refine tells_still rfl fun _ => ?_
    cases result with
    | ok a => exact herror e
    | error e' => exact herror e'

end ends

/-- Where a daemon stands once it has tried for the lock. -/
def Tried (files : String → Option String) (left : Bool) (got : Acquired) (s : Scene) : Prop :=
  s.files = files ∧ Fresh left s ∧ (s.entered = true ↔ got = .held)

theorem acquireLock_tells (files : String → Option String) (left : Bool) : Tells (Tried files left) acquireLock (start files left) := by
  have hfresh : Fresh left (start files left) := ⟨id, rfl, rfl⟩
  have hout : ∀ got, got ≠ .held → Tried files left got (start files left) := fun got hgot =>
    ⟨rfl, hfresh, fun h => absurd h Bool.false_ne_true, fun h => absurd h hgot⟩
  have herror : ∀ e : LockError, Tried files left e.acquired (start files left) := by
    intro e
    cases e with
    | alreadyExists => exact hout _ (by decide)
    | io e => exact hout _ fun h => by cases h
  have hback : ∀ e : LockError, Tells (Tried files left) (do
      ask .unlock
      return e.acquired) (start files left) := fun e => tells_still rfl fun _ => herror e
  refine tells_still rfl fun r => ?_
  cases r with
  | error e => exact herror e
  | ok a =>
    refine tells_still rfl fun r => ?_
    cases r with
    | error e => exact herror e
    | ok a =>
      refine tells_still rfl fun got => ?_
      cases got
      case false => exact hout _ (by decide)
      refine tells_still rfl fun r => ?_
      cases r with
      | error e => exact hback e
      | ok a =>
        refine tells_still rfl fun r => ?_
        cases r with
        | error e => exact hback e
        | ok a =>
          refine tells_ask trivial fun r s₁ hr => ?_
          cases r with
          | error e =>
            obtain rfl : s₁ = start files left := hr
            exact hback e
          | ok a =>
            obtain rfl : s₁ = { start files left with entered := true } := hr
            exact ⟨rfl, ⟨id, rfl, rfl⟩, fun _ => rfl, fun _ => rfl⟩

/-- What holds where a round starts. -/
def Stage.Tells (files : String → Option String) (left : Bool) : Stage → Scene → Prop
  | .run, s => s = start files left
  | .turn c l, s => (l.Agrees c s ∧ l.Current c s) ∧ s.entered = true
  | .shutdown l, s => (∃ c, l.Agrees c s) ∧ s.entered = true

/-- What holds when the life is over: nothing that this daemon installed or started is left, unless its last `cleanup`
failed, and one that got in has said how it ended, while the others have said nothing. -/
def Over (files : String → Option String) (left : Bool) (result : Except IoError Unit) (s : Scene) : Prop :=
  Gone left s ∧ (s.entered = true → Ended left s result) ∧ (s.entered = false → s.files = files)

theorem round_tells (files : String → Option String) (left : Bool) (x : Stage) (s : Scene) (h : x.Tells files left s) :
    Tells (EndsAt (Stage.Tells files left) (Over files left)) (round x) s := by
  have hconclude : ∀ (result : Except IoError Unit) (s : Scene), s.entered = true → Gone left s →
      (∀ a, result = .ok a → Ended left s (.ok a)) →
      Tells (EndsAt (Stage.Tells files left) (Over files left)) (do
        return .inr (← conclude result)) s := by
    intro result s hentered hdown hphase
    refine guards_bind.mpr ((tells_entered (conclude_tells hdown hphase) hentered).post ?_)
    intro r s' h
    obtain ⟨⟨hdown, hended⟩, hentered⟩ := h
    exact ⟨hdown, fun _ => hended, fun hno => absurd (hno.symm.trans hentered) Bool.false_ne_true⟩
  cases x with
  | run =>
    obtain rfl : s = start files left := h
    refine guards_bind.mpr ((acquireLock_tells files left).post ?_)
    intro got s₁ htried
    obtain ⟨hfiles, hfresh, hentered⟩ := htried
    have hout : got ≠ .held → ∀ result, Over files left result s₁ := by
      intro hgot result
      have hnot : s₁.entered ≠ true := fun h => hgot (hentered.mp h)
      exact ⟨hfresh.gone, fun h => absurd h hnot, fun _ => hfiles⟩
    cases got with
    | already => exact hout (by decide) _
    | failed e => exact hout (fun h => by cases h) _
    | held =>
      refine guards_bind.mpr ((tells_entered (prepare_tells hfresh) (hentered.mpr rfl)).post ?_)
      intro r s₂ hprepared
      obtain ⟨h₂, hentered⟩ := hprepared
      cases r with
      | error e => exact hconclude (.error e) s₂ hentered h₂ fun _ he => by cases he
      | ok found =>
        cases found with
        | none => exact hconclude (.ok ()) s₂ hentered ⟨fun ha => .inr (h₂.2.2 ha), h₂.1⟩ fun _ _ => h₂.2
        | some found => exact ⟨⟨h₂, fun hfirst => by cases hfirst⟩, hentered⟩
  | turn c l =>
    obtain ⟨⟨hagrees, hcur⟩, hentered⟩ := h
    refine guards_bind.mpr ((tells_entered (tells_looped (turn_tells hagrees hcur)) hentered).post ?_)
    intro r s' hturned
    obtain ⟨h', hentered⟩ := hturned
    cases r with
    | some l' => exact ⟨h', hentered⟩
    | none => exact ⟨⟨c, h'⟩, hentered⟩
  | shutdown l =>
    obtain ⟨⟨c, hagrees⟩, hentered⟩ := h
    refine guards_bind.mpr ((tells_entered (tells_looped (shutdown_tells hagrees)) hentered).post ?_)
    intro cleaned s' hshut
    obtain ⟨⟨hdown, hclean⟩, hentered⟩ := hshut
    refine hconclude _ s' hentered ⟨fun ha => .inl (hdown.bare ha), hdown.hands⟩ ?_
    intro a ha
    cases cleaned
    · cases ha
    · obtain ⟨hphase, hattached⟩ := hclean rfl
      exact ⟨hphase, fun ha => absurd (hattached.symm.trans ha) Bool.false_ne_true⟩

/-- **Each queue that the rules name has its worker.** However the daemon's life goes and whatever every operation
answers: where it installs rules that hand packets to NFQUEUE, the queues the target names are those of the workers
it has started and not waited for. Each of these ran and had its queue when it was last looked at, and takes the
command line it was started with for that queue and the settings of `config.conf`. -/
theorem queues_served (files : String → Option String) (left : Bool) {links : Links} {workers ttl : Nat}
    {active : Option String} {s : Scene}
    (h : Poses scene round .run (start files left) (.loop (.install4 links false workers ttl active)) s) :
    ∃ text, s.config = some (Config.load text) ∧
      Main.queuesOf (Firewall.target4 false workers ttl) = some (s.hands.map (·.worker.queue)) ∧
      ∀ x ∈ s.hands, x.well = true ∧ ∀ exe moduleDir, exe.head? = some '/' →
        Main.workerArgs (Main.commandLine exe moduleDir x.args) =
          .ok ⟨x.worker.queue, (Config.load text).ttl, (Config.load text).queueMaxlen, (Config.load text).rcvbufMb,
            (Config.load text).gso⟩ := by
  have hserves : s.Serves false workers ttl := h.guarded (round_tells files left) rfl
  obtain ⟨text, hconfig, _, hargs⟩ := hserves.settings
  have hqueues : s.hands.map (·.worker.queue) = Workers.queues workers := hserves.queues
  have hfew := hserves.few
  refine ⟨text, hconfig, ?_, fun x hx => ⟨hserves.well x hx, fun exe moduleDir hexe => ?_⟩⟩
  · rw [hqueues]
    exact Main.queuesOf_target ⟨hfew.1, by omega⟩ ttl
  · have hmem : x.worker.queue ∈ Workers.queues workers := hqueues ▸ List.mem_map_of_mem hx
    obtain ⟨i, hi, hq⟩ := List.mem_map.mp hmem
    rw [List.mem_range] at hi
    have hbase : queueBase = 6464 := rfl
    rw [hargs x hx]
    exact Main.workerArgs_commandLine text hexe ⟨by omega, by omega⟩

/-! A life with two queues that comes to rest with its rules in place. -/

/-- A phone with a modem and a hotspot. -/
def hotspot : Links := classify {} ["rmnet0"] ["wlan0"] ["rmnet0", "wlan0"]

def twoWorkers : List Char := "WORKERS=2\n".toList

/-- The worker of `queue`. -/
def ownerOf (s : Scene) (queue : Nat) : Option Int := (s.hands.find? (·.worker.queue == queue)).map fun h => (h.worker.pid : Int)

/-- Every operation of the loop succeeds, and the workers run. -/
def fairLoop : Handler DaemonSig Scene := fun op s =>
  match op with
  | .discover => (hotspot, { s with found := hotspot })
  | .rulesOk v6 .. => (false, s.damage v6)
  | .cleanup => (true, s.clear)
  | .install4 links kernel workers ttl active =>
    let r := (((⟨none⟩ : Firewall).install4 links kernel workers ttl active).eval iptables ⟨.bare, .bare⟩).1
    (r, s.try4 (if r.1 then some (links, kernel, workers, ttl) else none))
  | .install6 links mode hl _ => ((true, none), s.try6 (some (links, mode, hl)))
  | .spawn queue args => (some queue, { s with hands := s.hands ++ [⟨⟨queue, queue⟩, args, false⟩] })
  | .reap pid => ((), { s with hands := s.hands.eraseP (·.worker.pid == pid) })
  | .queueOwner queue => (ownerOf s queue, s.look queue (ownerOf s queue))
  | .writeState name value => ((), s.write name (some value))
  | .removeState name => ((), s.write name none)
  | .queueStats _ => (⟨0, 0, 0, 0, []⟩, s)
  | .openLog _ | .cloneLog _ | .ready _ => (true, s)
  | .stopping | .halted | .paused | .elapsed .. | .terminate .. | .tryWait _ | .wait _ => (false, s)
  | .reset .. | .syncQos .. | .kill .. | .trimLogs .. | .sleep .. | .log .. | .offloadApply .. | .offloadRestore => ((), s)

/-- And so does everything before it, but for the TTL target of the kernel. -/
def fair : Handler LifeSig Scene := fun op s =>
  match op with
  | .loop op => fairLoop op s
  | .run op =>
    match op with
    | .ensureState | .openLock | .createLock | .createPid | .cleanupQos | .currentExe => (.ok (), s)
    | .writePid => (.ok (), { s with entered := true })
    | .flock | .bootCompleted | .probeHl _ | .probeBalance _ | .openWatcher => (true, s)
    | .probeTtl _ => (false, s)
    | .removePid | .removeLock | .unlock => ((), s)
    | .readConfig => (.ok twoWorkers, s)
    | .loadConfig => (some twoWorkers, { s with config := some (Config.load (some twoWorkers)) })
    | .select => (some ⟨none⟩, s)
    | .strerror => ("", s)

theorem fair_scene (op : LifeOp) (s : Scene) (a : LifeSig.Ans op) (s' : Scene) (h : fair.sem op s a s') :
    scene op s a s' := by
  obtain ⟨rfl, rfl⟩ := Prod.mk.inj h
  cases op with
  | loop op =>
    cases op with
    | discover => exact ⟨⟨_, _, _, _, rfl⟩, rfl⟩
    | install4 => exact ⟨⟨⟨none⟩, Prog.yields_eval (h := iptables) _ ⟨.bare, .bare⟩⟩, rfl⟩
    | _ => rfl
  | run op => cases op <;> rfl

def beforeAll : Scene := start (fun _ => none) false

/-- What the daemon sets out with. -/
def twoQueues : Stage := .turn ⟨Config.load (some twoWorkers), .nfqueue, .passNoIp6tables, true⟩ (.initial 2)

theorem poses_fair {n : Nat} {op : LifeOp} {s : Scene}
    (h : Prog.asked fair n (round twoQueues) ((round .run).eval fair beforeAll).2 = some (op, s)) :
    Poses scene round .run beforeAll op s := by
  have hrun := Prog.runs_eval (h := fair) (round .run) beforeAll
  have hturn : ((round .run).eval fair beforeAll).1 = .inl twoQueues := rfl
  rw [hturn] at hrun
  exact .next (hrun.mono fair_scene) (.here ((Prog.asks_asked h).mono fair_scene))

theorem queues_served_two : ∃ s : Scene, s.hands.map (·.worker) = [⟨6464, 6464⟩, ⟨6465, 6465⟩] ∧
    ∃ text, s.config = some (Config.load text) ∧ Main.queuesOf (Firewall.target4 false 2 64) = some [6464, 6465] ∧
      ∀ x ∈ s.hands, Main.workerArgs (Main.commandLine "/data/nfqttl".toList [] x.args) =
        .ok ⟨x.worker.queue, (Config.load text).ttl, (Config.load text).queueMaxlen, (Config.load text).rcvbufMb,
          (Config.load text).gso⟩ := by
  obtain ⟨s, hasked, hhands⟩ : ∃ s, Prog.asked fair 28 (round twoQueues) ((round .run).eval fair beforeAll).2 =
      some (.loop (.install4 hotspot false 2 64 none), s) ∧ s.hands.map (·.worker) = [⟨6464, 6464⟩, ⟨6465, 6465⟩] :=
    ⟨_, rfl, rfl⟩
  obtain ⟨text, hconfig, hqueues, hread⟩ := queues_served (fun _ => none) false (poses_fair hasked)
  have hmap : s.hands.map (·.worker.queue) = (s.hands.map (·.worker)).map (·.queue) := by
    rw [List.map_map]
    rfl
  rw [hmap, hhands] at hqueues
  exact ⟨s, hhands, text, hconfig, hqueues, fun x hx => (hread x hx).2 _ _ rfl⟩

end Life

end Nfqttl
