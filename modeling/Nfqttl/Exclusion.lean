/-
What the locks and the files of `Nfqttl.Processes` are for: at any time at most one
process is at work on the tables, the workers and the offload settings, in whatever order
the processes take their steps and wherever they are killed.

A daemon at work is `armed`. It has its pid in `lock/pid` then, and it has not seen
`paused`; a `stop` that has written `paused` and finds no daemon behind the pid can be
sure that no daemon is armed, and that none will be.
-/
import Nfqttl.Processes

namespace Nfqttl.Processes

open Effect Relation

/-! ## Terms -/

/-- The operations of a daemon that needs to be alone. -/
def supervises : Daemon.DaemonOp → Bool
  | .stopping | .halted | .sleep _ | .log _ | .writeState .. => false
  | _ => true

def probes : Life.RunOp → Bool
  | .probeTtl _ | .probeHl _ | .probeBalance _ => true
  | _ => false

def takesDown : Ctl.CtlOp → Bool
  | .cleanup | .stopOrphans | .cleanupQos | .restoreOffload => true
  | _ => false

/-- The operations on the tables, the workers and the offload settings. -/
def works : AnyOp → Bool
  | .life (.loop op) => supervises op
  | .life (.run op) => probes op
  | .ctl op => takesDown op
  | .proc _ => false

structure Shared.Inv (s : Shared) : Prop where
  armed : ∀ p, s.armed = some p → s.lock = some p ∧ s.pidFile = some p
  lock : ∀ p, s.lock = some p → s.daemons p = true

/-- What a step of process `pid` does at most. -/
structure Guar (pid : Nat) (s s' : Shared) : Prop where
  paused : s'.paused = s.paused ∨ s.control = some pid
  lock : ∀ q, q ≠ pid → (s'.lock = some q ↔ s.lock = some q)
  control : ∀ q, q ≠ pid → (s'.control = some q ↔ s.control = some q)
  pidFile : s'.pidFile = s.pidFile ∨ s.lock = some pid
  daemons : ∀ q, q ≠ pid → s'.daemons q = s.daemons q
  armed : ∀ q, q ≠ pid → (s'.armed = some q ↔ s.armed = some q)
  arms : s'.armed = some pid → s.armed = some pid ∨ s.paused = false
  attached : s'.attached = true → s.attached = true ∨ s.armed = some pid

/-- A daemon works when it is armed; a command takes down when no daemon is, and none can be. -/
def Asks (pid : Nat) (op : AnyOp) (s : Shared) : Prop :=
  works op = true →
    match op with
    | .life _ => s.armed = some pid
    | .ctl _ => s.control = some pid ∧ s.paused = true ∧ s.armed = none
    | .proc _ => True

def terms : Terms AnySig Shared where
  inv := Shared.Inv
  guar := Guar
  asks := Asks

variable {pid : Nat} {s s' : Shared} {α : Type}

theorem guar_refl (pid : Nat) (s : Shared) : Guar pid s s :=
  ⟨.inl rfl, fun _ _ => Iff.rfl, fun _ _ => Iff.rfl, .inl rfl, fun _ _ => rfl, fun _ _ => Iff.rfl, .inl, .inl⟩

/-! ## What the others leave as it is -/

abbrev Lasting (pid : Nat) (A : Shared → Prop) : Prop := Stable device terms pid A

/-- A step of the others is one of another process, or the hooks are lost. -/
theorem lasting_of {A : Shared → Prop} (hstep : ∀ q s s', q ≠ pid → s.Inv → Guar q s s' → A s → A s')
    (henv : ∀ s, A s → A { s with attached := false }) : Lasting pid A := by
  intro s s' hr h
  obtain ⟨hi, _, hr⟩ := hr
  cases hr with
  | inl hr =>
    obtain ⟨q, hq, hguar⟩ := hr
    exact hstep q s s' hq hi hguar h
  | inr hr =>
    obtain rfl : s' = { s with attached := false } := hr
    exact henv s h

theorem true_lasting : Lasting pid fun _ => True := fun _ _ _ _ => trivial

theorem daemons_lasting : Lasting pid fun s => s.daemons pid = true :=
  lasting_of (fun _ _ _ hq _ hguar h => (hguar.daemons pid (Ne.symm hq)).trans h) fun _ h => h

theorem lock_lasting : Lasting pid fun s => s.lock = some pid :=
  lasting_of (fun _ _ _ hq _ hguar h => (hguar.lock pid (Ne.symm hq)).mpr h) fun _ h => h

theorem control_lasting : Lasting pid fun s => s.control = some pid :=
  lasting_of (fun _ _ _ hq _ hguar h => (hguar.control pid (Ne.symm hq)).mpr h) fun _ h => h

theorem armed_lasting : Lasting pid fun s => s.armed = some pid :=
  lasting_of (fun _ _ _ hq _ hguar h => (hguar.armed pid (Ne.symm hq)).mpr h) fun _ h => h

theorem unarmed_lasting : Lasting pid fun s => s.armed ≠ some pid :=
  lasting_of (fun _ _ _ hq _ hguar h h' => h ((hguar.armed pid (Ne.symm hq)).mp h')) fun _ h => h

/-- The daemon has the lock, and is not armed. -/
def Unarmed (pid : Nat) (s : Shared) : Prop := s.lock = some pid ∧ s.armed ≠ some pid

theorem Unarmed.lasting : Lasting pid (Unarmed pid) := lock_lasting.and unarmed_lasting

theorem Unarmed.nobody (h : Unarmed pid s) (hi : s.Inv) : s.armed = none := by
  cases harmed : s.armed with
  | none => rfl
  | some p =>
    have hlock := (hi.armed p harmed).1
    rw [h.1] at hlock
    obtain rfl := Option.some.inj hlock
    exact absurd harmed h.2

/-- The daemon has written its pid, and not yet looked for `paused`. -/
def Written (pid : Nat) (s : Shared) : Prop := Unarmed pid s ∧ s.pidFile = some pid

theorem Written.lasting : Lasting pid (Written pid) := by
  refine lasting_of ?_ fun s h => h
  intro q s s' hq hi hguar h
  refine ⟨⟨(hguar.lock pid (Ne.symm hq)).mpr h.1.1, ?_⟩, ?_⟩
  · intro harmed
    exact h.1.2 ((hguar.armed pid (Ne.symm hq)).mp harmed)
  · have hsame : s'.pidFile = s.pidFile := by
      refine hguar.pidFile.resolve_right ?_
      intro hlock
      rw [h.1.1] at hlock
      exact hq (Option.some.inj hlock).symm
    rw [hsame]
    exact h.2

/-- The command has the control lock, and `paused` is there. -/
def Paused (pid : Nat) (s : Shared) : Prop := s.control = some pid ∧ s.paused = true

/-- If a daemon is armed at all, it is the one with the pid `found`. -/
def Known (pid : Nat) (found : Option Nat) (s : Shared) : Prop :=
  Paused pid s ∧ ∀ p, s.armed = some p → found = some p

theorem Guar.paused_of {q : Nat} (hguar : Guar q s s') (hq : q ≠ pid) (h : Paused pid s) : Paused pid s' := by
  refine ⟨(hguar.control pid (Ne.symm hq)).mpr h.1, ?_⟩
  have hsame : s'.paused = s.paused := by
    refine hguar.paused.resolve_right ?_
    intro hcontrol
    rw [h.1] at hcontrol
    exact hq (Option.some.inj hcontrol).symm
  rw [hsame]
  exact h.2

theorem Paused.lasting : Lasting pid (Paused pid) :=
  lasting_of (fun _ _ _ hq _ hguar h => hguar.paused_of hq h) fun _ h => h

/-- While `paused` is there, no daemon becomes armed. -/
theorem Guar.armed_of_paused {q p : Nat} (hguar : Guar q s s') (h : s.paused = true) (harmed : s'.armed = some p) :
    s.armed = some p := by
  by_cases hp : p = q
  · rw [hp] at harmed ⊢
    refine (hguar.arms harmed).resolve_right ?_
    intro hpaused
    rw [h] at hpaused
    cases hpaused
  · exact (hguar.armed p hp).mp harmed

theorem Known.lasting {found : Option Nat} : Lasting pid (Known pid found) := by
  refine lasting_of ?_ fun s h => h
  intro q s s' hq _ hguar h
  exact ⟨hguar.paused_of hq h.1, fun p harmed => h.2 p (hguar.armed_of_paused h.1.2 harmed)⟩

theorem Known.nobody (h : Known pid none s) : s.armed = none := by
  cases harmed : s.armed with
  | none => rfl
  | some p =>
    cases h.2 p harmed

/-- A daemon that does not run is not armed. -/
theorem Known.gone {q : Nat} (h : Known pid (some q) s) (hi : s.Inv) (hq : ¬s.daemons q = true) : Known pid none s := by
  refine ⟨h.1, ?_⟩
  intro p harmed
  obtain rfl := Option.some.inj (h.2 p harmed)
  exact absurd (hi.lock q (hi.armed q harmed).1) hq

/-! ## What a process does itself -/

variable {op : AnyOp} {A : Shared → Prop} {Q : α → Shared → Prop}

abbrev Minds (pid : Nat) (Q : α → Shared → Prop) (p : AnyProg α) (s : Shared) : Prop := Safe device terms pid Q p s

/-- The operations that change nothing the processes share, and need nothing. -/
def idle : AnyOp → Bool
  | .life (.loop op) =>
    match op with
    | .stopping | .sleep _ | .log _ | .writeState .. => true
    | _ => false
  | .life (.run op) =>
    match op with
    | .flock | .createPid | .writePid | .removePid | .unlock | .probeTtl _ | .probeHl _ | .probeBalance _ => false
    | _ => true
  | .ctl op =>
    match op with
    | .writePaused | .removePaused | .cleanup | .stopOrphans | .cleanupQos | .restoreOffload => false
    | _ => true
  | .proc op =>
    match op with
    | .flock => false
    | _ => true

theorem works_idle (h : idle op = true) : works op = false := by
  cases op with
  | life op =>
    cases op with
    | loop op => cases op <;> first | rfl | cases h
    | run op => cases op <;> first | rfl | cases h
  | ctl op => cases op <;> first | rfl | cases h
  | proc op => rfl

theorem does_idle {a : AnySig.Ans op} (h : idle op = true) (hd : does pid op s a s') : s' = s := by
  cases op with
  | life op =>
    cases op with
    | loop op => cases op <;> first | exact hd | cases h
    | run op => cases op <;> first | exact hd | cases h
  | ctl op => cases op <;> first | exact hd | cases h
  | proc op => cases op <;> first | exact hd | exact hd.1 | cases h

/-- An idle operation, in between. -/
theorem minds_idle {k : AnySig.Ans op → AnyProg α} (hop : idle op = true) (hA : Lasting pid A) (h : A s)
    (hk : ∀ a s, s.Inv → A s → Minds pid Q (k a) s) : Minds pid Q (.op op k) s := by
  refine safe_op hA h ?_
  intro s hi h
  refine ⟨?_, ?_⟩
  · intro hw
    rw [works_idle hop] at hw
    cases hw
  · intro a s' hd
    rw [does_idle hop hd]
    exact ⟨hi, guar_refl pid s, hk a s hi h⟩

/-- A program of idle operations. -/
theorem within_idle {R : α → Prop} {p : AnyProg α} (hp : Within (idle · = true) R p) (hA : Lasting pid A) (h : A s) :
    Minds pid (fun a s' => A s' ∧ R a) p s := by
  refine hp.safe hA ?_ h
  intro op s hop hi h
  refine ⟨?_, ?_⟩
  · intro hw
    rw [works_idle hop] at hw
    cases hw
  · intro a s' hd
    rw [does_idle hop hd]
    exact ⟨hi, guar_refl pid s, h⟩

/-! ## A daemon at work -/

/-- The operations a daemon asks for once it is armed. -/
def atWork : AnyOp → Bool
  | .life (.loop _) => true
  | .life (.run op) =>
    match op with
    | .flock | .createPid | .writePid | .removePid | .unlock => false
    | _ => true
  | _ => false

theorem Guar.of_attached {attached : Bool} (h : attached = true → s.attached = true ∨ s.armed = some pid) :
    Guar pid s { s with attached := attached } :=
  ⟨.inl rfl, fun _ _ => Iff.rfl, fun _ _ => Iff.rfl, .inl rfl, fun _ _ => rfl, fun _ _ => Iff.rfl, .inl, h⟩

theorem loops_armed {op : Daemon.DaemonOp} {a : Daemon.DaemonSig.Ans op} (hi : s.Inv) (h : s.armed = some pid)
    (hd : loops pid op s a s') : s'.Inv ∧ Guar pid s s' ∧ s'.armed = some pid := by
  have hattached : ∀ attached, Shared.Inv { s with attached := attached } ∧ Guar pid s { s with attached := attached } ∧
      s.armed = some pid := fun attached => ⟨⟨hi.armed, hi.lock⟩, .of_attached fun _ => .inr h, h⟩
  cases op with
  | halted =>
    cases a
    · have hsame : { s with armed := some pid } = s := by rw [← h]
      obtain ⟨_, rfl⟩ := hd
      rw [hsame]
      exact ⟨hi, guar_refl pid s, h⟩
    · obtain rfl : s' = s := hd
      exact ⟨hi, guar_refl pid s', h⟩
  | cleanup =>
    obtain ⟨attached, _, rfl⟩ := hd
    exact hattached attached
  | install4 links kernel workers ttl active =>
    obtain ⟨attached, rfl⟩ := hd
    exact hattached attached
  | install6 links mode hl active =>
    obtain ⟨attached, rfl⟩ := hd
    exact hattached attached
  | _ =>
    obtain rfl : s' = s := hd
    exact ⟨hi, guar_refl pid s', h⟩

theorem does_armed {a : AnySig.Ans op} (hop : atWork op = true) (hi : s.Inv) (h : s.armed = some pid)
    (hd : does pid op s a s') : s'.Inv ∧ Guar pid s s' ∧ s'.armed = some pid := by
  have hsame : s' = s → s'.Inv ∧ Guar pid s s' ∧ s'.armed = some pid := by
    intro heq
    rw [heq]
    exact ⟨hi, guar_refl pid s, h⟩
  cases op with
  | life op =>
    cases op with
    | loop op => exact loops_armed hi h hd
    | run op => cases op <;> first | exact hsame hd | cases hop
  | ctl op => cases hop
  | proc op => cases hop

theorem minds_armed {R : α → Prop} {p : AnyProg α} (hp : Within (atWork · = true) R p) (h : s.armed = some pid) :
    Minds pid (fun a s' => s'.armed = some pid ∧ R a) p s := by
  refine hp.safe armed_lasting ?_ h
  intro op s hop hi h
  refine ⟨?_, ?_⟩
  · intro _
    cases op with
    | life op => exact h
    | ctl op => cases hop
    | proc op => cases hop
  · intro a s' hd
    exact does_armed hop hi h hd

/-! ## From the lock to the loop -/

theorem lived_early {p : Life.LifeProg α} (h : Life.Early p) : Within (atWork · = true) (fun _ => True) (lived p) := by
  refine h.hoist ?_
  intro op hop
  refine ⟨?_, fun _ => trivial⟩
  cases op with
  | loop op => rfl
  | run op => cases op <;> first | rfl | cases hop

theorem lived_loop (p : Daemon.DaemonProg α) : Within (atWork · = true) (fun _ => True) (lived (Life.looped p)) := by
  have hp : Within (fun op => ∃ d, op = Life.LifeOp.loop d) (fun _ => True) (Life.looped p) :=
    (within_true p).hoist fun op _ => ⟨⟨op, rfl⟩, fun _ => trivial⟩
  refine hp.hoist ?_
  intro op hop
  obtain ⟨d, rfl⟩ := hop
  exact ⟨rfl, fun _ => trivial⟩

/-- Only the daemon with the lock writes its pid file. -/
theorem Unarmed.write (h : Unarmed pid s) (hi : s.Inv) (text : Option Nat) :
    Shared.Inv { s with pidFile := text } ∧ Guar pid s { s with pidFile := text } := by
  refine ⟨⟨?_, hi.lock⟩, ?_⟩
  · intro p harmed
    have hnone : s.armed = none := h.nobody hi
    rw [hnone] at harmed
    cases harmed
  · exact ⟨.inl rfl, fun _ _ => Iff.rfl, fun _ _ => Iff.rfl, .inr h.1, fun _ _ => rfl, fun _ _ => Iff.rfl, .inl, .inl⟩

theorem Unarmed.unlock (h : Unarmed pid s) (hi : s.Inv) : Shared.Inv { s with lock := none } ∧ Guar pid s { s with lock := none } := by
  refine ⟨⟨?_, ?_⟩, ?_⟩
  · intro p harmed
    have hnone : s.armed = none := h.nobody hi
    rw [hnone] at harmed
    cases harmed
  · intro p hlock
    cases hlock
  · refine ⟨.inl rfl, ?_, fun _ _ => Iff.rfl, .inl rfl, fun _ _ => rfl, fun _ _ => Iff.rfl, .inl, .inl⟩
    intro q hq
    refine ⟨?_, ?_⟩
    · intro hlock
      cases hlock
    · intro hlock
      rw [h.1] at hlock
      exact absurd (Option.some.inj hlock).symm hq

/-- The daemon that has the lock, its pid in place and no `paused` before it becomes armed. -/
theorem Written.arm (h : Written pid s) (hi : s.Inv) (hpaused : s.paused = false) :
    Shared.Inv { s with armed := some pid } ∧ Guar pid s { s with armed := some pid } := by
  refine ⟨⟨?_, hi.lock⟩, ?_⟩
  · intro p harmed
    obtain rfl := Option.some.inj harmed
    exact ⟨h.1.1, h.2⟩
  · refine ⟨.inl rfl, fun _ _ => Iff.rfl, fun _ _ => Iff.rfl, .inl rfl, fun _ _ => rfl, ?_, fun _ => .inr hpaused, .inl⟩
    intro q hq
    rw [h.1.nobody hi]
    refine ⟨?_, ?_⟩
    · intro harmed
      exact absurd (Option.some.inj harmed).symm hq
    · intro harmed
      cases harmed

/-- The lock is given up last. -/
theorem unlock_minds (h : Unarmed pid s) {k : Unit → AnyProg α} (hk : ∀ s, Minds pid Q (k ()) s) :
    Minds pid Q (.op (.life (.run .unlock)) k) s := by
  refine safe_op Unarmed.lasting h ?_
  intro s hi h
  refine ⟨?_, ?_⟩
  · intro hw
    cases hw
  · intro a s' hd
    obtain rfl : s' = { s with lock := none } := hd
    obtain ⟨hi', hguar⟩ := h.unlock hi
    exact ⟨hi', hguar, hk _⟩

theorem lock_unarmed (hi : s.Inv) (hdaemon : s.daemons pid = true) (hlock : s.lock = none) :
    Shared.Inv { s with lock := some pid } ∧ Guar pid s { s with lock := some pid } ∧
      Unarmed pid { s with lock := some pid } := by
  have hnobody : ∀ p, s.armed ≠ some p := by
    intro p harmed
    have hheld := (hi.armed p harmed).1
    rw [hlock] at hheld
    cases hheld
  refine ⟨⟨?_, ?_⟩, ?_, rfl, hnobody pid⟩
  · intro p harmed
    exact absurd harmed (hnobody p)
  · intro p hp
    obtain rfl := Option.some.inj hp
    exact hdaemon
  · refine ⟨.inl rfl, ?_, fun _ _ => Iff.rfl, .inl rfl, fun _ _ => rfl, fun _ _ => Iff.rfl, .inl, .inl⟩
    intro q hq
    rw [hlock]
    refine ⟨?_, ?_⟩
    · intro hp
      exact absurd (Option.some.inj hp).symm hq
    · intro hp
      cases hp

/-- What `acquire_lock` has done when it says so. -/
def Held (pid : Nat) (got : Life.Acquired) (s : Shared) : Prop := got = .held → Written pid s

theorem givenBack_minds (e : Life.LockError) (h : Unarmed pid s) :
    Minds pid (Held pid) (lived do
      Life.ask .unlock
      return e.acquired) s := by
  refine unlock_minds h ?_
  intro s
  refine safe_ret true_lasting trivial ?_
  intro s _ _ hheld
  cases e <;> cases hheld

/-- With the lock in hand: the pid is written, or the lock given back. -/
theorem writePid_minds (h : Unarmed pid s) : Minds pid (Held pid) (lived <| Life.holding (Life.ask .createLock) <|
    Life.holding (Life.ask .createPid) <| Life.holding (Life.ask .writePid) <| return .held) s := by
  refine minds_idle rfl Unarmed.lasting h ?_
  intro r s hi h
  cases r with
  | error e => exact givenBack_minds e h
  | ok a =>
    refine safe_op Unarmed.lasting h ?_
    intro s hi h
    refine ⟨fun hw => ?_, ?_⟩
    · cases hw
    intro r s' hd
    cases r with
    | error e =>
      obtain rfl : s' = s := hd
      exact ⟨hi, guar_refl pid s', givenBack_minds e h⟩
    | ok a =>
      obtain rfl : s' = { s with pidFile := none } := hd
      obtain ⟨hi', hguar⟩ := h.write hi none
      refine ⟨hi', hguar, safe_op (A := Unarmed pid) Unarmed.lasting h ?_⟩
      intro s hi h
      refine ⟨fun hw => ?_, ?_⟩
      · cases hw
      intro r s' hd
      cases r with
      | error e =>
        obtain ⟨text, rfl⟩ := hd
        obtain ⟨hi', hguar⟩ := h.write hi text
        exact ⟨hi', hguar, givenBack_minds e h⟩
      | ok a =>
        obtain rfl : s' = { s with pidFile := some pid } := hd
        obtain ⟨hi', hguar⟩ := h.write hi (some pid)
        refine ⟨hi', hguar, ?_⟩
        exact safe_ret (A := Written pid) Written.lasting ⟨h, rfl⟩ fun s _ h _ => h

theorem acquireLock_minds (h : s.daemons pid = true) : Minds pid (Held pid) (lived Life.acquireLock) s := by
  have hnot : ∀ (got : Life.Acquired), got ≠ .held → ∀ s, Minds pid (Held pid) (.ret got) s := by
    intro got hgot s
    exact safe_ret true_lasting trivial fun s _ _ hheld => absurd hheld hgot
  have herror : ∀ (e : Life.LockError) s, Minds pid (Held pid) (.ret e.acquired) s := by
    intro e s
    cases e with
    | alreadyExists => exact hnot .already (by decide) s
    | io e => exact hnot (.failed e) (by simp) s
  refine minds_idle rfl daemons_lasting h ?_
  intro r s hi h
  cases r with
  | error e => exact herror e s
  | ok a =>
    refine minds_idle rfl daemons_lasting h ?_
    intro r s hi h
    cases r with
    | error e => exact herror e s
    | ok a =>
      refine safe_op daemons_lasting h ?_
      intro s hi h
      refine ⟨fun hw => ?_, ?_⟩
      · cases hw
      intro got s' hd
      cases got
      · obtain rfl : s' = s := hd
        exact ⟨hi, guar_refl pid s', hnot .already (by decide) s'⟩
      · obtain ⟨hlock, rfl⟩ := hd
        obtain ⟨hi', hguar, hunarmed⟩ := lock_unarmed hi h hlock
        exact ⟨hi', hguar, writePid_minds hunarmed⟩

/-! ## The daemon -/

/-- Where a round of process `pid` may begin. -/
def Ready (pid : Nat) : Job → Shared → Prop
  | .daemon .run, s => s.daemons pid = true
  | .daemon _, s => s.armed = some pid
  | .control _, _ => True

abbrev Round (pid : Nat) (p : AnyProg (Job ⊕ Outcome)) (s : Shared) : Prop :=
  Minds pid (EndsAt (Ready pid) fun _ _ => True) p s

/-- What a round of `run` makes of the end of a life. -/
def ended (result : Except IoError Unit) : AnyProg (Job ⊕ Outcome) := .ret (.inr (.done result))

theorem ended_minds (result : Except IoError Unit) : Round pid (ended result) s :=
  safe_ret true_lasting trivial fun _ _ _ => trivial

/-- The pid file goes before the lock does. -/
theorem release_minds (h : s.lock = some pid) (result : Except IoError Unit) :
    Round pid (lived (do
      Life.releaseLock
      Life.ask .unlock
      return result) >>= ended) s := by
  refine safe_op lock_lasting h ?_
  intro s hi h
  refine ⟨fun hw => ?_, ?_⟩
  · cases hw
  intro a s' hd
  obtain ⟨text, rfl⟩ := hd
  have hnobody : Unarmed pid { s with pidFile := text, armed := none } := by
    refine ⟨h, ?_⟩
    intro harmed
    cases harmed
  refine ⟨⟨?_, hi.lock⟩, ?_, ?_⟩
  · intro p harmed
    cases harmed
  · refine ⟨.inl rfl, fun _ _ => Iff.rfl, fun _ _ => Iff.rfl, .inr h, fun _ _ => rfl, ?_, ?_, .inl⟩
    · intro q hq
      refine ⟨?_, ?_⟩
      · intro harmed
        cases harmed
      · intro harmed
        have hlock := (hi.armed q harmed).1
        rw [h] at hlock
        exact absurd (Option.some.inj hlock).symm hq
    · intro harmed
      cases harmed
  · refine minds_idle rfl Unarmed.lasting hnobody ?_
    intro a s hi h
    refine unlock_minds h ?_
    intro s
    exact ended_minds result

theorem lived_bind {β : Type} (p : Life.LifeProg α) (f : α → Life.LifeProg β) :
    lived (p >>= f) = lived p >>= fun a => lived (f a) := Prog.hoist_bind _ p f

theorem describe_minds {f : String → AnyProg (Job ⊕ Outcome)} (h : s.lock = some pid)
    (hf : ∀ text s, s.lock = some pid → Round pid (f text) s) (e : IoError) : Round pid (lived (Life.describe e) >>= f) s := by
  cases e with
  | new kind text => exact hf text s h
  | last => exact minds_idle rfl lock_lasting h fun text s _ h => hf text s h

theorem finish_minds (h : s.lock = some pid) (result : Except IoError Unit) :
    Round pid (lived (Life.finish result) >>= ended) s := by
  cases result with
  | ok a => exact release_minds h (.ok a)
  | error e =>
    rw [Life.finish, lived_bind, bind_assoc]
    refine describe_minds h ?_ e
    intro text s h
    refine minds_idle rfl lock_lasting h fun _ s _ h => ?_
    refine minds_idle rfl lock_lasting h fun _ s _ h => ?_
    exact minds_idle rfl lock_lasting h fun _ s _ h => release_minds h (.error e)

theorem conclude_minds (h : s.lock = some pid) (result : Except IoError Unit) :
    Round pid (lived (Life.conclude result) >>= ended) s := by
  refine minds_idle rfl lock_lasting h ?_
  intro r s hi h
  cases r with
  | ok a => exact finish_minds h result
  | error e =>
    change Round pid (lived (Life.describe e >>= _) >>= ended) s
    rw [lived_bind, bind_assoc]
    refine describe_minds h ?_ e
    intro text s h
    refine minds_idle rfl lock_lasting h ?_
    intro _ s _ h
    cases result with
    | ok a => exact finish_minds h (.error e)
    | error e' => exact finish_minds h (.error e')

/-- How `prepare` leaves the daemon: at work when it is to run, and with the lock anyhow. -/
def Prepared (pid : Nat) : Except IoError (Option (Daemon.Setup × Nat)) → Shared → Prop
  | .ok (some _), s => s.armed = some pid
  | _, s => s.lock = some pid

theorem prepare_minds (h : Written pid s) : Minds pid (Prepared pid) (lived Life.prepare.run) s := by
  refine safe_op Written.lasting h ?_
  intro s hi h
  refine ⟨fun hw => ?_, ?_⟩
  · cases hw
  intro halted s' hd
  cases halted
  · obtain ⟨hpaused, rfl⟩ := hd
    obtain ⟨hi', hguar⟩ := h.arm hi hpaused
    refine ⟨hi', hguar, (minds_armed (lived_early Life.prepareUnhalted_early) rfl).mono ?_⟩
    intro r s hi h
    cases r with
    | error e => exact (hi.armed pid h.1).1
    | ok found =>
      cases found with
      | none => exact (hi.armed pid h.1).1
      | some found => exact h.1
  · obtain rfl : s' = s := hd
    refine ⟨hi, guar_refl pid s', minds_idle rfl lock_lasting h.1.1 ?_⟩
    intro _ s _ h
    exact safe_ret lock_lasting h fun _ _ h => h

/-- From one round of a daemon to the next. -/
def carry : Life.Stage ⊕ Except IoError Unit → AnyProg (Job ⊕ Outcome)
  | .inl stage => .ret (.inl (.daemon stage))
  | .inr result => ended result

theorem body_daemon (stage : Life.Stage) : body (.daemon stage) = lived (Life.round stage) >>= carry := by
  have hcarry : carry = fun
      | .inl stage => (return .inl (.daemon stage) : AnyProg (Job ⊕ Outcome))
      | .inr result => return .inr (.done result) := by
    funext r
    cases r <;> rfl
  rw [hcarry]
  rfl

theorem concluded_minds (h : s.lock = some pid) (result : Except IoError Unit) :
    Round pid (lived (do return .inr (← Life.conclude result)) >>= carry) s := by
  rw [lived_bind, bind_assoc]
  exact conclude_minds h result

theorem daemon_minds (stage : Life.Stage) (h : Ready pid (.daemon stage) s) : Round pid (body (.daemon stage)) s := by
  rw [body_daemon]
  cases stage with
  | run =>
    change Round pid (lived (Life.acquireLock >>= _) >>= carry) s
    rw [lived_bind, bind_assoc]
    refine safe_bind ((acquireLock_minds h).mono ?_)
    intro got s _ hgot
    cases got with
    | already => exact ended_minds (.ok ())
    | failed e => exact ended_minds (.error e)
    | held =>
      change Round pid (lived (Life.prepare.run >>= _) >>= carry) s
      rw [lived_bind, bind_assoc]
      refine safe_bind ((prepare_minds (hgot rfl)).mono ?_)
      intro r s hi hr
      cases r with
      | error e => exact concluded_minds hr (.error e)
      | ok found =>
        cases found with
        | none => exact concluded_minds hr (.ok ())
        | some found => exact safe_ret armed_lasting hr fun _ _ h => h
  | turn c l =>
    change Round pid (lived (Life.looped (Daemon.turn c l) >>= _) >>= carry) s
    rw [lived_bind, bind_assoc]
    refine safe_bind ((minds_armed (lived_loop _) h).mono ?_)
    intro r s _ h
    cases r with
    | some l' => exact safe_ret armed_lasting h.1 fun _ _ h => h
    | none => exact safe_ret armed_lasting h.1 fun _ _ h => h
  | shutdown l =>
    change Round pid (lived (Life.looped (Daemon.shutdown l) >>= _) >>= carry) s
    rw [lived_bind, bind_assoc]
    refine safe_bind ((minds_armed (lived_loop _) h).mono ?_)
    intro cleaned s hi h
    exact concluded_minds (hi.armed pid h.1).1 _

/-! ## The commands -/

/-- The operations of a command that need only the control lock. -/
def ordinary : AnyOp → Bool
  | .ctl op => !takesDown op
  | .proc .flock => false
  | .proc _ => true
  | _ => false

theorem does_ordinary {a : AnySig.Ans op} (hop : ordinary op = true) (hi : s.Inv) (h : s.control = some pid)
    (hd : does pid op s a s') : s'.Inv ∧ Guar pid s s' ∧ s'.control = some pid := by
  have hsame : s' = s → s'.Inv ∧ Guar pid s s' ∧ s'.control = some pid := by
    intro heq
    rw [heq]
    exact ⟨hi, guar_refl pid s, h⟩
  have hpaused : ∀ paused, s' = { s with paused := paused } → s'.Inv ∧ Guar pid s s' ∧ s'.control = some pid := by
    rintro paused rfl
    refine ⟨⟨hi.armed, hi.lock⟩, ?_, h⟩
    exact ⟨.inr h, fun _ _ => Iff.rfl, fun _ _ => Iff.rfl, .inl rfl, fun _ _ => rfl, fun _ _ => Iff.rfl, .inl, .inl⟩
  cases op with
  | life op => cases hop
  | proc op => cases op <;> first | exact hsame hd | exact hsame hd.1 | cases hop
  | ctl op =>
    cases op with
    | writePaused =>
      cases a with
      | ok a => exact hpaused true hd
      | error e => exact hd.elim hsame (hpaused true)
    | removePaused => exact hd.elim hsame (hpaused false)
    | cleanup => cases hop
    | _ => exact hsame hd

theorem works_ordinary (hop : ordinary op = true) : works op = false := by
  cases op with
  | life op => cases hop
  | ctl op =>
    change takesDown op = false
    change (!takesDown op) = true at hop
    simpa using hop
  | proc op => rfl

theorem minds_ordinary {R : α → Prop} {p : AnyProg α} (hp : Within (ordinary · = true) R p) (h : s.control = some pid) :
    Minds pid (fun _ s' => s'.control = some pid) p s := by
  refine (hp.safe control_lasting ?_ h).mono fun _ _ _ h => h.1
  intro op s hop hi h
  refine ⟨?_, ?_⟩
  · intro hw
    rw [works_ordinary hop] at hw
    cases hw
  · intro a s' hd
    exact does_ordinary hop hi h hd

/-- The operations on locks and pids that change nothing. -/
def looks : AnyOp → Bool
  | .proc .flock => false
  | .proc _ => true
  | _ => false

theorem looks_idle (op : AnyOp) (h : looks op = true) : idle op = true := by
  cases op with
  | proc op => cases op <;> first | rfl | cases h
  | life op => cases h
  | ctl op => cases h

theorem looks_ordinary (op : AnyOp) (h : looks op = true) : ordinary op = true := by
  cases op with
  | proc op => cases op <;> first | rfl | cases h
  | life op => cases h
  | ctl op => cases h

theorem waitGone_looks (pid : Nat) : ∀ n, Within (looks · = true) (fun _ => True) (waitGone pid n)
  | 0 => trivial
  | n + 1 => by
    refine ⟨rfl, fun before => ?_⟩
    cases before
    case false => trivial
    refine ⟨rfl, fun owned => ?_⟩
    cases owned
    case false => trivial
    exact ⟨rfl, fun _ => waitGone_looks pid n⟩

theorem livePid_looks : Within (looks · = true) (fun _ => True) livePid := by
  refine ⟨rfl, fun text => ?_⟩
  cases text with
  | none => trivial
  | some pid =>
    refine ⟨rfl, fun owned => ?_⟩
    cases owned <;> trivial

theorem meaning_ordinary (op : Ctl.CtlOp) (found : Option Nat) (hop : takesDown op = false) :
    Within (ordinary · = true) (fun _ => True) (meaning op found) := by
  cases op with
  | owned site => exact within_bind.mpr ((livePid_looks.ops looks_ordinary).mono fun _ _ => trivial)
  | terminate =>
    cases found with
    | none => trivial
    | some pid =>
      refine ⟨rfl, fun _ => ?_⟩
      change Within (ordinary · = true) (fun _ => True) (waitGone pid 450 >>= _)
      exact within_bind.mpr (((waitGone_looks pid 450).ops looks_ordinary).mono fun _ _ => ⟨rfl, fun _ => trivial⟩)
  | _ => first | exact ⟨rfl, fun _ => trivial⟩ | cases hop

/-- `x` can run in a command, and leaves it the control lock. -/
def Obeys (pid : Nat) (x : Ctl.CtlProg α) : Prop :=
  ∀ s found, s.control = some pid → Minds pid (fun _ s' => s'.control = some pid) (x.run.interp meaning found) s

theorem obeys_within {x : Ctl.CtlProg α} (h : Within (takesDown · = false) (fun _ => True) x.run) : Obeys pid x := by
  intro s found hs
  exact minds_ordinary (h.interp meaning_ordinary found) hs

theorem obeys_bind {β : Type} {x : Ctl.CtlProg α} {f : α → Ctl.CtlProg β} (hx : Obeys pid x) (hf : ∀ a, Obeys pid (f a)) :
    Obeys pid (x >>= f) := by
  intro s found hs
  rw [ExceptT.run_bind, Prog.interp_bind]
  refine safe_bind ((hx s found hs).mono ?_)
  intro r s _ h
  obtain ⟨r, found⟩ := r
  cases r with
  | ok a => exact hf a s found h
  | error e => exact safe_ret control_lasting h fun _ _ h => h

/-- The part of `stop` after the wait. -/
def takeDown : Ctl.CtlProg Unit := do
  if ← Ctl.select then
    if !(← Ctl.cleanup) then
      throw (.new .other "firewall cleanup incomplete")
  Ctl.stopOrphans
  let sqmResult ← Ctl.cleanupQos
  Ctl.restoreOffload
  Ctl.lift sqmResult
  Ctl.writePhase "stopped"

/-- The operations of `takeDown`. -/
def down : AnyOp → Bool
  | .ctl op =>
    match op with
    | .select | .cleanup | .stopOrphans | .cleanupQos | .restoreOffload | .writePhase _ => true
    | _ => false
  | _ => false

theorem takeDown_down (found : Option Nat) :
    Within (down · = true) (fun _ => True) (takeDown.run.interp meaning found) := by
  have hrest : Within (down · = true) (fun _ => True) (ExceptT.run (do
      Ctl.stopOrphans
      let sqmResult ← Ctl.cleanupQos
      Ctl.restoreOffload
      Ctl.lift sqmResult
      Ctl.writePhase "stopped") |>.interp meaning found) := by
    refine ⟨rfl, fun _ => ⟨rfl, fun r => ⟨rfl, fun _ => ?_⟩⟩⟩
    cases r with
    | ok a => exact ⟨rfl, fun _ => trivial⟩
    | error e => trivial
  refine ⟨rfl, fun usable => ?_⟩
  cases usable
  case false => exact hrest
  refine ⟨rfl, fun cleaned => ?_⟩
  cases cleaned
  · trivial
  · exact hrest

theorem takeDown_minds (found : Option Nat) (h : Known pid none s) :
    Minds pid (fun _ s' => s'.control = some pid) (takeDown.run.interp meaning found) s := by
  refine ((takeDown_down found).safe Known.lasting ?_ h).mono fun _ _ _ h => h.1.1.1
  intro op s hop hi h
  refine ⟨?_, ?_⟩
  · intro _
    cases op with
    | ctl op => exact ⟨h.1.1, h.1.2, h.nobody⟩
    | life op => cases hop
    | proc op => cases hop
  · intro a s' hd
    have hsame : s' = s → s'.Inv ∧ Guar pid s s' ∧ Known pid none s' := by
      intro heq
      rw [heq]
      exact ⟨hi, guar_refl pid s, h⟩
    cases op with
    | ctl op =>
      cases op with
      | cleanup =>
        obtain ⟨left, hleft, rfl⟩ := hd
        exact ⟨⟨hi.armed, hi.lock⟩, .of_attached fun hl => .inl (hleft hl), h⟩
      | _ => first | exact hsame hd | cases hop
    | life op => cases hop
    | proc op => cases hop

/-- What `stop` knows of the pid that it has read. -/
theorem read_known {text : Option Nat} (hi : s.Inv) (h : Paused pid s) (htext : text = s.pidFile) : Known pid text s := by
  refine ⟨h, ?_⟩
  intro p harmed
  rw [htext]
  exact (hi.armed p harmed).2

/-- A look at process `q` that does not find it there. -/
theorem owns_minds {q : Nat} {k : Bool → AnyProg α} (h : Known pid (some q) s)
    (hgone : ∀ s, Known pid none s → Minds pid Q (k false) s)
    (hlive : ∀ s, Known pid (some q) s → Minds pid Q (k true) s) : Minds pid Q (.op (.proc (.owns q)) k) s := by
  refine safe_op Known.lasting h ?_
  intro s hi h
  refine ⟨fun hw => ?_, ?_⟩
  · cases hw
  intro owned s' hd
  obtain ⟨rfl, howned⟩ := hd
  refine ⟨hi, guar_refl pid s', ?_⟩
  cases owned
  · refine hgone s' (h.gone hi ?_)
    intro hq
    cases howned hq
  · exact hlive s' h

theorem terminate_minds {q : Nat} {k : Bool × Option Nat → AnyProg α} (h : Known pid (some q) s)
    (hgone : ∀ s, Known pid none s → Minds pid Q (k (false, some q)) s)
    (hlive : ∀ s, Known pid (some q) s → Minds pid Q (k (true, some q)) s) :
    Minds pid Q (meaning .terminate (some q) >>= k) s := by
  refine minds_idle rfl Known.lasting h ?_
  intro _ s _ h
  change Minds pid Q ((waitGone q 450 >>= _) >>= k) s
  rw [bind_assoc]
  refine safe_bind ((within_idle ((waitGone_looks q 450).ops looks_idle) Known.lasting h).mono ?_)
  intro _ s _ h
  exact owns_minds h.1 hgone hlive

theorem stop_obeys : Obeys pid Ctl.stop := by
  intro s found h
  have hend : ∀ (r : Except IoError Unit × Option Nat) (s : Shared), s.control = some pid →
      Minds pid (fun _ s' => s'.control = some pid) (.ret r) s :=
    fun r s h => safe_ret control_lasting h fun _ _ h => h
  refine minds_idle rfl control_lasting h ?_
  intro r s hi h
  cases r with
  | error e => exact hend (.error e, found) s h
  | ok a =>
    refine safe_op control_lasting h ?_
    intro s hi h
    refine ⟨fun hw => ?_, ?_⟩
    · cases hw
    intro r s' hd
    have hdoes : does pid (.ctl .writePaused) s r s' := hd
    obtain ⟨hi', hguar, h'⟩ := does_ordinary (by rfl) hi h hdoes
    refine ⟨hi', hguar, ?_⟩
    cases r with
    | error e => exact hend (.error e, found) s' h'
    | ok a =>
      obtain rfl : s' = { s with paused := true } := hd
      refine safe_op (A := Paused pid) Paused.lasting ⟨h, rfl⟩ ?_
      intro s hi h
      refine ⟨fun hw => ?_, ?_⟩
      · cases hw
      intro text s' hd
      obtain ⟨rfl, htext⟩ := hd
      have hknown := read_known hi h htext
      refine ⟨hi, guar_refl pid s', ?_⟩
      cases text with
      | none => exact takeDown_minds none hknown
      | some q =>
        refine owns_minds hknown (fun s h => takeDown_minds none h) ?_
        intro s h
        change Minds pid _ (meaning .terminate (some q) >>= _) s
        refine terminate_minds h (fun s h => takeDown_minds (some q) h) ?_
        intro s h
        exact hend _ s h.1.1

theorem obeys_pure (a : α) : Obeys pid (pure a) := obeys_within trivial

/-- A function of one operation. -/
theorem obeys_op (op : Ctl.CtlOp) (hop : takesDown op = false) (f : Ctl.CtlSig.Ans op → Except IoError α) :
    Obeys pid (.mk (.op op fun a => .ret (f a))) := obeys_within ⟨hop, fun _ => trivial⟩

theorem obeys_throw (e : IoError) : Obeys pid (throw e : Ctl.CtlProg α) := obeys_within trivial

theorem obeys_lift (x : Except IoError α) : Obeys pid (Ctl.lift x) := obeys_within trivial

theorem start_obeys : Obeys pid Ctl.start := by
  have hlaunch : Obeys pid (do
      Ctl.removePaused
      Ctl.removeLastError
      Ctl.currentExe
      Ctl.spawn) := by
    refine obeys_bind (obeys_op .removePaused rfl .ok) fun _ => obeys_bind (obeys_op .removeLastError rfl .ok) fun _ => ?_
    exact obeys_bind (obeys_op .currentExe rfl id) fun _ => obeys_op .spawn rfl id
  have hready : Obeys pid (do
      let text ← Ctl.readConfig .start
      Ctl.lift (Config.validate text)
      Ctl.ensureState .start
      if ← Ctl.owned .start then return
      Ctl.removePaused
      Ctl.removeLastError
      Ctl.currentExe
      Ctl.spawn) := by
    refine obeys_bind (obeys_op (.readConfig .start) rfl id) fun text => obeys_bind (obeys_lift _) fun _ => ?_
    refine obeys_bind (obeys_op (.ensureState .start) rfl id) fun _ => ?_
    refine obeys_bind (obeys_op (.owned .start) rfl .ok) fun owned => ?_
    cases owned
    · exact hlaunch
    · exact obeys_pure ()
  refine obeys_bind (obeys_op .halted rfl .ok) fun halted => ?_
  cases halted
  · exact hready
  · exact obeys_throw _

theorem validateTemp_obeys : Obeys pid Ctl.validateTemp := by
  refine obeys_within ⟨rfl, fun r => ?_⟩
  cases r with
  | error e => exact ⟨rfl, fun _ => trivial⟩
  | ok text =>
    change Within _ _ (ExceptT.run (tryCatch (Ctl.lift (Config.validate text)) fun e => do
      Ctl.removeTemp
      throw e))
    cases Config.validate text with
    | ok a => trivial
    | error e => exact ⟨rfl, fun _ => trivial⟩

theorem commit_obeys (old : List Char) : Obeys pid (Ctl.commit old) := by
  have hsave : ∀ running : Bool, Obeys pid (do
      Ctl.writeBackup old
      Ctl.rename
      if running then Ctl.start) := by
    intro running
    refine obeys_bind (obeys_op (.writeBackup old) rfl id) fun _ => obeys_bind (obeys_op .rename rfl id) fun _ => ?_
    cases running
    · exact obeys_pure ()
    · exact start_obeys
  refine obeys_bind (obeys_op (.owned .configure) rfl .ok) fun running => ?_
  cases running
  · exact hsave false
  · exact obeys_bind stop_obeys fun _ => hsave true

theorem configure_obeys (settings : List (List Char)) : Obeys pid (Ctl.configure settings) := by
  refine obeys_bind (obeys_op (.readConfig .configure) rfl id) fun old => obeys_bind (obeys_lift _) fun entries => ?_
  refine obeys_bind (obeys_op (.writeTemp _) rfl id) fun _ => obeys_bind (obeys_op .chmodTemp rfl id) fun _ => ?_
  exact obeys_bind validateTemp_obeys fun _ => commit_obeys old

/-- The same of what a command does around the functions of `ctl.rs`. -/
def Holds (pid : Nat) (x : AnyTry α) : Prop :=
  ∀ s : Shared, s.control = some pid → Minds pid (fun _ s' => s'.control = some pid) x.run s

theorem holds_controlled {x : Ctl.CtlProg Unit} (h : Obeys pid x) : Holds pid (controlled x) := by
  intro s hs
  refine safe_bind ((h s none hs).mono ?_)
  intro r s _ h
  exact safe_ret control_lasting h fun _ _ h => h

theorem holds_bind {β : Type} {x : AnyTry α} {f : α → AnyTry β} (hx : Holds pid x) (hf : ∀ a, Holds pid (f a)) :
    Holds pid (x >>= f) := by
  intro s hs
  rw [ExceptT.run_bind]
  refine safe_bind ((hx s hs).mono ?_)
  intro r s _ h
  cases r with
  | ok a => exact hf a s h
  | error e => exact safe_ret control_lasting h fun _ _ h => h

theorem holds_within {x : AnyTry α} (h : Within (ordinary · = true) (fun _ => True) x.run) : Holds pid x :=
  fun _ hs => minds_ordinary h hs

theorem moduleDir_holds : Holds pid (orFail (ask .moduleDir)) := holds_within ⟨rfl, fun _ => trivial⟩

theorem restart_holds : Holds pid restart := by
  refine holds_bind (holds_within (x := orFail (ask .readConfig)) ⟨rfl, fun _ => trivial⟩) fun text => ?_
  refine holds_bind (holds_within trivial) fun _ => ?_
  exact holds_bind (holds_controlled stop_obeys) fun _ => holds_controlled start_obeys

theorem toggle_holds : Holds pid toggle := by
  have hlive : Holds pid (attempt livePid) :=
    holds_within (within_bind.mpr ((livePid_looks.ops looks_ordinary).mono fun _ _ => trivial))
  refine holds_bind hlive fun found => ?_
  cases found with
  | none => exact holds_controlled start_obeys
  | some q => exact holds_controlled stop_obeys

theorem run_holds (cmd : Command) : Holds pid cmd.run := by
  cases cmd with
  | start => exact holds_bind moduleDir_holds fun _ => holds_controlled start_obeys
  | stop => exact holds_controlled stop_obeys
  | restart => exact holds_bind moduleDir_holds fun _ => restart_holds
  | toggle => exact holds_bind moduleDir_holds fun _ => toggle_holds
  | configure settings => exact holds_bind moduleDir_holds fun _ => holds_controlled (configure_obeys settings)

/-- A command takes the control lock, or ends. -/
theorem control_minds (cmd : Command) (s : Shared) : Round pid (body (.control cmd)) s := by
  have hend : ∀ (r : Outcome) (s : Shared), Round pid (.ret (.inr r)) s :=
    fun r s => safe_ret true_lasting trivial fun _ _ _ => trivial
  refine minds_idle rfl true_lasting trivial ?_
  intro r s _ _
  cases r with
  | error e => exact hend _ s
  | ok a =>
    refine minds_idle rfl true_lasting trivial ?_
    intro r s _ _
    cases r with
    | error e => exact hend _ s
    | ok a =>
      refine safe_op true_lasting trivial ?_
      intro s hi _
      refine ⟨fun hw => ?_, ?_⟩
      · cases hw
      intro got s' hd
      cases got
      · obtain rfl : s' = s := hd
        exact ⟨hi, guar_refl pid s', hend _ s'⟩
      · obtain ⟨hfree, rfl⟩ := hd
        refine ⟨⟨hi.armed, hi.lock⟩, ?_, ?_⟩
        · refine ⟨.inl rfl, fun _ _ => Iff.rfl, ?_, .inl rfl, fun _ _ => rfl, fun _ _ => Iff.rfl, .inl, .inl⟩
          intro q hq
          rw [hfree]
          refine ⟨?_, ?_⟩
          · intro hp
            exact absurd (Option.some.inj hp).symm hq
          · intro hp
            cases hp
        · change Round pid ((cmd.run.run >>= _) >>= _) _
          rw [bind_assoc]
          refine safe_bind ((run_holds cmd _ rfl).mono ?_)
          intro r s _ _
          exact hend _ s

/-! ## All processes -/

theorem without_eq {q : Nat} (hq : q ≠ pid) (owner : Option Nat) : without pid owner = some q ↔ owner = some q := by
  unfold without
  split
  case isTrue h =>
    rw [h]
    refine ⟨?_, ?_⟩
    · intro hq'
      cases hq'
    · intro hq'
      exact absurd (Option.some.inj hq').symm hq
  case isFalse => exact Iff.rfl

theorem without_self (owner : Option Nat) : without pid owner ≠ some pid := by
  unfold without
  split
  case isTrue =>
    intro h
    cases h
  case isFalse h => exact h

/-- The end of a process, killed or not. -/
theorem gone_minds (pid : Nat) (hi : s.Inv) : (s.without pid).Inv ∧ Guar pid s (s.without pid) := by
  refine ⟨⟨?_, ?_⟩, ?_⟩
  · intro p harmed
    have hp : p ≠ pid := by
      rintro rfl
      exact without_self s.armed harmed
    obtain ⟨hlock, hfile⟩ := hi.armed p ((without_eq hp s.armed).mp harmed)
    exact ⟨(without_eq hp s.lock).mpr hlock, hfile⟩
  · intro p hlock
    have hp : p ≠ pid := by
      rintro rfl
      exact without_self s.lock hlock
    have hdaemon : s.daemons p = true := hi.lock p ((without_eq hp s.lock).mp hlock)
    calc (s.without pid).daemons p = s.daemons p := Function.update_of_ne hp ..
      _ = true := hdaemon
  · refine ⟨.inl rfl, ?_, ?_, .inl rfl, ?_, ?_, ?_, .inl⟩
    · exact fun q hq => without_eq hq s.lock
    · exact fun q hq => without_eq hq s.control
    · exact fun q hq => Function.update_of_ne hq ..
    · exact fun q hq => without_eq hq s.armed
    · intro harmed
      exact absurd harmed (without_self s.armed)

theorem starts_minds {job : Job} (hi : s.Inv) (hborn : starts pid job s s') : s'.Inv ∧ Guar pid s s' ∧ Ready pid job s' := by
  cases job with
  | control cmd =>
    obtain rfl : s' = s := hborn
    exact ⟨hi, guar_refl pid s', trivial⟩
  | daemon stage =>
    cases stage with
    | run =>
      obtain rfl : s' = { s with daemons := Function.update s.daemons pid true } := hborn
      refine ⟨⟨hi.armed, ?_⟩, ?_, Function.update_self ..⟩
      · intro p hlock
        have hdaemon := hi.lock p hlock
        change Function.update s.daemons pid true p = true
        rw [Function.update_apply, hdaemon, ite_self]
      · refine ⟨.inl rfl, fun _ _ => Iff.rfl, fun _ _ => Iff.rfl, .inl rfl, ?_, fun _ _ => Iff.rfl, .inl, .inl⟩
        intro q hq
        exact Function.update_of_ne hq ..
    | turn c l => cases hborn
    | shutdown l => cases hborn

theorem body_minds (job : Job) (h : Ready pid job s) : Round pid (body job) s := by
  cases job with
  | daemon stage => exact daemon_minds stage h
  | control cmd => exact control_minds cmd s

theorem device_sound : Effect.Sound device terms Ready (fun _ _ _ => True) (fun _ _ => True) where
  body := fun _ job _ _ h => body_minds job h
  born := fun _ _ _ _ hi _ hborn => starts_minds hi hborn
  ended := by
    rintro pid r s _ hi _ rfl
    obtain ⟨hi', hguar⟩ := gone_minds pid hi
    exact ⟨hi', hguar, trivial⟩
  killed := by
    rintro pid s _ hi rfl
    obtain ⟨hi', hguar⟩ := gone_minds pid hi
    exact ⟨hi', hguar, trivial⟩
  env := by
    rintro s _ hi rfl
    exact ⟨hi.armed, hi.lock⟩
  dead := fun _ => true_lasting

/-- The state directory at boot, whatever was left in it: no process runs. -/
def Shared.booted (paused attached : Bool) (pidFile : Option Nat) : Shared where
  paused := paused
  lock := none
  control := none
  pidFile := pidFile
  daemons := fun _ => false
  attached := attached
  armed := none

theorem booted_inv (paused attached : Bool) (pidFile : Option Nat) : (Shared.booted paused attached pidFile).Inv := by
  refine ⟨?_, ?_⟩
  · intro p harmed
    cases harmed
  · intro p hlock
    cases hlock

/-- What the processes of the device can have come to. -/
def Reached (c : Procs AnySig Job Outcome Shared) : Prop :=
  ∃ paused attached pidFile, device.Reach (.booted paused attached pidFile) c

/-- Process `p` is about to do `op`. -/
def About (c : Procs AnySig Job Outcome Shared) (p : Nat) (op : AnyOp) : Prop := ∃ k, c.left p = some (.op op k)

theorem Reached.orderly {c : Procs AnySig Job Outcome Shared} (h : Reached c) :
    Orderly device terms Ready (fun _ _ _ => True) (fun _ _ => True) c := by
  obtain ⟨paused, attached, pidFile, h⟩ := h
  exact h.sound device_sound guar_refl (booted_inv paused attached pidFile) fun _ => trivial

theorem About.asks {c : Procs AnySig Job Outcome Shared} {p : Nat} (h : Reached c) (hop : About c p op) :
    Asks p op c.shared := by
  obtain ⟨k, hk⟩ := hop
  exact h.orderly.asks hk

/-- Of all daemons and commands, one at most is at work at any time. -/
theorem one_at_work {c : Procs AnySig Job Outcome Shared} (h : Reached c) {p q : Nat} {op op' : AnyOp} (hp : About c p op)
    (hq : About c q op') (hop : works op = true) (hop' : works op' = true) : p = q := by
  have hpasks := hp.asks h hop
  have hqasks := hq.asks h hop'
  cases op with
  | proc op => cases hop
  | life op =>
    cases op' with
    | proc op' => cases hop'
    | life op' =>
      have hboth : some p = some q := Eq.trans (Eq.symm hpasks) hqasks
      exact Option.some.inj hboth
    | ctl op' =>
      have hnone : none = some p := Eq.trans (Eq.symm hqasks.2.2) hpasks
      cases hnone
  | ctl op =>
    cases op' with
    | proc op' => cases hop'
    | life op' =>
      have hnone : none = some q := Eq.trans (Eq.symm hpasks.2.2) hqasks
      cases hnone
    | ctl op' =>
      have hboth : some p = some q := Eq.trans (Eq.symm hpasks.1) hqasks.1
      exact Option.some.inj hboth

/-- A `stop` that finds no daemon comes to its cleanup. -/
theorem stop_reached : ∃ c, Reached c ∧ About c 7 (.ctl .cleanup) ∧ c.shared.attached = true := by
  have hborn : device.Reach (.booted false true none)
      ⟨.booted false true none, Function.update (fun _ => none) 7 (some (device.body (.control .stop)))⟩ :=
    .tail .refl (.born rfl rfl)
  have hcomes : ∃ k, Comes (does 7) (body (.control .stop)) (.booted false true none) (.op (.ctl .cleanup) k)
      { Shared.booted true true none with control := some 7 } := by
    apply Exists.intro
    refine .op (a := .ok ()) rfl (.op (a := .ok ()) rfl (.op (a := true) ⟨rfl, rfl⟩ ?_))
    exact .op (a := .ok ()) rfl (.op (a := .ok ()) rfl (.op (a := none) ⟨rfl, rfl⟩ (.op (a := true) rfl .here)))
  obtain ⟨k, hcomes⟩ := hcomes
  obtain ⟨c, hreach, _, hleft, hshared⟩ := hcomes.reach hborn rfl rfl
  refine ⟨c, ⟨_, _, _, hreach⟩, ⟨k, hleft⟩, ?_⟩
  rw [hshared]
  rfl

/-- Only that process is at work then. -/
theorem one_at_work_stop : ∃ c, Reached c ∧ About c 7 (.ctl .cleanup) ∧
    ∀ q op, About c q op → works op = true → q = 7 := by
  obtain ⟨c, hreached, hstop, _⟩ := stop_reached
  exact ⟨c, hreached, hstop, fun q op hq hop => one_at_work hreached hq hstop hop rfl⟩

/-! ## After `stop` -/

/-- Steps that leave `paused` where it is. -/
abbrev Still (c c' : Procs AnySig Job Outcome Shared) : Prop :=
  ReflTransGen (fun c c' => device.Step c c' ∧ c'.shared.paused = true) c c'

theorem Reached.step {c c' : Procs AnySig Job Outcome Shared} (h : Reached c) (hs : device.Step c c') : Reached c' := by
  obtain ⟨paused, attached, pidFile, h⟩ := h
  exact ⟨paused, attached, pidFile, h.tail hs⟩

/-- While `paused` is there and no daemon is armed, none becomes armed, and no hook is attached. -/
theorem still_step {c c' : Procs AnySig Job Outcome Shared} (h : Reached c) (hpaused : c.shared.paused = true)
    (harmed : c.shared.armed = none) (hs : device.Step c c') :
    c'.shared.armed = none ∧ (c'.shared.attached = true → c.shared.attached = true) := by
  obtain ⟨_, hguar | henv⟩ := h.orderly.step device_sound guar_refl hs
  · obtain ⟨q, hguar⟩ := hguar
    refine ⟨?_, ?_⟩
    · cases harmed' : c'.shared.armed with
      | none => rfl
      | some p =>
        have hbefore := hguar.armed_of_paused hpaused harmed'
        rw [harmed] at hbefore
        cases hbefore
    · intro hattached
      refine (hguar.attached hattached).resolve_right ?_
      intro hq
      rw [harmed] at hq
      cases hq
  · have hsame : c'.shared = { c.shared with attached := false } := henv
    rw [hsame]
    refine ⟨harmed, ?_⟩
    intro hattached
    cases hattached

theorem still_run {c c' : Procs AnySig Job Outcome Shared} (h : Reached c) (hpaused : c.shared.paused = true)
    (harmed : c.shared.armed = none) (hs : Still c c') :
    Reached c' ∧ c'.shared.paused = true ∧ c'.shared.armed = none ∧
      (c'.shared.attached = true → c.shared.attached = true) := by
  induction hs with
  | refl => exact ⟨h, hpaused, harmed, id⟩
  | tail _ hs ih =>
    obtain ⟨h, hpaused, harmed, hattached⟩ := ih
    obtain ⟨harmed', hattached'⟩ := still_step h hpaused harmed hs.1
    exact ⟨h.step hs.1, hs.2, harmed', fun ha => hattached (hattached' ha)⟩

/-- Once a `stop` has come to its cleanup, and for as long as `paused` is there: no daemon is at
work, and hooks that are gone stay gone. -/
theorem stop_lasts {c c₁ c₂ : Procs AnySig Job Outcome Shared} (h : Reached c) {p : Nat}
    (hp : About c p (.ctl .cleanup)) (h₁ : Still c c₁) (h₂ : Still c₁ c₂) :
    (∀ q op, About c₂ q (.life op) → works (.life op) = false) ∧
      (c₂.shared.attached = true → c₁.shared.attached = true) := by
  obtain ⟨_, hpaused, harmed⟩ := hp.asks h rfl
  obtain ⟨h₁, hpaused₁, harmed₁, _⟩ := still_run h hpaused harmed h₁
  obtain ⟨h₂, _, harmed₂, hattached⟩ := still_run h₁ hpaused₁ harmed₁ h₂
  refine ⟨?_, hattached⟩
  intro q op hq
  cases hop : works (.life op) with
  | false => rfl
  | true =>
    have hasks : c₂.shared.armed = some q := hq.asks h₂ hop
    rw [harmed₂] at hasks
    cases hasks

/-- After a cleanup that leaves no hook there is none, whatever else is started. -/
theorem stop_lasts_clean : ∃ c, Reached c ∧ About c 7 (.ctl .cleanup) ∧
    ∀ c₁ c₂, Still c c₁ → Still c₁ c₂ → c₁.shared.attached = false → c₂.shared.attached = false := by
  obtain ⟨c, hreached, hstop, _⟩ := stop_reached
  refine ⟨c, hreached, hstop, ?_⟩
  intro c₁ c₂ h₁ h₂ hclean
  have hattached := (stop_lasts hreached hstop h₁ h₂).2
  rw [hclean] at hattached
  simpa using hattached

end Nfqttl.Processes
