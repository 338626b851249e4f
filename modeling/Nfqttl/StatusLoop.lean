/-
The loop tells the truth about itself where it rests: what each part of a turn leaves of
the rules, the workers and the files, on the way from one rest to the next.
-/
import Nfqttl.Status

namespace Nfqttl.Daemon

open Effect

variable {s s' : Scene} {α : Type}

/-! ## The loop -/

/-- The settings are those of a `config.conf`, and the workers not too many. -/
structure Chosen (c : Setup) (workers : Nat) : Prop where
  loaded : ∃ text, c.config = Config.load text
  few : 1 ≤ workers ∧ workers ≤ 8

/-- The variables of the loop are those of the scene. -/
structure Loop.Holds (l : Loop) (c : Setup) (s : Scene) : Prop where
  chosen : Chosen c l.activeWorkers
  posted : s.Posted c l.activeWorkers
  staffed : s.Staffed c.config l.items
  numbered : l.items.map (·.queue) = Workers.queues l.items.length
  kernel : c.backend = .kernel → l.items = [] ∧ l.activeWorkers = 1
  links : l.links = s.found

/-- And without a chain of IPv4 rules there is nothing to take down that was not tried. -/
structure Loop.Agrees (l : Loop) (c : Setup) (s : Scene) : Prop extends l.Holds c s where
  bare : l.active4 = none → l.items = [] ∧ s.Bare

/-- Unless everything is to be looked at again, the files tell the truth about the links that `last` is of. -/
def Loop.Current (l : Loop) (c : Setup) (s : Scene) : Prop :=
  l.first = false → Classified s.found ∧
    ∃ links, Classified links ∧ l.last = links.signature ∧ s.Settled c l.activeWorkers links

/-- The turn is broken off, and the next one begins with a look at everything. -/
def Step.Recovers (c : Setup) : Step → Scene → Prop
  | .go _, _ => False
  | .again l, s => l.Agrees c s ∧ l.first = true

/-- Workers and rules are as they have to be for `links`, unless the turn is broken off. -/
def Step.Installs (c : Setup) (links : Links) : Step → Scene → Prop
  | .go l, s => l.Agrees c s ∧ l.links = links ∧ s.Settled c l.activeWorkers links
  | .again l, s => l.Agrees c s ∧ l.first = true

/-- And `last` is their signature. -/
def Step.Tells (c : Setup) : Step → Scene → Prop
  | .go l, s => l.Agrees c s ∧ Classified s.found ∧ l.last = s.found.signature ∧ s.Settled c l.activeWorkers s.found
  | .again l, s => l.Agrees c s ∧ l.first = true

variable {c : Setup} {l : Loop} {n : Nat} {links : Links}

theorem Scene.Posted.kept (h : s.Posted c n) (hk : s.Kept s') : s'.Posted c n where
  config := hk.config.trans h.config
  backend := (hk.files _ (by decide)).trans h.backend
  workers := (hk.files _ (by decide)).trans h.workers
  mode := (hk.files _ (by decide)).trans h.mode

theorem Scene.Posted.write (h : s.Posted c n) {name : String} (hname : name ∉ ["backend", "workers", "ipv6_mode"])
    (value : Option String) : (s.write name value).Posted c n where
  config := h.config
  backend := (s.write_of_ne (ne_of_mem_of_not_mem (by decide) hname) value).trans h.backend
  workers := (s.write_of_ne (ne_of_mem_of_not_mem (by decide) hname) value).trans h.workers
  mode := (s.write_of_ne (ne_of_mem_of_not_mem (by decide) hname) value).trans h.mode

theorem Loop.Holds.write (h : l.Holds c s) {name : String} (hname : name ∉ ["backend", "workers", "ipv6_mode"])
    (hpid : name.toList[7]?.any Char.isDigit = false) (value : Option String) : l.Holds c (s.write name value) :=
  ⟨h.chosen, h.posted.write hname value, h.staffed.write hpid, h.numbered, h.kernel, h.links⟩

/-- All but the rules is as it was. -/
def Scene.Apart (s s' : Scene) : Prop :=
  ∃ rules4 rules6 attached failed,
    s' = { s with rules4 := rules4, rules6 := rules6, attached := attached, failed := failed }

/-- The rules are not the variables' concern. -/
theorem Loop.Holds.rules (h : l.Holds c s) (hs : s.Apart s') : l.Holds c s' := by
  obtain ⟨rules4, rules6, attached, failed, rfl⟩ := hs
  exact ⟨h.chosen, ⟨h.posted.config, h.posted.backend, h.posted.workers, h.posted.mode⟩,
    ⟨h.staffed.hands, h.staffed.badged, h.staffed.args⟩, h.numbered, h.kernel, h.links⟩

/-- After a `cleanup` there are no rules, or it failed. -/
theorem swept {ok : Bool} (h : scene .cleanup s ok s') : s.Apart s' ∧ s'.Bare ∧ (ok = true → s'.attached = false) := by
  cases ok with
  | true =>
    obtain rfl : s' = s.clear := h
    exact ⟨⟨_, _, _, _, rfl⟩, fun hf => absurd hf Bool.false_ne_true, fun _ => rfl⟩
  | false =>
    obtain ⟨rules4, rules6, rfl, -⟩ : s.Torn s' := h
    exact ⟨⟨_, _, _, _, rfl⟩, fun _ => rfl, fun hf => absurd hf Bool.false_ne_true⟩

theorem backoff_one (config : Config) (failures : Nat) : (backoff config failures 1).2.1 = 1 := by
  unfold backoff
  dsimp only
  split <;> rfl

theorem backoff_few {config : Config} {failures workers : Nat} (h : 1 ≤ workers ∧ workers ≤ 8) :
    1 ≤ (backoff config failures workers).2.1 ∧ (backoff config failures workers).2.1 ≤ 8 := by
  unfold backoff
  dsimp only
  split
  · split
    · dsimp only
      omega
    · exact h
  · exact h

theorem takeDown_tells (h : l.Holds c s) (hbare : s.Bare) : Tells (fun l' s' => l'.Agrees c s') (takeDown c l) s := by
  unfold takeDown
  refine guards_bind.mpr ((stop_tells h.staffed.hands).post ?_)
  intro _ s₁ hstop
  obtain ⟨hkept, hnone⟩ := hstop
  have hone : c.backend = .kernel → (backoff c.config l.failures l.activeWorkers).2.1 = 1 := by
    intro hkernel
    rw [(h.kernel hkernel).2]
    exact backoff_one ..
  have hfew : 1 ≤ (backoff c.config l.failures l.activeWorkers).2.1 ∧
      (backoff c.config l.failures l.activeWorkers).2.1 ≤ 8 := backoff_few h.chosen.few
  generalize backoff c.config l.failures l.activeWorkers = r at hone hfew
  obtain ⟨failures, workers, delay⟩ := r
  change c.backend = .kernel → workers = 1 at hone
  have hcool : ∀ s₂ : Scene, s₂.Posted c workers → s₂.hands = [] → s₂.Bare → s₂.found = s.found →
      Tells (fun l' s' => l'.Agrees c s') (do
        coolDown (min delay 60 * 10)
        return { l with active4 := none, active6 := none, failures := failures, activeWorkers := workers, items := [] }) s₂ := by
    intro s₂ hposted hnone hbare hfound
    refine tells_past (coolDown_within silent_of_mild _) fun _ _ => ?_
    refine ⟨⟨⟨h.chosen.loaded, hfew⟩, hposted, .none hnone, rfl, fun hkernel => ⟨rfl, hone hkernel⟩, ?_⟩, fun _ => ⟨rfl, hbare⟩⟩
    exact h.links.trans hfound.symm
  dsimp only
  split
  · rename_i hne
    refine tells_write (tells_still rfl fun _ => ?_)
    have hposted := h.posted.kept hkept
    have hbackend : (c.backend == .kernel) = false := by
      rw [beq_eq_false_iff_ne]
      intro hkernel
      rw [hone hkernel, (h.kernel hkernel).2] at hne
      exact absurd hne (by decide)
    refine hcool _ ⟨hposted.config, ?_, ?_, ?_⟩ hnone (hkept.bare hbare) hkept.found
    · rw [Scene.write_of_ne _ (by decide)]
      exact hposted.backend
    · rw [Scene.write_self, hbackend]
      rfl
    · rw [Scene.write_of_ne _ (by decide)]
      exact hposted.mode
  · rename_i heq
    obtain rfl : workers = l.activeWorkers := by simpa using heq
    exact hcool s₁ (h.posted.kept hkept) hnone (hkept.bare hbare) hkept.found

theorem recoverFirst_tells {why : String} (h : l.Holds c s) : Tells (Step.Recovers c) (recoverFirst c l why) s := by
  have hdown : ∀ s' : Scene, l.Holds c s' → s'.Bare → Tells (Step.Recovers c) (do
      let l' ← takeDown c l
      return .again { l' with first := true }) s' := by
    intro s' h' hbare
    refine guards_bind.mpr ((takeDown_tells h' hbare).post fun l' s'' ha => ⟨?_, rfl⟩)
    exact ⟨⟨ha.chosen, ha.posted, ha.staffed, ha.numbered, ha.kernel, ha.links⟩, ha.bare⟩
  unfold recoverFirst recover
  refine tells_still rfl fun _ => tells_write (tells_write ?_)
  have h₁ : l.Holds c (s.write "last-recovery" (some why)) := h.write (by decide) (by decide) _
  have h₂ : l.Holds c ((s.write "last-recovery" (some why)).write "phase" (some "recovering")) :=
    h₁.write (by decide) (by decide) _
  refine tells_ask trivial fun ok s₃ hr => ?_
  obtain ⟨hapart, hbare, -⟩ := swept hr
  cases ok
  · exact tells_still rfl fun _ => hdown _ (h₂.rules hapart) hbare
  · exact hdown _ (h₂.rules hapart) hbare

/-- What `idle` leaves: the rules are removed, or that was tried. -/
structure Loop.Idled (l : Loop) (c : Setup) (s : Scene) (l' : Loop) (s' : Scene) : Prop where
  agrees : l'.Agrees c s'
  bare : s'.Bare
  items : l'.items = []
  found : s'.found = s.found

theorem detach_tells (h : l.Holds c s) : Tells (l.Idled c s) (detach l) s := by
  have hstop : ∀ (first : Bool) (s' : Scene), s.Apart s' → s'.Bare → Tells (l.Idled c s) (do
      Workers.stop .idle l.items
      return { l with first := first, active4 := none, active6 := none, items := [] }) s' := by
    intro first s' hapart hbare
    have hfound : s'.found = s.found := by
      obtain ⟨_, _, _, _, rfl⟩ := hapart
      rfl
    have hswept := h.rules hapart
    refine guards_bind.mpr ((stop_tells hswept.staffed.hands).post ?_)
    intro _ s₁ hstop
    obtain ⟨hkept, hnone⟩ := hstop
    have hkernel : c.backend = .kernel → ([] : List Worker) = [] ∧ l.activeWorkers = 1 := fun hk => ⟨rfl, (h.kernel hk).2⟩
    have hholds : Loop.Holds { l with first := first, active4 := none, active6 := none, items := [] } c s₁ :=
      ⟨h.chosen, hswept.posted.kept hkept, .none hnone, rfl, hkernel, hswept.links.trans hkept.found.symm⟩
    exact ⟨⟨hholds, fun _ => ⟨rfl, hkept.bare hbare⟩⟩, hkept.bare hbare, rfl, hkept.found.trans hfound⟩
  unfold detach
  refine tells_ask trivial fun cleaned s₁ hr => ?_
  obtain ⟨hapart, hbare, -⟩ := swept hr
  cases cleaned
  · exact tells_still rfl fun _ => hstop _ _ hapart hbare
  · exact hstop _ _ hapart hbare

theorem idle_tells (h : l.Agrees c s) : Tells (fun l' s' => l'.Agrees c s' ∧ s'.Idle s'.found ∧ s'.found = s.found) (idle l) s := by
  have hend : ∀ (l' : Loop) (s' : Scene), l.Idled c s l' s' →
      Tells (fun l' s' => l'.Agrees c s' ∧ s'.Idle s'.found ∧ s'.found = s.found) (do
        writeState "phase" "idle"
        writeState "interfaces" (interfaces l'.links)
        return l') s' := by
    intro l' s' h'
    refine tells_write (tells_write ?_)
    have h₁ : l'.Holds c (s'.write "phase" (some "idle")) := h'.agrees.toHolds.write (by decide) (by decide) _
    have h₂ : l'.Holds c ((s'.write "phase" (some "idle")).write "interfaces" (some (interfaces l'.links))) :=
      h₁.write (by decide) (by decide) _
    have hhands : s'.hands = [] := by
      rw [← List.map_eq_nil_iff, h'.agrees.staffed.hands, h'.items]
    refine ⟨⟨h₂, fun _ => ⟨h'.items, h'.bare⟩⟩, ⟨?_, ?_, h'.bare, hhands⟩, h'.found⟩
    · rw [Scene.write_of_ne _ (by decide), Scene.write_self]
    · rw [Scene.write_self]
      exact congrArg (fun links => some (interfaces links)) h₂.links
  unfold idle
  split
  · exact guards_bind.mpr ((detach_tells h.toHolds).post fun l' s' h' => hend l' s' h')
  · rename_i hnone
    have hactive : l.active4 = none := by
      cases h4 : l.active4 <;> simp_all
    obtain ⟨hitems, hbare⟩ := h.bare hactive
    exact hend l s ⟨h, hbare, hitems, rfl⟩

/-- The queues that have a worker where the rules are active. -/
def served (c : Setup) (workers : Nat) : List Nat := if c.backend == .kernel then [] else Workers.queues workers

theorem ensureWorkers_tells (h : l.Holds c s) :
    Tells (fun r s' => Loop.Holds { l with items := r.2 } c s' ∧
      (r.1 = true → r.2.map (·.queue) = served c l.activeWorkers ∧ ∀ h ∈ s'.hands, h.well = true)) (ensureWorkers c l) s := by
  unfold ensureWorkers
  cases hb : c.backend with
  | kernel =>
    have hitems := (h.kernel hb).1
    refine ⟨h, fun _ => ⟨?_, ?_⟩⟩
    · simp [hitems, served, hb]
    · intro x hx
      have hhands : s.hands = [] := by
        rw [← List.map_eq_nil_iff, h.staffed.hands, hitems]
      rw [hhands] at hx
      cases hx
  | nfqueue =>
    have hserved : served c l.activeWorkers = Workers.queues l.activeWorkers := by simp [served, hb]
    have hkernel : ∀ items : List Worker, c.backend = .kernel → items = [] ∧ l.activeWorkers = 1 := by
      intro items hk
      rw [hb] at hk
      cases hk
    have hnodup : (l.items.map (·.queue)).Nodup := h.numbered ▸ queues_nodup _
    refine guards_bind.mpr ((healthy_tells h.staffed.hands hnodup).post ?_)
    intro healthy s₁ hhealthy
    obtain ⟨hlook, hwell⟩ := hhealthy
    have hposted := h.posted.kept hlook.kept
    have hfound : l.links = s₁.found := h.links.trans hlook.kept.found.symm
    cases healthy
    · refine (start_tells (hlook.staffed h.staffed).hands).post ?_
      intro r s₂ hstart
      obtain ⟨ok, items⟩ := r
      obtain ⟨hbegun, hwell⟩ := hstart
      refine ⟨⟨h.chosen, hposted.kept hbegun.kept, hbegun.staffed, hbegun.numbered, hkernel items,
        hfound.trans hbegun.kept.found.symm⟩, fun hok => ⟨?_, hwell hok⟩⟩
      rw [hserved]
      exact hbegun.all hok
    · obtain ⟨hlength, hwell⟩ := hwell rfl
      refine ⟨⟨h.chosen, hposted, hlook.staffed h.staffed, h.numbered, hkernel l.items, hfound⟩, fun _ => ⟨?_, hwell⟩⟩
      rw [hserved, ← hlength]
      exact h.numbered

theorem Step.Recovers.installs {step : Step} (h : step.Recovers c s) : step.Installs c links s := by
  cases step with
  | go l => exact h.elim
  | again l => exact h

theorem Step.Recovers.step_tells {step : Step} (h : step.Recovers c s) : step.Tells c s := by
  cases step with
  | go l => exact h.elim
  | again l => exact h

/-- What an attempt to install the rules leaves. -/
structure Loop.Ruled (l : Loop) (c : Setup) (s : Scene) (r : Bool × Loop) (s' : Scene) : Prop where
  holds : r.2.Holds c s'
  links : r.2.links = l.links
  workers : r.2.activeWorkers = l.activeWorkers
  items : r.2.items = l.items
  files : s'.files = s.files
  hands : s'.hands = s.hands
  active : r.1 = true → r.2.active4.isSome = true
  rules4 : r.1 = true → s'.rules4 = some (l.links, c.kernel, l.activeWorkers, c.config.ttl)
  rules6 : r.1 = true → s'.rules6 = some (l.links, c.v6, c.config.ipv6Hl)

theorem Loop.Holds.queues (h : l.Holds c s) : s.hands.map (·.worker.queue) = l.items.map (·.queue) := by
  have hqueues : s.hands.map (·.worker.queue) = (s.hands.map (·.worker)).map (·.queue) := by
    rw [List.map_map]
    rfl
  rw [hqueues, h.staffed.hands]

theorem Loop.Holds.serves (h : l.Holds c s) (hserved : l.items.map (·.queue) = served c l.activeWorkers)
    (hwell : ∀ h ∈ s.hands, h.well = true) : s.Serves c.kernel l.activeWorkers c.config.ttl := by
  obtain ⟨text, htext⟩ := h.chosen.loaded
  refine ⟨⟨text, ?_, by rw [htext], ?_⟩, h.queues.trans hserved, h.chosen.few, hwell⟩
  · rw [h.posted.config, htext]
  · intro x hx
    rw [← htext]
    exact h.staffed.args x hx

theorem installRules_tells (h : l.Holds c s) (hserves : s.Serves c.kernel l.activeWorkers c.config.ttl) :
    Tells (l.Ruled c s) (installRules c l) s := by
  unfold installRules
  refine tells_ask hserves fun r s₁ hr => ?_
  obtain ⟨⟨fw, hyields⟩, rfl⟩ := hr
  have hinstalls := install4_installs.yields hyields
  obtain ⟨ok, active4⟩ := r
  have h₁ : l.Holds c (s.try4 (if ok then some (l.links, c.kernel, l.activeWorkers, c.config.ttl) else none)) :=
    h.rules ⟨_, _, _, _, rfl⟩
  have hno : ∀ {p : Prop}, false = true → p := fun hf => absurd hf Bool.false_ne_true
  cases ok
  case false =>
    exact ⟨⟨h₁.chosen, h₁.posted, h₁.staffed, h₁.numbered, h₁.kernel, h₁.links⟩, rfl, rfl, rfl, rfl, rfl, hno, hno, hno⟩
  have hsome : active4.isSome = true := by
    rcases hinstalls with ⟨hfalse, _⟩ | ⟨_, hsome⟩
    · cases hfalse
    · exact hsome
  refine tells_ask trivial fun r s₂ hr => ?_
  obtain rfl := hr
  obtain ⟨ok, active6⟩ := r
  have h₂ : l.Holds c ((s.try4 (some (l.links, c.kernel, l.activeWorkers, c.config.ttl))).try6
      (if ok then some (l.links, c.v6, c.config.ipv6Hl) else none)) := h₁.rules ⟨_, _, _, _, rfl⟩
  refine ⟨⟨h₂.chosen, h₂.posted, h₂.staffed, h₂.numbered, h₂.kernel, h₂.links⟩, rfl, rfl, rfl, rfl, rfl, fun _ => hsome,
    fun _ => rfl, ?_⟩
  intro hok
  exact if_pos hok

theorem install_tells (h : l.Holds c s) (hactive : l.links.active = true) :
    Tells (Step.Installs c l.links) (install c l) s := by
  unfold install
  refine tells_write (guards_bind.mpr ((ensureWorkers_tells (h.write (by decide) (by decide) _)).post ?_))
  intro r s₂ hensure
  obtain ⟨ok, items⟩ := r
  obtain ⟨h₂, hwell⟩ := hensure
  cases ok
  case false => exact (recoverFirst_tells h₂).post fun _ _ hr => hr.installs
  obtain ⟨hserved, hwell⟩ := hwell rfl
  refine guards_bind.mpr ((installRules_tells h₂ (h₂.serves hserved hwell)).post ?_)
  intro r s₃ h₃
  obtain ⟨ok, l'⟩ := r
  cases ok
  case false => exact (recoverFirst_tells h₃.holds).post fun _ _ hr => hr.installs
  have hl' : l'.links = l.links := h₃.links
  refine tells_write (tells_write (tells_still rfl fun _ => ?_))
  have h₄ : l'.Holds c (s₃.write "interfaces" (some (interfaces l'.links))) := h₃.holds.write (by decide) (by decide) _
  have h₅ : l'.Holds c ((s₃.write "interfaces" (some (interfaces l'.links))).write "phase" (some "active")) :=
    h₄.write (by decide) (by decide) _
  refine ⟨⟨h₅, fun hnone => ?_⟩, hl', .inl ⟨hactive, ?_, ?_, ?_, ?_, ?_, ?_, h₅.staffed.badged⟩⟩
  · have hsome : l'.active4.isSome = true := h₃.active rfl
    rw [hnone] at hsome
    cases hsome
  · exact Scene.write_self ..
  · rw [Scene.write_of_ne _ (by decide), Scene.write_self, hl']
  · have hworkers : l'.activeWorkers = l.activeWorkers := h₃.workers
    rw [hworkers]
    exact h₃.rules4 rfl
  · exact h₃.rules6 rfl
  · have hworkers : l'.activeWorkers = l.activeWorkers := h₃.workers
    have hitems : l'.items = items := h₃.items
    change s₃.hands.map (·.worker.queue) = served c l'.activeWorkers
    rw [h₃.holds.queues, hworkers, hitems]
    exact hserved
  · intro x hx
    exact hwell x (h₃.hands ▸ hx)

theorem settle_tells {step : Step} (h : step.Installs c links s) (hc : Classified links) :
    Tells (Step.Tells c) (settle links.signature step) s := by
  cases step with
  | again l => exact h
  | go l =>
    obtain ⟨hagrees, rfl, hsettled⟩ := h
    refine tells_still rfl fun _ => ?_
    rw [hagrees.links] at hc hsettled
    have hholds : Loop.Holds { l with last := l.links.signature, queueProgress := .empty, lastDrops := "" } c s :=
      ⟨hagrees.chosen, hagrees.posted, hagrees.staffed, hagrees.numbered, hagrees.kernel, hagrees.links⟩
    exact ⟨⟨hholds, hagrees.bare⟩, hc, congrArg Links.signature hagrees.links, hsettled⟩

theorem update_tells {whole : Bool} (h : l.Agrees c s) (hc : Classified s.found)
    (hcur : l.first = false → whole = true →
      ∃ links, Classified links ∧ l.last = links.signature ∧ s.Settled c l.activeWorkers links) :
    Tells (Step.Tells c) (update c l whole) s := by
  have hc' : Classified l.links := h.links ▸ hc
  have hfirst : Loop.Agrees { l with first := false } c s :=
    ⟨⟨h.chosen, h.posted, h.staffed, h.numbered, h.kernel, h.links⟩, h.bare⟩
  unfold update
  split
  · dsimp only
    split
    · rename_i hactive
      refine guards_bind.mpr ((install_tells hfirst.toHolds hactive).post ?_)
      exact fun step s' h' => settle_tells h' hc'
    · rename_i hactive
      refine guards_bind.mpr ((idle_tells hfirst).post ?_)
      intro l' s' h'
      obtain ⟨hagrees, hidle, hfound⟩ := h'
      have hl : l'.links = l.links := by rw [hagrees.links, hfound, h.links]
      have hnot : l.links.active = false := Bool.eq_false_iff.mpr hactive
      have hinstalls : Step.Installs c l'.links (.go l') s' :=
        ⟨hagrees, rfl, .inr ⟨hl.symm ▸ hnot, hagrees.links.symm ▸ hidle⟩⟩
      exact settle_tells hinstalls (hl.symm ▸ hc')
  · rename_i hcond
    obtain ⟨hfirst, hlast, hwhole⟩ : l.first = false ∧ l.links.signature = l.last ∧ whole = true := by
      simpa [and_assoc] using hcond
    obtain ⟨links, hclass, hsig, hsettled⟩ := hcur hfirst hwhole
    have hsame : s.found = links := by
      refine (hc.sound.signature_inj hclass.sound).mp ?_
      rw [← hsig, ← hlast, h.links]
    rw [← hsame] at hsettled
    refine ⟨h, hc, ?_, hsettled⟩
    rw [← hlast, h.links]

theorem Scene.Settled.well (h : s.Settled c n links) : ∀ x ∈ s.hands, x.well = true := by
  obtain ⟨_, h⟩ | ⟨_, h⟩ := h
  · exact h.well
  · intro x hx
    rw [h.hands] at hx
    cases hx

theorem Scene.Settled.congr (h : s.Settled c n links) (hphase : s'.files "phase" = s.files "phase")
    (hinterfaces : s'.files "interfaces" = s.files "interfaces") (h4 : s'.rules4 = s.rules4) (h6 : s'.rules6 = s.rules6)
    (hbare : s.Bare → s'.Bare) (hhands : s'.hands.map (·.worker) = s.hands.map (·.worker)) (hwell : ∀ x ∈ s'.hands, x.well = true)
    (hbadged : s'.Badged) : s'.Settled c n links := by
  obtain ⟨hactive, h⟩ | ⟨hactive, h⟩ := h
  · refine .inl ⟨hactive, hphase.trans h.phase, hinterfaces.trans h.interfaces, h4.trans h.rules4, h6.trans h.rules6, ?_, hwell,
      hbadged⟩
    have hqueues : ∀ hands : List Hand, hands.map (·.worker.queue) = (hands.map (·.worker)).map (·.queue) := by
      intro hands
      rw [List.map_map]
      rfl
    rw [hqueues, hhands, ← hqueues]
    exact h.queues
  · refine .inr ⟨hactive, hphase.trans h.phase, hinterfaces.trans h.interfaces, hbare h.bare, ?_⟩
    rw [h.hands] at hhands
    exact List.map_eq_nil_iff.mp hhands

theorem rescan_tells (h : l.Agrees c s) (hcur : l.Current c s) :
    Tells (fun l' s' => l'.Agrees c s' ∧ l'.Current c s' ∧ Classified s'.found) (rescan c l) s := by
  have hfind : Tells (fun l' s' => l'.Agrees c s' ∧ l'.Current c s' ∧ Classified s'.found) (do
      let links ← ask .discover
      ask (.reset .scan)
      return { l with links := links }) s := by
    refine tells_ask trivial fun links s₁ hr => ?_
    obtain ⟨hclass, rfl⟩ := hr
    refine tells_still rfl fun _ => ?_
    have hposted : Scene.Posted { s with found := links } c l.activeWorkers :=
      ⟨h.posted.config, h.posted.backend, h.posted.workers, h.posted.mode⟩
    refine ⟨⟨⟨h.chosen, hposted, ⟨h.staffed.hands, h.staffed.badged, h.staffed.args⟩, h.numbered, h.kernel, rfl⟩, h.bare⟩, ?_,
      hclass⟩
    intro hfirst
    obtain ⟨_, links', hclass', hsig, hsettled⟩ := hcur hfirst
    exact ⟨hclass, links', hclass', hsig, hsettled.congr rfl rfl rfl rfl id rfl hsettled.well h.staffed.badged⟩
  unfold rescan
  cases hb : l.first || l.changed with
  | true => exact hfind
  | false =>
    refine tells_still rfl fun due => ?_
    cases due
    · exact ⟨h, hcur, (hcur (Bool.or_eq_false_iff.mp hb).1).1⟩
    · exact hfind

/-- Rules may have been found damaged. -/
def Scene.Worn (s s' : Scene) : Prop := ∃ rules4 rules6, s' = { s with rules4 := rules4, rules6 := rules6 }

theorem Loop.Agrees.worn (h : l.Agrees c s) (hw : s.Worn s') : l.Agrees c s' := by
  obtain ⟨rules4, rules6, rfl⟩ := hw
  exact ⟨h.toHolds.rules ⟨_, _, _, _, rfl⟩, h.bare⟩

theorem intact_tells : Tells (fun whole s' => s.Worn s' ∧ (whole = true → s' = s)) (intact c l) s := by
  have hsame : s.Worn s := ⟨s.rules4, s.rules6, rfl⟩
  have hdamage : ∀ v6, s.Worn (s.damage v6) := by
    intro v6
    cases v6
    · exact ⟨none, s.rules6, rfl⟩
    · exact ⟨s.rules4, none, rfl⟩
  unfold intact
  refine tells_past (orElapsed_within silent_of_mild (by decide)) fun due _ => ?_
  split
  case isFalse => exact ⟨hsame, fun _ => rfl⟩
  refine tells_still rfl fun _ => tells_ask trivial fun ok s₁ hr => ?_
  cases ok
  case false =>
    obtain rfl : s₁ = s.damage false := hr
    exact ⟨hdamage false, fun hf => absurd hf Bool.false_ne_true⟩
  obtain rfl : s₁ = s := hr
  change Tells _ (if c.v6 == .normalize || c.v6 == .block then
    ask (.rulesOk true l.active6 l.links true l.activeWorkers c.config.ipv6Hl c.v6) else pure true) _
  split
  · refine ⟨trivial, fun ok s₂ hr => ?_⟩
    cases ok
    · obtain rfl : s₂ = s₁.damage true := hr
      exact ⟨hdamage true, fun hf => absurd hf Bool.false_ne_true⟩
    · obtain rfl : s₂ = s₁ := hr
      exact ⟨hsame, fun _ => rfl⟩
  · exact ⟨hsame, fun _ => rfl⟩

/-- The monitor's report changes no other file than `queue.stats`. -/
theorem report_tells {qs : QStats} : Tells (fun r s' => ∃ text progress warn, s' = s.write "queue.stats" (some text) ∧
    r.1 = { l with queueProgress := progress, warnBacklog := warn }) (report c l qs) s := by
  have hend : ∀ (progress : Progress) (warn stalled : Nat) (text text' : String),
      Tells (fun (r : Loop × Nat) s' => ∃ text progress warn, s' = s.write "queue.stats" (some text) ∧
        r.1 = { l with queueProgress := progress, warnBacklog := warn }) (do
        if warn % 20 = 1 then log text'
        writeState "queue.stats" text
        return ({ l with queueProgress := progress, warnBacklog := warn }, stalled)) s := by
    intro progress warn stalled text text'
    split
    · exact tells_still rfl fun _ => ⟨trivial, fun _ s₂ hr => ⟨text, progress, warn, hr, rfl⟩⟩
    · exact ⟨trivial, fun _ s₂ hr => ⟨text, progress, warn, hr, rfl⟩⟩
  unfold report
  dsimp only
  split
  · exact tells_still rfl fun _ => hend _ _ _ _ _
  · exact hend _ _ _ _ _

theorem Loop.Holds.looked (h : l.Holds c s) (hlook : s.Looked s') : l.Holds c s' :=
  ⟨h.chosen, h.posted.kept hlook.kept, hlook.staffed h.staffed, h.numbered, h.kernel, h.links.trans hlook.kept.found.symm⟩

theorem sample_tells (h : (Step.go l).Tells c s) : Tells (Step.Tells c) (sample c l) s := by
  obtain ⟨hagrees, hclass, hlast, hsettled⟩ := h
  unfold sample
  refine tells_still rfl fun _ => tells_still rfl fun qs => ?_
  have hnodup : (l.items.map (·.queue)).Nodup := hagrees.numbered ▸ queues_nodup _
  refine guards_bind.mpr ((healthy_tells hagrees.staffed.hands hnodup).post ?_)
  intro healthy s₁ hhealthy
  obtain ⟨hlook, hwell⟩ := hhealthy
  have hholds := hagrees.toHolds.looked hlook
  dsimp only
  split
  · exact (recoverFirst_tells hholds).post fun _ _ hr => hr.step_tells
  · rename_i hcond
    have hhealthy : healthy = true := by
      cases healthy <;> simp_all
    refine guards_bind.mpr (report_tells.post ?_)
    intro r s₂ hreport
    obtain ⟨l', stalled⟩ := r
    obtain ⟨text, progress, warn, rfl, rfl⟩ := hreport
    have hholds' : l.Holds c (s₁.write "queue.stats" (some text)) := hholds.write (by decide) (by decide) _
    dsimp only
    split
    · refine (recoverFirst_tells ?_).post fun _ _ hr => hr.step_tells
      exact ⟨hholds'.chosen, hholds'.posted, hholds'.staffed, hholds'.numbered, hholds'.kernel, hholds'.links⟩
    · have hfound : s₁.found = s.found := hlook.kept.found
      refine ⟨⟨⟨hholds'.chosen, hholds'.posted, hholds'.staffed, hholds'.numbered, hholds'.kernel, hholds'.links⟩,
        fun hnone => ?_⟩, ?_, ?_, ?_⟩
      · obtain ⟨hitems, hbare⟩ := hagrees.bare hnone
        exact ⟨hitems, hlook.kept.bare hbare⟩
      · exact hfound.symm ▸ hclass
      · exact hlast.trans (congrArg Links.signature hfound.symm)
      · change Scene.Settled _ c l.activeWorkers s₁.found
        rw [hfound]
        refine hsettled.congr ?_ ?_ hlook.kept.rules4 hlook.kept.rules6 hlook.kept.bare hlook.hands (hwell hhealthy).2
          hholds'.staffed.badged
        · exact (Scene.write_of_ne _ (by decide) _).trans (hlook.kept.files _ (by decide))
        · exact (Scene.write_of_ne _ (by decide) _).trans (hlook.kept.files _ (by decide))

theorem monitor_tells (h : (Step.go l).Tells c s) : Tells (Step.Tells c) (monitor c l) s := by
  unfold monitor
  split
  case isFalse => exact h
  refine tells_still rfl fun due => ?_
  cases due
  · exact h
  · exact sample_tells h

theorem rest_tells (h : (Step.go l).Tells c s) :
    Tells (fun l' s' => l'.Agrees c s' ∧ l'.Current c s') (rest c l) s := by
  obtain ⟨hagrees, hclass, hlast, hsettled⟩ := h
  -- Here the loop rests.
  refine tells_ask ⟨c, l.activeWorkers, hagrees.posted, hsettled⟩ fun stable s₁ hr => ?_
  obtain rfl : s₁ = s := hr
  refine tells_past (housekeep_within silent_of_mild) fun _ _ => tells_past (waitNext_within silent_of_mild) fun changed _ => ?_
  refine ⟨⟨⟨hagrees.chosen, hagrees.posted, hagrees.staffed, hagrees.numbered, hagrees.kernel, hagrees.links⟩, hagrees.bare⟩, ?_⟩
  exact fun _ => ⟨hclass, s₁.found, hclass, hlast, hsettled⟩

/-- How a turn ends: another one may begin, or the loop is left as it was. -/
def Loop.Turned (l : Loop) (c : Setup) : Option Loop → Scene → Prop
  | some l', s => l'.Agrees c s ∧ l'.Current c s
  | none, s => l.Agrees c s

theorem turn_tells (h : l.Agrees c s) (hcur : l.Current c s) : Tells (l.Turned c) (turn c l) s := by
  have hagain : ∀ (l' : Loop) (s' : Scene), l'.Agrees c s' ∧ l'.first = true → l.Turned c (some l') s' :=
    fun l' s' h' => ⟨h'.1, fun hfirst => absurd (h'.2.symm.trans hfirst) (by decide)⟩
  unfold turn
  refine tells_still rfl fun stopping => ?_
  cases stopping
  case true => exact h
  refine tells_still rfl fun halted => ?_
  cases halted
  case true => exact tells_still rfl fun _ => h
  refine guards_bind.mpr ((rescan_tells h hcur).post ?_)
  intro l₁ s₁ hrescan
  obtain ⟨h₁, hcur₁, hclass⟩ := hrescan
  refine tells_past (syncQos_within silent_of_mild) fun _ _ => guards_bind.mpr (intact_tells.post ?_)
  intro whole s₂ hintact
  obtain ⟨hworn, hwhole⟩ := hintact
  have hfound : s₂.found = s₁.found := by
    obtain ⟨rules4, rules6, rfl⟩ := hworn
    rfl
  refine guards_bind.mpr ((update_tells (h₁.worn hworn) (hfound ▸ hclass) ?_).post ?_)
  · intro hfirst hok
    rw [hwhole hok]
    exact (hcur₁ hfirst).2
  intro step s₃ h₂
  cases step with
  | again l₂ => exact hagain l₂ s₃ h₂
  | go l₂ =>
    refine guards_bind.mpr ((monitor_tells h₂).post ?_)
    intro step s₄ h₃
    cases step with
    | again l₃ => exact hagain l₃ s₄ h₃
    | go l₃ => exact guards_bind.mpr ((rest_tells h₃).post fun l₄ s₅ h₄ => h₄)

/-- No worker is left, and no rules, unless the last `cleanup` failed. -/
structure Scene.Down (s : Scene) : Prop where
  bare : s.Bare
  hands : s.hands = []

theorem shutdown_tells (h : l.Agrees c s) : Tells (fun cleaned s' => s'.Down ∧
    (cleaned = true → s'.files "phase" = some "stopped" ∧ s'.attached = false)) (shutdown l) s := by
  unfold shutdown
  refine tells_ask trivial fun cleaned s₁ hr => ?_
  obtain ⟨hapart, hbare, hclean⟩ := swept hr
  refine guards_bind.mpr ((stop_tells (h.toHolds.rules hapart).staffed.hands).post ?_)
  intro _ s₂ hstop
  obtain ⟨hkept, hnone⟩ := hstop
  refine tells_still rfl fun _ => tells_ask trivial fun _ s₃ hr => ?_
  obtain rfl : s₃ = s₂.write "queue.stats" none := hr
  refine tells_write ?_
  have hgone : ((s₂.write "queue.stats" none).write "phase"
      (some (if cleaned then "stopped" else "cleanup-error"))).hands.map (·.worker) = [] := List.map_eq_nil_iff.mpr hnone
  refine guards_bind.mpr ((stop_tells hgone).post ?_)
  intro _ s₃ hdrop
  obtain ⟨hkept', hnone'⟩ := hdrop
  refine ⟨⟨hkept'.bare (hkept.bare hbare), hnone'⟩, fun hcleaned => ⟨?_, ?_⟩⟩
  · rw [hkept'.files _ (by decide), Scene.write_self, if_pos hcleaned]
  · exact hkept'.attached.trans (hkept.attached.trans (hclean hcleaned))

end Nfqttl.Daemon
