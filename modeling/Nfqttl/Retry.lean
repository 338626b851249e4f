/-
A failed cleanup is not retried. The loop says it will ("cleanup failed; retrying"), and
looks at everything again in the next turn, but with the flags of the active chains
reset there is nothing left for that turn to clean up.
-/
import Nfqttl.DaemonMachine

namespace Nfqttl.Daemon

open Effect

/-- A turn without interfaces that starts with a failed cleanup pending cleans up again. -/
def Retries (ts : List Turn) : Prop :=
  ∀ τ ∈ ts, pending τ.t = true → τ.after.links.active = false → ∃ ok, .cleanup ok ∈ τ.t'.drop τ.t.length

/-- A turn that starts with a failed cleanup pending finds interfaces. -/
def FindsLinks (ts : List Turn) : Prop := ∀ τ ∈ ts, pending τ.t = true → τ.after.links.active = true

/-- The flags of the active chains are reset. -/
def Loop.Cleared (l : Loop) : Prop := l.active4 = none ∧ l.active6 = none

/-- The flags say what the trace does: `active4` is set while rules are attached, and none is
while a failed cleanup is pending. -/
structure Loop.InStep (l : Loop) (t : Trace) : Prop where
  hooked : hooked t = l.active4.isSome
  cleared : pending t = true → l.Cleared

theorem Loop.InStep.congr {l l' : Loop} {t : Trace} (h : l.InStep t) (h4 : l'.active4 = l.active4)
    (h6 : l'.active6 = l.active6) : l'.InStep t :=
  ⟨h4 ▸ h.hooked, fun hp => ⟨h4 ▸ (h.cleared hp).1, h6 ▸ (h.cleared hp).2⟩⟩

/-- After a `cleanup` and whatever keeps to stops, with the flags reset. -/
theorem Loop.Cleared.inStep {l : Loop} {t : Trace} (h : l.Cleared) (hh : Daemon.hooked t = false) : l.InStep t :=
  ⟨by rw [hh, h.1]; rfl, fun _ => h⟩

/-! ## What leaves the flags alone -/

/-- Any operation that attaches or detaches no rules. -/
def neutral : DaemonOp → Bool
  | .cleanup | .install4 .. => false
  | _ => true

theorem neutral_of_calm (op : DaemonOp) (h : calm op = true) : neutral op = true := by
  have hquiet := quiet_of_calm op h
  cases op <;> first | rfl | cases hquiet

/-- Neither `hooked` nor `pending` changed. -/
def Alike (t t' : Trace) : Prop := Daemon.hooked t' = Daemon.hooked t ∧ pending t' = pending t

theorem Alike.neutral {op : DaemonOp} {t₀ t t' : Trace} {a : DaemonSig.Ans op} (hop : neutral op = true)
    (h : Alike t₀ t) (hl : logged op t a t') : Alike t₀ t' := by
  rcases logged_cases hl with rfl | ⟨rfl, -⟩ | ⟨hi, -⟩ | ⟨site, pid, running, -, rfl⟩
  · exact h
  · cases hop
  · cases op <;> simp_all [installs, Daemon.neutral]
  · exact ⟨hooked_stopped.trans h.1, pending_stopped.trans h.2⟩

/-! ## The parts of a turn -/

/-- Every answer of `p` comes with `Q`. -/
abbrev After {α : Type} (Q : α → Trace → Prop) (p : DaemonProg α) (t : Trace) : Prop :=
  Keeps logged (fun _ => True) Q p t

theorem after_bind {α β : Type} {Q : α → Trace → Prop} {p : DaemonProg β} {f : β → DaemonProg α} {t : Trace}
    (h : After (fun b t' => After Q (f b) t') p t) : After Q (p >>= f) t := keeps_bind.mpr h

theorem after_quiet {α : Type} {Q : α → Prop} {p : DaemonProg α} (h : Within (quiet · = true) Q p) (t : Trace) :
    After (fun a t' => t' = t ∧ Q a) p t := by
  refine (h.keeps (R := logged) (I := (· = t)) (fun op s a s' hop hs hl => ?_) rfl).mono (fun _ _ => trivial)
    fun _ _ _ h => h
  rw [hl.1, events_of_quiet hop a, List.append_nil, hs]

theorem after_neutral {α : Type} {Q : α → Prop} {p : DaemonProg α} (h : Within (neutral · = true) Q p) (t : Trace) :
    After (fun a t' => Alike t t' ∧ Q a) p t :=
  (h.keeps (R := logged) (I := Alike t) (fun _ _ _ _ hop hs hl => hs.neutral hop hl) ⟨rfl, rfl⟩).mono
    (fun _ _ => trivial) fun _ _ _ h => h

theorem after_ask {α : Type} {Q : α → Trace → Prop} {op : DaemonOp} {f : DaemonSig.Ans op → DaemonProg α} {t : Trace}
    (hop : quiet op = true) (h : ∀ a, After Q (f a) t) : After Q (ask op >>= f) t := by
  refine ⟨trivial, fun a t' hl => ?_⟩
  obtain ⟨rfl, -⟩ := hl
  rw [events_of_quiet hop a, List.append_nil]
  exact h a

variable {c : Setup} {l : Loop} {t : Trace}

theorem recover_inStep {why : String} :
    After (fun l' t' => l'.InStep t' ∧ l'.links = l.links) (recover c l why) t := by
  have hdown : ∀ ok t, After (fun l' t' => l'.InStep t' ∧ l'.links = l.links) (takeDown c l) (t ++ [.cleanup ok]) := by
    intro ok t
    refine (after_neutral (takeDown_within neutral_of_calm fun _ => rfl) _).post fun l' t' _ ⟨ha, h4, h6, _, hl⟩ => ?_
    exact ⟨Loop.Cleared.inStep ⟨h4, h6⟩ (ha.1.trans hooked_cleanup), hl⟩
  unfold recover
  refine after_ask rfl fun _ => after_ask rfl fun _ => after_ask rfl fun _ => ?_
  refine after_bind ⟨trivial, fun ok t' hl => ⟨trivial, ?_⟩⟩
  obtain ⟨rfl, -⟩ := hl
  cases ok
  · exact after_ask rfl fun _ => hdown false t
  · exact hdown true t

/-- The variables a part of the turn ends with. -/
def Step.loop : Step → Loop
  | .go l => l
  | .again l => l

theorem recoverFirst_inStep {why : String} :
    After (fun step t' => step.loop.InStep t' ∧ step.loop.links = l.links) (recoverFirst c l why) t :=
  after_bind (recover_inStep.post fun _ _ _ ⟨h, hl⟩ => ⟨trivial, h.congr rfl rfl, hl⟩)

theorem detach_inStep : After (fun l' t' => l'.InStep t' ∧ l'.links = l.links) (detach l) t := by
  have hstop : ∀ ok first t, After (fun l' t' => l'.InStep t' ∧ l'.links = l.links) (do
      Workers.stop .idle l.items
      return { l with first := first, active4 := none, active6 := none, items := [] }) (t ++ [.cleanup ok]) := by
    intro ok first t
    refine after_bind ((after_neutral (stop_within neutral_of_calm l.items fun _ _ => rfl) _).post
      fun _ t' _ ⟨ha, _⟩ => ⟨trivial, ?_, rfl⟩)
    exact Loop.Cleared.inStep ⟨rfl, rfl⟩ (ha.1.trans hooked_cleanup)
  unfold detach
  refine after_bind ⟨trivial, fun ok t' hl => ⟨trivial, ?_⟩⟩
  obtain ⟨rfl, -⟩ := hl
  cases ok
  · exact after_ask rfl fun _ => hstop false _ t
  · exact hstop true _ t

/-- With the flags reset `idle` does nothing that leaves a trace. -/
theorem idle_inStep (h : l.InStep t) :
    After (fun l' t' => l'.InStep t' ∧ l'.links = l.links ∧ (l.Cleared → t' = t ∧ l'.Cleared)) (idle l) t := by
  unfold idle
  split
  · next hset =>
    refine after_bind (detach_inStep.post fun l' t' _ ⟨h', hl⟩ => ?_)
    refine after_ask rfl fun _ => after_ask rfl fun _ => ⟨trivial, h', hl, fun hc => ?_⟩
    simp [hc.1, hc.2] at hset
  · exact after_ask rfl fun _ => after_ask rfl fun _ => ⟨trivial, h, rfl, fun hc => ⟨rfl, hc⟩⟩

theorem installRules_inStep :
    After (fun r t' => (r.1 = true → r.2.InStep t') ∧ r.2.links = l.links) (installRules c l) t := by
  unfold installRules
  refine after_bind ⟨trivial, fun r t' hl => ⟨trivial, ?_⟩⟩
  obtain ⟨ok, active4⟩ := r
  obtain ⟨rfl, hinst⟩ := hl
  cases ok
  · exact ⟨trivial, fun hok => absurd hok (by simp), rfl⟩
  · have hsome : active4.isSome = true := hinst.elim (fun hno => absurd hno.1 (by simp)) And.right
    refine after_ask rfl fun r => ⟨trivial, fun _ => ⟨?_, fun hp => ?_⟩, rfl⟩
    · exact hooked_installed.trans hsome.symm
    · exact absurd hp (by simp [events])

theorem install_inStep :
    After (fun step t' => step.loop.InStep t' ∧ step.loop.links = l.links) (install c l) t := by
  unfold install
  refine after_ask rfl fun _ => after_bind
    ((after_neutral (ensureWorkers_within neutral_of_calm (fun _ => rfl) fun _ _ => rfl) t).post fun r _ _ _ => ?_)
  obtain ⟨ok, items⟩ := r
  cases ok
  case false => exact recoverFirst_inStep (l := { l with items := items })
  refine after_bind (installRules_inStep.post fun r t' _ ⟨hok, hl⟩ => ?_)
  obtain ⟨ok, l'⟩ := r
  cases ok
  case false => exact recoverFirst_inStep.post fun _ _ _ ⟨hs, hl'⟩ => ⟨hs, hl'.trans hl⟩
  exact after_ask rfl fun _ => after_ask rfl fun _ => after_ask rfl fun _ => ⟨trivial, hok rfl, hl⟩

theorem settle_inStep {sig : String} {step : Step} (h : step.loop.InStep t) :
    After (fun step' t' => t' = t ∧ step'.loop.InStep t ∧ step'.loop.links = step.loop.links ∧
      (∀ l, step = .go l → l.Cleared → ∃ l', step' = .go l' ∧ l'.Cleared)) (settle sig step) t := by
  cases step with
  | go l =>
    refine after_ask rfl fun _ => ⟨trivial, rfl, h.congr rfl rfl, rfl, fun l₁ heq hc => ⟨_, rfl, ?_⟩⟩
    cases heq
    exact hc
  | again l => exact ⟨trivial, rfl, h, rfl, fun l₁ heq => by cases heq⟩

/-- With the flags reset and no interfaces the update leaves no trace. -/
theorem update_inStep {whole : Bool} (h : l.InStep t) :
    After (fun step t' => step.loop.InStep t' ∧ step.loop.links = l.links ∧
      (l.Cleared → l.links.active = false → t' = t ∧ ∃ l', step = .go l' ∧ l'.Cleared)) (update c l whole) t := by
  unfold update
  split
  case isFalse => exact ⟨trivial, h, rfl, fun hc _ => ⟨rfl, l, rfl, hc⟩⟩
  have h₁ : ({ l with first := false } : Loop).InStep t := h.congr rfl rfl
  dsimp only
  split
  · next hactive =>
    refine after_bind ((install_inStep (l := { l with first := false })).post fun step t' _ ⟨hs, hl⟩ => ?_)
    refine (settle_inStep hs).post fun step' t'' _ ⟨ht, hs', hl', _⟩ => ⟨ht ▸ hs', hl'.trans hl, fun _ hno => ?_⟩
    rw [hactive] at hno
    cases hno
  · refine after_bind ((idle_inStep h₁).post fun l' t' _ ⟨hs, hl, hcl⟩ => ?_)
    refine (settle_inStep (show (Step.go l').loop.InStep t' from hs)).post fun step' t'' _ ⟨ht, hs', hl', hgo⟩ =>
      ⟨ht ▸ hs', hl'.trans hl, fun hc _ => ?_⟩
    obtain ⟨ht', hc'⟩ := hcl hc
    exact ⟨ht.trans ht', hgo l' rfl hc'⟩

theorem sample_inStep (h : l.InStep t) :
    After (fun step t' => step.loop.InStep t' ∧ step.loop.links = l.links) (sample c l) t := by
  unfold sample
  refine after_ask rfl fun _ => after_ask rfl fun qs => after_bind
    ((after_quiet (healthy_within quiet_of_calm _ _) t).post fun healthy t' _ ⟨ht, _⟩ => ?_)
  subst ht
  split
  · exact recoverFirst_inStep
  refine after_bind ((after_quiet (report_within (mildly quiet_of_calm) fun _ => rfl) t').post fun r t'' _ ⟨ht, hr⟩ => ?_)
  obtain ⟨l', stalled⟩ := r
  obtain ⟨progress, warn, rfl⟩ := hr
  subst ht
  dsimp only
  split
  · exact recoverFirst_inStep (l := { l with queueProgress := progress, warnBacklog := warn })
  · exact ⟨trivial, h.congr rfl rfl, rfl⟩

theorem monitor_inStep (h : l.InStep t) :
    After (fun step t' => step.loop.InStep t' ∧ step.loop.links = l.links ∧ (l.Cleared → t' = t)) (monitor c l) t := by
  unfold monitor
  split
  case isFalse => exact ⟨trivial, h, rfl, fun _ => rfl⟩
  next hset =>
  refine after_ask rfl ?_
  intro due
  cases due
  · exact ⟨trivial, h, rfl, fun _ => rfl⟩
  · refine (sample_inStep h).post fun _ _ _ ⟨hs, hl⟩ => ⟨hs, hl, fun hc => ?_⟩
    simp [hc.1] at hset

/-- A turn keeps the flags in step. Without interfaces and with the flags reset it leaves
no trace, whatever is pending. -/
theorem turn_inStep (h : l.InStep t) :
    After (fun r t' => ∀ l', r = some l' → l'.InStep t' ∧ (l.Cleared → l'.links.active = false → t' = t))
      (turn c l) t := by
  unfold turn
  refine after_ask rfl ?_
  intro stopping
  cases stopping
  case true => exact ⟨trivial, fun l' heq => by cases heq⟩
  refine after_ask rfl ?_
  intro halted
  cases halted
  case true => exact after_ask rfl fun _ => ⟨trivial, fun l' heq => by cases heq⟩
  refine after_bind ((after_quiet (rescan_within (mildly quiet_of_calm) rfl) t).post fun l₁ t₁ _ ⟨ht₁, links, hl₁⟩ => ?_)
  subst ht₁ hl₁
  refine after_bind ((after_quiet (syncQos_within (mildly quiet_of_calm)) t₁).post fun _ t₂ _ ⟨ht₂, _⟩ => ?_)
  subst ht₂
  refine after_bind ((after_quiet (intact_within (mildly quiet_of_calm) fun _ _ _ _ => rfl) t₂).post fun whole t₃ _ ⟨ht₃, _⟩ => ?_)
  subst ht₃
  refine after_bind ((update_inStep (l := { l with links := links }) (h.congr rfl rfl)).post
    fun step t₄ _ ⟨hs, hl, hidle⟩ => ?_)
  cases step with
  | again l₂ =>
    refine ⟨trivial, fun l' heq => ?_⟩
    cases heq
    refine ⟨hs, fun hc hno => ?_⟩
    obtain ⟨_, _, hgo, _⟩ := hidle hc (by rw [← hl]; exact hno)
    cases hgo
  | go l₂ =>
    refine after_bind ((monitor_inStep hs).post fun step t₅ _ ⟨hs', hl', hmon⟩ => ?_)
    have hquiet : l.Cleared → step.loop.links.active = false → t₅ = t₃ := by
      intro hc hno
      obtain ⟨ht₄, _, hgo, hc'⟩ := hidle hc (by rw [← hl, ← hl']; exact hno)
      cases hgo
      exact (hmon hc').trans ht₄
    cases step with
    | again l₃ =>
      refine ⟨trivial, fun l' heq => ?_⟩
      cases heq
      exact ⟨hs', hquiet⟩
    | go l₃ =>
      refine after_bind ((after_quiet (rest_within (mildly quiet_of_calm) rfl) t₅).post fun l₄ t₆ _ ⟨ht₆, hl₄⟩ => ?_)
      obtain ⟨failures, changed, rfl⟩ := hl₄
      subst ht₆
      refine ⟨trivial, fun l' heq => ?_⟩
      cases heq
      exact ⟨hs'.congr rfl rfl, hquiet⟩

/-! ## The runs -/

theorem Run.inStep {workers : Nat} {ts : List Turn} (h : Run c workers ts l t) : l.InStep t := by
  induction h with
  | start => exact ⟨rfl, fun _ => ⟨rfl, rfl⟩⟩
  | turn _ hr ih => exact ((turn_inStep ih).runs hr _ rfl).1

/-- Whatever is pending, a turn without interfaces does nothing about it. -/
theorem Run.idle {workers : Nat} {ts : List Turn} (h : Run c workers ts l t) :
    ∀ τ ∈ ts, pending τ.t = true → τ.after.links.active = false → τ.t' = τ.t := by
  induction h with
  | start => exact fun _ hin => absurd hin List.not_mem_nil
  | turn hrun hr ih =>
    intro τ hin hp hno
    rcases List.mem_append.mp hin with hin | hin
    · exact ih τ hin hp hno
    · obtain rfl := List.mem_singleton.mp hin
      exact ((turn_inStep hrun.inStep).runs hr _ rfl).2 (hrun.inStep.cleared hp) hno

/-- **A failed cleanup is forgotten.** A run cleans up again, as it means to, in every turn
without interfaces that starts with a failed cleanup pending, exactly if it has no such turn. -/
theorem retries_iff {workers : Nat} {ts : List Turn} (h : Run c workers ts l t) : Retries ts ↔ FindsLinks ts := by
  constructor
  · intro hr τ hin hp
    by_contra hno
    have hno' : τ.after.links.active = false := by simpa using hno
    obtain ⟨ok, hok⟩ := hr τ hin hp hno'
    rw [h.idle τ hin hp hno', List.drop_length] at hok
    cases hok
  · intro hf τ hin hp hno
    rw [hf τ hin hp] at hno
    cases hno

/-- The interfaces go, the cleanup fails, and what is found after that is in `found`. -/
def failing (found : List Links) : List Turn × Loop × Machine :=
  play ⟨{ backend := .kernel }, .kernel, .passNoIp6tables, true⟩ 3 [] (.initial 1)
    (.initial (⟨["ap0"], ["rmnet0"]⟩ :: .default :: found) [false])

/-- The interfaces stay away: the next turn lets the failed cleanup be. -/
theorem retries_forgotten : ∃ (c : Setup) (workers : Nat) (ts : List Turn) (l : Loop) (t : Trace),
    Run c workers ts l t ∧ t = [.cleanup true, .installed, .cleanup false] ∧ ¬ Retries ts := by
  have hrun : Run _ 1 (failing []).1 (failing []).2.1 (failing []).2.2.trace := play_run 3 _ _ _ .start
  have hbad : ∃ τ ∈ (failing []).1, pending τ.t = true ∧ τ.after.links.active = false ∧ τ.t' = τ.t := by
    decide +kernel
  refine ⟨_, 1, _, _, _, hrun, by decide +kernel, fun hr => ?_⟩
  obtain ⟨τ, hin, hp, hno, heq⟩ := hbad
  obtain ⟨ok, hok⟩ := hr τ hin hp hno
  rw [heq, List.drop_length] at hok
  cases hok

/-- The interfaces come back: the next turn installs anew. -/
theorem retries_returned : ∃ (c : Setup) (workers : Nat) (ts : List Turn) (l : Loop) (t : Trace),
    Run c workers ts l t ∧ (∃ τ ∈ ts, pending τ.t = true) ∧ Retries ts := by
  have hrun : Run _ 1 (failing [⟨["ap0"], ["rmnet0"]⟩]).1 (failing [⟨["ap0"], ["rmnet0"]⟩]).2.1
    (failing [⟨["ap0"], ["rmnet0"]⟩]).2.2.trace := play_run 3 _ _ _ .start
  have hfinds : ∀ τ ∈ (failing [⟨["ap0"], ["rmnet0"]⟩]).1, pending τ.t = true → τ.after.links.active = true := by
    decide +kernel
  exact ⟨_, 1, _, _, _, hrun, by decide +kernel, (retries_iff hrun).mpr hfinds⟩

end Nfqttl.Daemon
