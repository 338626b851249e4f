/-
When a failing `configure` leaves things as they were.

`configure` has no way back: once `stop` has set the pause flag and told the supervisor
to go, every error up to `start` is returned with the service stopped and paused, and
after the rename with the new text in place. `Harmless` says which step may fail.
-/
import Nfqttl.CtlRun

namespace Nfqttl.Ctl

open Effect Text

variable {f : Faults} {w : World}

/-- A service that is not both at work and without the pause flag. -/
def World.Idle (w : World) : Prop := w.daemon ≠ .up ∨ w.paused = true

/-- An error leaves `config.conf` as it was, and no service stopped and paused that was
at work and not paused. -/
def Atomic (f : Faults) (w : World) (settings : List (List Char)) : Prop :=
  ∀ e, (run f w settings).1 = .error e → (run f w settings).2.config = w.config ∧
    ¬ (w.daemon = .up ∧ w.paused = false ∧ (run f w settings).2.daemon ≠ .up ∧ (run f w settings).2.paused = true)

/-! ## The steps that may fail -/

/-- The steps of `stop`, of the saving and of `start`. -/
inductive Step
  | stopEnsure | pause | terminate | cleanup | qos | backup | rename | halted | reread | startEnsure | exe | spawn
  deriving DecidableEq, Repr

def stopSteps : List Step := [.stopEnsure, .pause, .terminate, .cleanup, .qos]
def saveSteps : List Step := [.backup, .rename]
def startSteps : List Step := [.halted, .reread, .startEnsure, .exe, .spawn]

/-- Whether a step fails when it is reached. -/
def Step.fails (f : Faults) (w : World) : Step → Bool
  | .stopEnsure => f.fails (.ensureState .stop)
  | .pause => f.fails .writePaused
  | .terminate => f.fails .terminate
  | .cleanup => w.iptables && f.fails .cleanup
  | .qos => f.fails .cleanupQos
  | .backup => f.fails (.writeBackup w.config)
  | .rename => f.fails .rename
  | .halted => w.halted
  | .reread => f.fails (.readConfig .start)
  | .startEnsure => f.fails (.ensureState .start)
  | .exe => f.fails .currentExe
  | .spawn => f.fails .spawn

def firstFailure (f : Faults) (w : World) : Option Step :=
  (stopSteps ++ saveSteps ++ startSteps).find? (·.fails f w)

/-- A step that may fail: nothing is done before it that stays, or nothing was to lose. -/
def Harmless (f : Faults) (w : World) (text : List Char) : Step → Prop
  | .stopEnsure | .pause => True
  | .terminate | .cleanup | .qos | .backup | .rename => w.Idle
  | .halted | .reread | .startEnsure => text = w.config ∧ w.Idle
  | .exe | .spawn => text = w.config ∧ (w.Idle ∨ f.fails .removePaused = false)

/-- The request passes every check. -/
structure Commits (f : Faults) (w : World) (settings : List (List Char)) (text : List Char) : Prop where
  args : ∃ entries, parseArgs settings = .ok entries ∧ text = rewrite w.config entries
  valid : Config.validate text = .ok ()
  read : f.fails (.readConfig .configure) = false
  written : f.fails (.writeTemp text) = false
  chmod : f.fails .chmodTemp = false
  checked : f.fails .readTemp = false

/-! ## The three phases -/

theorem stopped_cases (hd : w.daemon ≠ .down) :
    (stopSteps.find? (·.fails f w) = none ∧
      stopped f w = (.ok (), { w with paused := true, daemon := .down, phase := "stopped" })) ∨
    ∃ step e, stopSteps.find? (·.fails f w) = some step ∧
      ((step = .stopEnsure ∨ step = .pause) ∧ stopped f w = (.error e, w) ∨
        step ∈ [.terminate, .cleanup, .qos] ∧ (stopped f w).1 = .error e ∧ (stopped f w).2.config = w.config ∧
          (stopped f w).2.daemon ≠ .up ∧ (stopped f w).2.paused = true) := by
  cases h₁ : f.fails (.ensureState .stop)
  case true => simp [stopSteps, Step.fails, stopped, h₁]
  cases h₂ : f.fails .writePaused
  case true => simp [stopSteps, Step.fails, stopped, h₁, h₂]
  cases h₃ : f.fails .terminate
  case true => simp [stopSteps, Step.fails, stopped, h₁, h₂, h₃, hd]
  cases h₄ : w.iptables && f.fails .cleanup
  case true => simp [stopSteps, Step.fails, stopped, settled, h₁, h₂, h₃, h₄]
  cases h₅ : f.fails .cleanupQos <;> simp [stopSteps, Step.fails, stopped, settled, h₁, h₂, h₃, h₄, h₅]

theorem saved_cases {text : List Char} (h : w.temp = some text) :
    (saveSteps.find? (·.fails f w) = none ∧ saved f w.config w =
      (.ok (), { w with config := text, temp := none, backup := some w.config, offered := some text })) ∨
    ∃ step e, saveSteps.find? (·.fails f w) = some step ∧ (step = .backup ∨ step = .rename) ∧
      (saved f w.config w).1 = .error e ∧ (saved f w.config w).2.config = w.config ∧
      (saved f w.config w).2.daemon = w.daemon ∧ (saved f w.config w).2.paused = w.paused := by
  have hrename := exec_rename (f := f) (show ({ w with backup := some w.config } : World).temp = some text from h)
  cases h₁ : f.fails (.writeBackup w.config)
  case true => simp [saveSteps, Step.fails, saved, h₁]
  cases h₂ : f.fails .rename <;> simp [saveSteps, Step.fails, saved, h₁, h₂, hrename, attempt]

theorem started_cases (hd : w.daemon = .down) (hv : Config.validate w.config = .ok ()) :
    (startSteps.find? (·.fails f w) = none ∧ (started f w).1 = .ok ()) ∨
    ∃ step e, startSteps.find? (·.fails f w) = some step ∧
      (step ∈ [.halted, .reread, .startEnsure] ∧ started f w = (.error e, w) ∨
        (step = .exe ∨ step = .spawn) ∧ started f w = (.error e, unpaused f w)) := by
  cases h₁ : w.halted
  case true => simp [startSteps, Step.fails, started, h₁]
  cases h₂ : f.fails (.readConfig .start)
  case true => simp [startSteps, Step.fails, started, h₁, h₂]
  cases h₃ : f.fails (.ensureState .start)
  case true => simp [startSteps, Step.fails, started, h₁, h₂, h₃, hv]
  cases h₄ : f.fails .currentExe
  case true => simp [startSteps, Step.fails, started, launched, h₁, h₂, h₃, h₄, hv, hd]
  cases h₅ : f.fails .spawn <;> simp [startSteps, Step.fails, started, launched, h₁, h₂, h₃, h₄, h₅, hv, hd]

/-! ## The whole -/

/-- `Atomic`, of an outcome. -/
def Survives (w : World) (r : Except IoError Unit × World) : Prop :=
  ∀ e, r.1 = .error e → r.2.config = w.config ∧
    ¬ (w.daemon = .up ∧ w.paused = false ∧ r.2.daemon ≠ .up ∧ r.2.paused = true)

theorem survives_ok {r : Except IoError Unit × World} (h : r.1 = .ok ()) : Survives w r := by
  intro e he
  rw [h] at he
  cases he

theorem survives_error {r : Except IoError Unit × World} {e : IoError} (h : r.1 = .error e) : Survives w r ↔
    r.2.config = w.config ∧ (w.Idle ∨ r.2.daemon = .up ∨ r.2.paused = false) := by
  have hlost : ¬ (w.daemon = .up ∧ w.paused = false ∧ r.2.daemon ≠ .up ∧ r.2.paused = true) ↔
      w.Idle ∨ r.2.daemon = .up ∨ r.2.paused = false := by
    unfold World.Idle
    cases w.paused <;> cases r.2.paused <;> simp
    tauto
  rw [← hlost]
  exact ⟨fun hs => hs e h, fun hs e' _ => hs⟩

theorem andThen_of_error {α β : Type} {r : Except IoError α × World} {e : IoError} (h : r.1 = .error e)
    (g : α → World → Except IoError β × World) : andThen r g = (.error e, r.2) := by
  rcases r with ⟨a | e', w⟩ <;> cases h
  rfl

theorem saved_survives (hd : w.daemon = .down) (old : List Char) (h : ∃ text, w.temp = some text)
    (hold : w.config = old) : Survives w (saved f old w) := by
  obtain ⟨text, htemp⟩ := h
  subst hold
  rcases saved_cases (f := f) htemp with ⟨-, hsave⟩ | ⟨step, e, -, -, herr, hconfig, -, -⟩
  · exact survives_ok (by rw [hsave])
  · exact (survives_error herr).mpr ⟨hconfig, .inl (.inl (by rw [hd]; decide))⟩

theorem firstFailure_stop {step : Step} (h : stopSteps.find? (·.fails f w) = some step) :
    firstFailure f w = some step := by
  rw [firstFailure, List.append_assoc, List.find?_append, h]
  rfl

/-- A failing `stop` survives exactly where its step is harmless. -/
theorem stop_survives {text : List Char} (hd : w.daemon ≠ .down) {step : Step}
    (h : stopSteps.find? (·.fails f w) = some step) (g : Unit → World → Except IoError Unit × World) :
    Survives w (andThen (stopped f w) g) ↔ Harmless f w text step := by
  rcases stopped_cases (f := f) hd with ⟨hnone, -⟩ | ⟨step', e, hsome, hcase⟩
  · rw [h] at hnone
    cases hnone
  cases h.symm.trans hsome
  rcases hcase with ⟨hstep, hstop⟩ | ⟨hstep, herr, hconfig, hgone, hpaused⟩
  · rw [hstop, andThen_error, survives_error rfl]
    have hharm : Harmless f w text step := by rcases hstep with rfl | rfl <;> trivial
    refine ⟨fun _ => hharm, fun _ => ⟨rfl, ?_⟩⟩
    by_cases hup : w.daemon = .up
    · exact .inr (.inl hup)
    · exact .inl (.inl hup)
  · rw [andThen_of_error herr, survives_error rfl]
    have hharm : Harmless f w text step ↔ w.Idle := by
      simp only [List.mem_cons, List.not_mem_nil, or_false] at hstep
      rcases hstep with rfl | rfl | rfl <;> rfl
    simp [hharm, hconfig, hgone, hpaused]

/-- A save that fails after `stop` survives exactly where nothing was to lose. -/
theorem save_survives {text : List Char} {r : Except IoError Unit × World} {step : Step} {e : IoError}
    (hstep : step = .backup ∨ step = .rename) (herr : r.1 = .error e) (hconfig : r.2.config = w.config)
    (hdown : r.2.daemon = .down) (hpaused : r.2.paused = true) (g : Unit → World → Except IoError Unit × World) :
    Survives w (andThen r g) ↔ Harmless f w text step := by
  have hharm : Harmless f w text step ↔ w.Idle := by rcases hstep with rfl | rfl <;> rfl
  rw [andThen_of_error herr, survives_error rfl, hharm]
  simp [hconfig, hdown, hpaused]

/-- `start` after the rename survives exactly where its step is harmless. -/
theorem start_survives {v : World} (hdown : v.daemon = .down) (hpaused : v.paused = true)
    (hv : Config.validate v.config = .ok ()) : Survives w (started f v) ↔
      ∀ step, startSteps.find? (·.fails f v) = some step → Harmless f w v.config step := by
  rcases started_cases (f := f) hdown hv with ⟨hfirst, hok⟩ | ⟨step, e, hfirst, ⟨hstep, hout⟩ | ⟨hstep, hout⟩⟩
  · rw [hfirst]
    refine ⟨fun _ step hs => ?_, fun _ => survives_ok hok⟩
    cases hs
  · -- The flag is still there.
    have hharm : Harmless f w v.config step ↔ v.config = w.config ∧ w.Idle := by
      simp only [List.mem_cons, List.not_mem_nil, or_false] at hstep
      rcases hstep with rfl | rfl | rfl <;> rfl
    rw [hfirst, hout, survives_error rfl]
    simp only [Option.some.injEq, forall_eq', hharm, hdown, hpaused]
    simp
  · -- The flag is removed, if it can be.
    have hharm : Harmless f w v.config step ↔
        v.config = w.config ∧ (w.Idle ∨ f.fails .removePaused = false) := by
      rcases hstep with rfl | rfl <;> rfl
    have hlifted : (unpaused f v).config = v.config ∧ (unpaused f v).daemon = .down ∧
        ((unpaused f v).paused = false ↔ f.fails .removePaused = false) := by
      unfold unpaused
      split <;> simp_all
    rw [hfirst, hout, survives_error rfl]
    simp only [Option.some.injEq, forall_eq', hharm, hlifted.1, hlifted.2.1, hlifted.2.2]
    simp

theorem committed_survives {text : List Char} (hd : w.daemon ≠ .down) (htemp : w.temp = some text)
    (hv : Config.validate text = .ok ()) : Survives w (committed f w.config w) ↔
      ∀ step, firstFailure f w = some step → Harmless f w text step := by
  rw [committed, if_neg hd]
  cases hstopFind : stopSteps.find? (·.fails f w) with
  | some step =>
    rw [firstFailure_stop hstopFind]
    simp only [Option.some.injEq, forall_eq']
    exact stop_survives hd hstopFind _
  | none =>
    obtain ⟨-, hstop⟩ | ⟨step, e, hsome, -⟩ := stopped_cases (f := f) hd
    case inr => cases hstopFind.symm.trans hsome
    rw [hstop, andThen_ok]
    rcases saved_cases (f := f) (w := { w with paused := true, daemon := .down, phase := "stopped" }) htemp with
      ⟨hsaveFind, hsave⟩ | ⟨step, e, hsome, hstep, herr, hconfig, hdown, hpaused⟩
    · have hfind : firstFailure f w = startSteps.find? (·.fails f w) := by
        rw [firstFailure, List.append_assoc, List.find?_append, hstopFind, List.find?_append]
        exact congrArg (Option.or · _) hsaveFind
      rw [hsave, andThen_ok, hfind]
      exact start_survives (v := ⟨text, none, some w.config, true, .down, w.halted, w.iptables, "stopped", some text⟩)
        rfl rfl hv
    · have hfirst : firstFailure f w = some step := by
        rw [firstFailure, List.append_assoc, List.find?_append, hstopFind, List.find?_append]
        exact congrArg (Option.or · _) hsome
      rw [hfirst]
      simp only [Option.some.injEq, forall_eq']
      exact save_survives (w := w) hstep herr hconfig hdown hpaused _

/-- Where nothing is touched but the temporary file, nothing is lost. -/
theorem survives_untouched {r : Except IoError Unit × World} (hconfig : r.2.config = w.config)
    (hdaemon : r.2.daemon = w.daemon) : Survives w r :=
  fun _ _ => ⟨hconfig, fun hlost => hlost.2.2.1 (hdaemon.trans hlost.1)⟩

theorem discarded_survives {r : Except IoError Unit} {text : List Char} :
    Survives w (r, discarded f { w with offered := none, temp := some text }) := by
  unfold discarded
  split <;> exact survives_untouched rfl rfl

/-- Arguments that are in order: the checks of the new text let it through, or nothing is lost. -/
theorem configured_survives {text : List Char} : Survives w (configured f text { w with offered := none }) ↔
    (f.fails (.writeTemp text) = false → f.fails .chmodTemp = false → f.fails .readTemp = false →
      Config.validate text = .ok () → w.daemon ≠ .down →
      ∀ step, firstFailure f w = some step → Harmless f w text step) := by
  unfold configured
  cases hwrite : f.fails (.writeTemp text)
  case true => exact ⟨fun _ hno => absurd hno Bool.false_ne_true.symm, fun _ => survives_untouched rfl rfl⟩
  cases hchmod : f.fails .chmodTemp
  case true => exact ⟨fun _ _ hno => absurd hno Bool.false_ne_true.symm, fun _ => survives_untouched rfl rfl⟩
  cases hcheck : f.fails .readTemp
  case true => exact ⟨fun _ _ _ hno => absurd hno Bool.false_ne_true.symm, fun _ => discarded_survives⟩
  simp only [Bool.false_eq_true, if_false, true_implies]
  cases hv : Config.validate text with
  | error e =>
    refine ⟨fun _ hno => ?_, fun _ => discarded_survives⟩
    cases hno
  | ok u =>
    simp only [true_implies]
    by_cases hd : w.daemon = .down
    · refine ⟨fun _ hne => absurd hd hne, fun _ => ?_⟩
      rw [committed, if_pos hd]
      exact saved_survives (w := { w with offered := none, temp := some text }) hd w.config ⟨text, rfl⟩ rfl
    · have hiff := committed_survives (f := f) (w := { w with offered := none, temp := some text }) hd rfl hv
      exact ⟨fun hs _ => hiff.mp hs, fun h => hiff.mpr (h hd)⟩

/-- `configure` is atomic exactly when the first step that fails after the checks is harmless. -/
theorem configure_atomic_iff (f : Faults) (w : World) (settings : List (List Char)) : Atomic f w settings ↔
    ∀ text, Commits f w settings text → w.daemon ≠ .down →
      ∀ step, firstFailure f w = some step → Harmless f w text step := by
  change Survives w (run f w settings) ↔ _
  rw [run_eq]
  cases hread : f.fails (.readConfig .configure)
  case true =>
    refine ⟨fun _ text hc => ?_, fun _ => survives_untouched rfl rfl⟩
    cases hread.symm.trans hc.read
  rw [if_neg Bool.false_ne_true]
  cases hargs : parseArgs settings with
  | error e =>
    refine ⟨fun _ text hc => ?_, fun _ => survives_untouched rfl rfl⟩
    obtain ⟨entries, hok, -⟩ := hc.args
    cases hargs.symm.trans hok
  | ok entries =>
    rw [configured_survives]
    refine ⟨fun h text hc => ?_, fun h hwrite hchmod hcheck hv => ?_⟩
    · obtain ⟨es, hok, rfl⟩ := hc.args
      cases hargs.symm.trans hok
      exact h hc.written hc.chmod hc.checked hc.valid
    · exact h _ ⟨⟨entries, hargs, rfl⟩, hv, hread, hwrite, hchmod, hcheck⟩

/-- The rename fails: `config.conf` is as it was, and the service that ran is stopped and
paused. -/
theorem configure_atomic_lost : ¬ Atomic ⟨fun o => o == .rename, id⟩
    ⟨"TTL=64\n".toList, none, none, false, .up, false, true, "active", none⟩ ["TTL=65".toList] := by
  intro h
  have hlost := (h .last (by decide)).2
  exact hlost (by decide)

end Nfqttl.Ctl
