/-
What `stop`, `start` and `configure` come to: their outcome by the first of their
operations that fails.
-/
import Nfqttl.Ctl

namespace Nfqttl.Ctl

open Effect Text

variable {f : Faults} {w : World} {α β : Type}

/-- What a program answers, and the world it leaves, where the operations of `f` fail. -/
def exec (f : Faults) (x : CtlProg α) (w : World) : Except IoError α × World := x.run.eval (handler f) w

/-- How a program goes on from the outcome of its first part. -/
def andThen (r : Except IoError α × World) (g : α → World → Except IoError β × World) : Except IoError β × World :=
  match r with
  | (.ok a, w) => g a w
  | (.error e, w) => (.error e, w)

theorem exec_bind (x : CtlProg α) (g : α → CtlProg β) :
    exec f (x >>= g) w = andThen (exec f x w) fun a w' => exec f (g a) w' := by
  rw [exec, ExceptT.run_bind, Prog.eval_bind]
  rcases h : exec f x w with ⟨a | e, w'⟩ <;> (rw [exec] at h; rw [h]; rfl)

@[simp] theorem exec_throw (e : IoError) : exec f (throw e : CtlProg α) w = (.error e, w) := rfl
@[simp] theorem exec_pure (a : α) : exec f (pure a : CtlProg α) w = (.ok a, w) := rfl
@[simp] theorem exec_lift (x : Except IoError α) : exec f (lift x) w = (x, w) := rfl

theorem exec_ite {c : Prop} [Decidable c] (x y : CtlProg α) :
    exec f (if c then x else y) w = if c then exec f x w else exec f y w := by
  split <;> rfl

theorem exec_tryCatch (x : CtlProg α) (g : IoError → CtlProg α) : exec f (tryCatch x g) w =
    match exec f x w with
    | (.ok a, w') => (.ok a, w')
    | (.error e, w') => exec f (g e) w' := by
  rw [exec, ExceptT.run_tryCatch, Prog.eval_bind]
  rcases h : exec f x w with ⟨a | e, w'⟩ <;> (rw [exec] at h; rw [h]; rfl)

@[simp] theorem andThen_ok (a : α) (g : α → World → Except IoError β × World) : andThen (.ok a, w) g = g a w := rfl
@[simp] theorem andThen_error (e : IoError) (g : α → World → Except IoError β × World) :
    andThen (.error e, w) g = (.error e, w) := rfl
@[simp] theorem andThen_attempt (failed : Bool) (w w' : World) (g : Unit → World → Except IoError β × World) :
    andThen (attempt failed w w') g = if failed then (.error .last, w) else g () w' := by
  cases failed <;> rfl
@[simp] theorem andThen_check (failed : Bool) (e : IoError) (a : α) (w : World)
    (g : α → World → Except IoError β × World) : andThen (if failed then .error e else .ok a, w) g =
      if failed then (.error e, w) else g a w := by
  cases failed <;> rfl

@[simp] theorem andThen_pure (r : Except IoError Unit × World) : (andThen r fun _ w => (.ok (), w)) = r := by
  rcases r with ⟨_ | _, w⟩ <;> rfl

/-- What the first part leaves holds to the end when the second part keeps it. -/
theorem andThen_state {P : World → Prop} {r : Except IoError α × World} {g : α → World → Except IoError β × World}
    (hr : P r.2) (hg : ∀ a, P (g a r.2).2) : P (andThen r g).2 := by
  rcases r with ⟨e | a, w⟩
  · exact hr
  · exact hg a

/-! ## One operation at a time -/

section ops
variable (site : Site) (text : List Char) (phase : String)

@[simp] theorem exec_readConfig : exec f (readConfig site) w =
    (if f.fails (.readConfig site) then .error .last else .ok w.config, w) := rfl
@[simp] theorem exec_writeTemp : exec f (writeTemp text) w =
    attempt (f.fails (.writeTemp text)) { w with temp := some (f.torn text) } { w with temp := some text } := rfl
@[simp] theorem exec_chmodTemp : exec f chmodTemp w = attempt (f.fails .chmodTemp) w w := rfl
theorem exec_readTemp {text : List Char} (h : w.temp = some text) :
    exec f readTemp w = (if f.fails .readTemp then .error .last else .ok text, w) := by
  cases hr : f.fails .readTemp <;> simp [exec, readTemp, ExceptT.run_mk, handler, h, hr]
@[simp] theorem exec_removeTemp : exec f removeTemp w =
    (.ok (), if f.fails .removeTemp then w else { w with temp := none }) := rfl
@[simp] theorem exec_owned : exec f (owned site) w = (.ok (w.daemon != .down), w) := rfl
@[simp] theorem exec_ensureState : exec f (ensureState site) w = attempt (f.fails (.ensureState site)) w w := rfl
@[simp] theorem exec_writePaused : exec f writePaused w =
    attempt (f.fails .writePaused) w { w with paused := true } := rfl
@[simp] theorem exec_select : exec f select w = (.ok w.iptables, w) := rfl
@[simp] theorem exec_cleanup : exec f cleanup w = (.ok (!f.fails .cleanup), w) := rfl
@[simp] theorem exec_stopOrphans : exec f stopOrphans w = (.ok (), w) := rfl
@[simp] theorem exec_cleanupQos : exec f cleanupQos w =
    (.ok (if f.fails .cleanupQos then .error .last else .ok ()), w) := by
  cases h : f.fails .cleanupQos <;>
    simp [exec, cleanupQos, ExceptT.run_mk, handler, attempt, h]
@[simp] theorem exec_restoreOffload : exec f restoreOffload w = (.ok (), w) := rfl
@[simp] theorem exec_writePhase : exec f (writePhase phase) w = (.ok (), { w with phase := phase }) := rfl
@[simp] theorem exec_writeBackup : exec f (writeBackup text) w = attempt (f.fails (.writeBackup text))
    { w with backup := some (f.torn text) } { w with backup := some text } := rfl
theorem exec_rename {text : List Char} (h : w.temp = some text) : exec f rename w =
    attempt (f.fails .rename) { w with offered := some text }
      { w with config := text, temp := none, offered := some text } := by
  cases hr : f.fails .rename <;> simp [exec, rename, ExceptT.run_mk, handler, h, hr, attempt]
@[simp] theorem exec_halted : exec f halted w = (.ok w.halted, w) := rfl
@[simp] theorem exec_removeLastError : exec f removeLastError w = (.ok (), w) := rfl
@[simp] theorem exec_currentExe : exec f currentExe w = attempt (f.fails .currentExe) w w := rfl
@[simp] theorem exec_spawn : exec f spawn w = attempt (f.fails .spawn) w { w with daemon := .up } := rfl

@[simp] theorem exec_terminate : exec f terminate w =
    (.ok (f.fails .terminate), { w with daemon := if f.fails .terminate then .stopping else .down }) := by
  cases h : f.fails .terminate <;> simp [exec, terminate, ExceptT.run_mk, handler, h]

/-- The pause is lifted, unless the flag stays. -/
def unpaused (f : Faults) (w : World) : World := if f.fails .removePaused then w else { w with paused := false }

@[simp] theorem exec_removePaused : exec f removePaused w = (.ok (), unpaused f w) := rfl

end ops

/-! ## `stop` -/

def stillStopping : IoError := .new .timedOut "supervisor still stopping; inspect service.log"
def cleanupIncomplete : IoError := .new .other "firewall cleanup incomplete"

/-- The part of `stop` after the supervisor is gone. -/
def settled (f : Faults) (w : World) : Except IoError Unit × World :=
  if w.iptables && f.fails .cleanup then (.error cleanupIncomplete, w)
  else if f.fails .cleanupQos then (.error .last, w)
  else (.ok (), { w with phase := "stopped" })

/-- `stop`, by the first of its operations that fails. -/
def stopped (f : Faults) (w : World) : Except IoError Unit × World :=
  if f.fails (.ensureState .stop) || f.fails .writePaused then (.error .last, w)
  else if w.daemon != .down && f.fails .terminate then
    (.error stillStopping, { w with paused := true, daemon := .stopping })
  else settled f { w with paused := true, daemon := .down }

theorem stop_exec : exec f stop w = stopped f w := by
  cases hd : w.daemon <;> cases ht : f.fails .terminate <;> cases hfw : w.iptables <;>
    simp [stop, exec_bind, exec_ite, stopped, settled, stillStopping, cleanupIncomplete, hd, ht, hfw]
  all_goals grind

/-! ## `start` -/

def enableFirst : IoError := .new .other "Enable module in Magisk/KernelSU first"

/-- The part of `start` after the pause is lifted. -/
def launched (f : Faults) (w : World) : Except IoError Unit × World :=
  if f.fails .currentExe || f.fails .spawn then (.error .last, w) else (.ok (), { w with daemon := .up })

/-- `start`, by the first of its operations that fails. -/
def started (f : Faults) (w : World) : Except IoError Unit × World :=
  if w.halted then (.error enableFirst, w)
  else if f.fails (.readConfig .start) then (.error .last, w)
  else
    match Config.validate w.config with
    | .error e => (.error e, w)
    | .ok () =>
      if f.fails (.ensureState .start) then (.error .last, w)
      else if w.daemon != .down then (.ok (), w)
      else launched f (unpaused f w)

theorem start_exec : exec f start w = started f w := by
  have hlaunch : ∀ w, (if f.fails .currentExe = true then (.error .last, w)
      else attempt (f.fails .spawn) w { w with daemon := .up }) = launched f w := by
    intro w
    cases hx : f.fails .currentExe <;> cases hs : f.fails .spawn <;> simp [launched, attempt, hx, hs]
  cases hv : Config.validate w.config with
  | error e => simp [start, exec_bind, exec_ite, started, enableFirst, hv]
  | ok u => simp [start, exec_bind, exec_ite, started, enableFirst, hv, hlaunch]

/-! ## `configure` -/

/-- The temporary file is removed, if it can be. -/
def discarded (f : Faults) (w : World) : World := if f.fails .removeTemp then w else { w with temp := none }

/-- The backup and the rename. -/
def saved (f : Faults) (old : List Char) (w : World) : Except IoError Unit × World :=
  if f.fails (.writeBackup old) then (.error .last, { w with backup := some (f.torn old) })
  else exec f rename { w with backup := some old }

/-- What `configure` does once the new text is accepted. -/
def committed (f : Faults) (old : List Char) (w : World) : Except IoError Unit × World :=
  if w.daemon = .down then saved f old w
  else andThen (stopped f w) fun _ w => andThen (saved f old w) fun _ w => started f w

/-- `configure` with arguments that are in order. -/
def configured (f : Faults) (text : List Char) (w : World) : Except IoError Unit × World :=
  if f.fails (.writeTemp text) then (.error .last, { w with temp := some (f.torn text) })
  else
    let written := { w with temp := some text }
    if f.fails .chmodTemp then (.error .last, written)
    else if f.fails .readTemp then (.error .last, discarded f written)
    else
      match Config.validate text with
      | .error e => (.error e, discarded f written)
      | .ok () => committed f w.config written

theorem validateTemp_exec {text : List Char} (h : w.temp = some text) : exec f validateTemp w =
    if f.fails .readTemp then (.error .last, discarded f w)
    else
      match Config.validate text with
      | .error e => (.error e, discarded f w)
      | .ok () => (.ok (), w) := by
  cases hr : f.fails .readTemp with
  | true => simp [validateTemp, exec_tryCatch, exec_bind, exec_readTemp h, hr, discarded]
  | false =>
    cases hv : Config.validate text with
    | error e => simp [validateTemp, exec_tryCatch, exec_bind, exec_readTemp h, hr, hv, discarded]
    | ok u => simp [validateTemp, exec_tryCatch, exec_bind, exec_readTemp h, hr, hv]

theorem commit_exec (old : List Char) : exec f (commit old) w = committed f old w := by
  have hsave : ∀ (g : Unit → World → Except IoError Unit × World) w,
      (if f.fails (.writeBackup old) = true then (.error .last, { w with backup := some (f.torn old) })
        else andThen (exec f rename { w with backup := some old }) g) = andThen (saved f old w) g := by
    intro g w
    cases hb : f.fails (.writeBackup old) <;> simp [saved, hb]
  by_cases hd : w.daemon = .down
  · simp [commit, exec_bind, exec_ite, committed, saved, hd]
  · simp [commit, exec_bind, exec_ite, committed, hd, stop_exec, start_exec, hsave]

theorem configure_exec (settings : List (List Char)) : exec f (configure settings) w =
    if f.fails (.readConfig .configure) then (.error .last, w)
    else
      match parseArgs settings with
      | .error e => (.error e, w)
      | .ok entries => configured f (rewrite w.config entries) w := by
  cases hargs : parseArgs settings with
  | error e => simp [configure, exec_bind, hargs]
  | ok entries =>
    have htemp : ∀ text, exec f validateTemp { w with temp := some text } = _ := fun _ => validateTemp_exec rfl
    simp only [configure, exec_bind, exec_readConfig, andThen_check, exec_lift, hargs, andThen_ok, exec_writeTemp,
      andThen_attempt, exec_chmodTemp, htemp, commit_exec, configured]
    cases hr : f.fails .readTemp
    · cases hv : Config.validate (rewrite w.config entries) <;> simp
    · simp

theorem run_eq (settings : List (List Char)) : run f w settings =
    if f.fails (.readConfig .configure) then (.error .last, { w with offered := none })
    else
      match parseArgs settings with
      | .error e => (.error e, { w with offered := none })
      | .ok entries => configured f (rewrite w.config entries) { w with offered := none } := configure_exec settings

/-! ## What stays -/

/-- The files `configure` works on. -/
structure SameFiles (w w' : World) : Prop where
  config : w'.config = w.config
  temp : w'.temp = w.temp
  offered : w'.offered = w.offered

theorem SameFiles.refl (w : World) : SameFiles w w := ⟨rfl, rfl, rfl⟩

theorem SameFiles.trans {w₁ w₂ w₃ : World} (h : SameFiles w₁ w₂) (h' : SameFiles w₂ w₃) : SameFiles w₁ w₃ :=
  ⟨h'.config.trans h.config, h'.temp.trans h.temp, h'.offered.trans h.offered⟩

theorem settled_files : SameFiles w (settled f w).2 := by
  unfold settled
  split
  · exact .refl w
  split
  · exact .refl w
  · exact ⟨rfl, rfl, rfl⟩

theorem stopped_files : SameFiles w (stopped f w).2 := by
  unfold stopped
  split
  · exact .refl w
  split
  · exact ⟨rfl, rfl, rfl⟩
  · have hfiles := settled_files (f := f) (w := { w with paused := true, daemon := .down })
    exact ⟨hfiles.config, hfiles.temp, hfiles.offered⟩

theorem unpaused_files : SameFiles w (unpaused f w) := by
  unfold unpaused
  split
  · exact .refl w
  · exact ⟨rfl, rfl, rfl⟩

theorem started_files : SameFiles w (started f w).2 := by
  unfold started
  split
  · exact .refl w
  split
  · exact .refl w
  split
  · exact .refl w
  split
  · exact .refl w
  split
  · exact .refl w
  · have hfiles := unpaused_files (f := f) (w := w)
    unfold launched
    split
    · exact hfiles
    · exact ⟨hfiles.config, hfiles.temp, hfiles.offered⟩

end Nfqttl.Ctl
