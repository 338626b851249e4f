/-
Which value `restore` gives back when others write the settings too.

`apply` overrides a foreign value each time it finds one, but records it only when no
`owned` file is there: of several overridden values the journal keeps the first. `Hold`
follows what the user chose and what the journal keeps, from the events alone.
-/
import Nfqttl.Offload

namespace Nfqttl.Offload

open Effect

/-! ## One call on one setting -/

def applied (key : Key) (c : Cell) : Cell :=
  if valid key c.setting = true ∧ c.setting ≠ key.new then
    ⟨key.new, if c.owned.isSome then c.before else some c.setting, some key.new⟩
  else c

def restored (c : Cell) : Cell :=
  match c.owned with
  | none => c
  | some ours =>
    if c.setting = trimmed ours then ⟨(c.before.map trimmed).getD c.setting, none, none⟩ else ⟨c.setting, none, none⟩

section eval
variable {s : World} {key : Key}

theorem write_eval (value : String) :
    (write key value).eval handler s = (true, s.set key { s key with setting := value }) := by
  have hvalue : (if value = "null" then Command.delete else .put value).value = value := by
    split
    · next h => exact h.symm
    · rfl
  simp only [write, Prog.eval_op, Prog.eval_ret, handler, hvalue]

theorem writeChecked_eval (value : String) :
    (writeChecked key value).eval handler s = (true, s.set key { s key with setting := value }) := by
  rw [writeChecked, Prog.eval_bind, write_eval]
  simp [read, handler]

theorem writeFile_eval (file : Journal) (text : String) :
    (writeFile file key text).eval handler s = (true, s.set key ((s key).setFile (some text) file)) := by
  simp only [writeFile, Prog.eval_op, handler, if_true, set_self, set_set]
  cases file <;> rfl

theorem applyKey_eval : ((applyKey key).eval handler s).2 = s.set key (applied key (s key)) := by
  unfold applyKey applied
  rw [Prog.eval_bind]
  cases hv : valid key (s key).setting
  · simp [read, handler, hv]
  by_cases hnew : (s key).setting = key.new
  · simp [read, handler, hnew]
  cases ho : (s key).owned.isSome <;>
    simp [read, handler, hv, hnew, ownedExists, ho, writeFile_eval, writeChecked_eval, Cell.setFile]

theorem restoreKey_eval : ((restoreKey key).eval handler s).2 = s.set key (restored (s key)) := by
  unfold restoreKey restored
  rw [Prog.eval_bind]
  cases ho : (s key).owned with
  | none => simp [readTrim, handler, Cell.file, ho]
  | some ours =>
    by_cases hnow : (s key).setting = trimmed ours
    · cases hb : (s key).before <;>
        simp [readTrim, handler, Cell.file, ho, read, hnow, hb, writeChecked_eval, release, removeFile, Cell.setFile]
    · simp [readTrim, handler, Cell.file, ho, read, hnow, release, removeFile, Cell.setFile]

theorem forM_eval {f : Key → OffloadProg Unit} {g : Key → Cell → Cell}
    (h : ∀ key s, ((f key).eval handler s).2 = s.set key (g key (s key))) :
    ((keys.forM f).eval handler s).2 = fun key => g key (s key) := by
  have hstep : ((keys.forM f).eval handler s).2 =
      ((f .bpfTethering).eval handler ((f .bpf).eval handler ((f .hw).eval handler s).2).2).2 := by
    change ((f .hw >>= fun _ => f .bpf >>= fun _ => f .bpfTethering >>= fun _ => pure ()).eval handler s).2 = _
    simp only [Prog.eval_bind, Prog.pure_eq, Prog.eval_ret]
  rw [hstep, h, h, h]
  funext key
  cases key <;> simp [World.set]

theorem apply_eval : ((apply true).eval handler s).2 = fun key => applied key (s key) :=
  forM_eval fun _ _ => applyKey_eval

theorem restore_eval : (restore.eval handler s).2 = fun key => restored (s key) := forM_eval fun _ _ => restoreKey_eval

end eval

/-! ## Runs -/

/-- The calls of the module, and the values others write. -/
inductive Event
  | apply
  | restore
  | external (key : Key) (value : String)
  deriving DecidableEq, Repr

def World.step (s : World) : Event → World
  | .apply => ((Offload.apply true).eval handler s).2
  | .restore => (Offload.restore.eval handler s).2
  | .external key value => s.set key { s key with setting := value }

def World.run (s : World) (es : List Event) : World := es.foldl World.step s

/-- What others write is valid and not the module's value. -/
def Event.Foreign : Event → Prop
  | .external key value => valid key value = true ∧ value ≠ key.new
  | _ => True

/-- The last value somebody else wrote, from `first` on. -/
def choice (key : Key) (first : String) (es : List Event) : String :=
  es.foldl (fun last e =>
    match e with
    | .external k value => if k = key then value else last
    | _ => last) first

/-- Every `restore` of the events gives back the last choice. -/
def GivesBack (s : World) (es : List Event) (key : Key) : Prop :=
  ∀ es₁ es₂, es = es₁ ++ .restore :: es₂ → (s.run (es₁ ++ [.restore]) key).setting = choice key (s key).setting es₁

/-! ## What the journal holds -/

/-- The last choice; the value the first overriding `apply` since the last `restore`
found; whether the module's value stands. -/
structure Hold where
  last : String
  saved : Option String := none
  ours : Bool := false
  deriving DecidableEq, Repr

def Hold.step (key : Key) (h : Hold) : Event → Hold
  | .external k value => if k = key then { h with last := value, ours := false } else h
  | .apply =>
    if h.ours = false ∧ valid key h.last = true ∧ h.last ≠ key.new then
      { h with saved := h.saved.or (some h.last), ours := true }
    else h
  | .restore => { h with saved := none, ours := false }

def Hold.run (key : Key) (h : Hold) (es : List Event) : Hold := es.foldl (Hold.step key) h

/-- At each `restore` that finds the module's value, the last choice is the one the journal keeps. -/
def KeepsChoice (key : Key) (first : String) (es : List Event) : Prop :=
  ∀ es₁ es₂, es = es₁ ++ .restore :: es₂ →
    (Hold.run key ⟨first, none, false⟩ es₁).ours = true →
      (Hold.run key ⟨first, none, false⟩ es₁).saved = some (Hold.run key ⟨first, none, false⟩ es₁).last

/-- A setting and its journal as `Hold` has them. -/
structure Tracks (key : Key) (h : Hold) (c : Cell) : Prop where
  setting : c.setting = if h.ours then key.new else h.last
  owned : c.owned = h.saved.map fun _ => key.new
  before : ∀ v, h.saved = some v → c.before = some v ∧ valid key v = true
  held : h.ours = true → h.saved.isSome = true
  foreign : h.saved.isSome = true → h.ours = false → h.last ≠ key.new

section tracks
variable {key : Key} {h : Hold} {c : Cell}

theorem Tracks.external (ht : Tracks key h c) {k : Key} {value : String} (hf : (Event.external k value).Foreign) :
    Tracks key (h.step key (.external k value)) (if k = key then { c with setting := value } else c) := by
  by_cases hk : k = key
  · subst hk
    rw [if_pos rfl, Hold.step, if_pos rfl]
    exact ⟨rfl, ht.owned, ht.before, fun h => by simp at h, fun _ _ => hf.2⟩
  · rw [if_neg hk, Hold.step, if_neg hk]
    exact ht

theorem Tracks.apply (ht : Tracks key h c) : Tracks key (h.step key .apply) (applied key c) := by
  unfold Hold.step applied
  have hset := ht.setting
  cases hours : h.ours with
  | true =>
    -- The module's value stands.
    rw [hours, if_pos rfl] at hset
    rw [if_neg (by simp), if_neg fun hc => hc.2 hset]
    exact ht
  | false =>
    rw [hours, if_neg Bool.false_ne_true] at hset
    simp only [hset, true_and]
    split
    · constructor
      · rfl
      · cases h.saved <;> rfl
      · intro v hv
        rw [ht.owned]
        cases hsaved : h.saved with
        | none =>
          rw [hsaved, Option.none_or] at hv
          cases hv
          next hvalid => exact ⟨rfl, hvalid.1⟩
        | some w =>
          rw [hsaved, Option.some_or] at hv
          obtain rfl : w = v := Option.some.inj hv
          exact ht.before w hsaved
      · intro _
        cases h.saved <;> rfl
      · intro _ hf
        cases hf
    · exact ht

/-- What `restore` leaves while the journal is in use. -/
theorem Tracks.restored_saved (ht : Tracks key h c) {v : String} (hsaved : h.saved = some v) :
    Offload.restored c = ⟨if h.ours then v else h.last, none, none⟩ := by
  obtain ⟨hbefore, hvalid⟩ := ht.before v hsaved
  have howned : c.owned = some key.new := by rw [ht.owned, hsaved, Option.map_some]
  rw [Offload.restored, howned]
  have hset := ht.setting
  cases hours : h.ours with
  | true =>
    rw [hours, if_pos rfl] at hset
    simp only [hset, trimmed_new, if_true, hbefore, Option.map_some, trimmed_of_valid hvalid, Option.getD_some]
  | false =>
    rw [hours, if_neg Bool.false_ne_true] at hset
    have hne : h.last ≠ key.new := ht.foreign (by rw [hsaved]; rfl) hours
    simp only [hset, trimmed_new, hne, if_false, Bool.false_eq_true]

theorem Tracks.restored_free (ht : Tracks key h c) (hsaved : h.saved = none) :
    Offload.restored c = c ∧ c.setting = h.last ∧ h.ours = false := by
  have hours : h.ours = false := by
    cases hours : h.ours with
    | false => rfl
    | true =>
      have := ht.held hours
      rw [hsaved] at this
      cases this
  have howned : c.owned = none := by rw [ht.owned, hsaved, Option.map_none]
  have hset := ht.setting
  rw [hours, if_neg Bool.false_ne_true] at hset
  exact ⟨by rw [Offload.restored, howned], hset, hours⟩

/-- `restore` gives back the last choice when the journal holds it. -/
theorem Tracks.restore_iff (ht : Tracks key h c) :
    (Offload.restored c).setting = h.last ↔ (h.ours = true → h.saved = some h.last) := by
  cases hsaved : h.saved with
  | none =>
    obtain ⟨heq, hset, hours⟩ := ht.restored_free hsaved
    simp [heq, hset, hours]
  | some v =>
    rw [ht.restored_saved hsaved]
    cases hours : h.ours <;> simp

theorem Tracks.restore (ht : Tracks key h c) (hback : (Offload.restored c).setting = h.last) :
    Tracks key (h.step key .restore) (Offload.restored c) := by
  have howned : (Offload.restored c).owned = none := by
    cases hsaved : h.saved with
    | none =>
      rw [(ht.restored_free hsaved).1, ht.owned, hsaved, Option.map_none]
    | some v => rw [ht.restored_saved hsaved]
  exact ⟨hback, howned, nofun, nofun, nofun⟩

end tracks

/-! ## Every run -/

theorem step_cell (s : World) (e : Event) (key : Key) : s.step e key =
    match e with
    | .apply => applied key (s key)
    | .restore => restored (s key)
    | .external k value => if k = key then { s key with setting := value } else s key := by
  cases e with
  | apply => rw [World.step, apply_eval]
  | restore => rw [World.step, restore_eval]
  | external k value =>
    by_cases hk : k = key
    · subst hk
      simp [World.step]
    · simp [World.step, hk, set_ne _ _ (Ne.symm hk)]

theorem run_last (key : Key) (h : Hold) (es : List Event) : (h.run key es).last = choice key h.last es := by
  induction es generalizing h with
  | nil => rfl
  | cons e es ih =>
    have hstep : (h.step key e).last = choice key h.last [e] := by
      cases e with
      | apply =>
        rw [Hold.step]
        split <;> rfl
      | restore => rfl
      | external k value =>
        by_cases hk : k = key <;> simp [Hold.step, choice, hk]
    change ((h.step key e).run key es).last = _
    rw [ih, hstep]
    rfl

/-- The calls of `restore` among events: the first event, or one of the rest. -/
theorem forall_restore_cons {P : List Event → Prop} {e : Event} {es : List Event} :
    (∀ es₁ es₂, e :: es = es₁ ++ .restore :: es₂ → P es₁) ↔
      (e = .restore → P []) ∧ ∀ es₁ es₂, es = es₁ ++ .restore :: es₂ → P (e :: es₁) := by
  constructor
  · intro h
    exact ⟨fun he => h [] es (by rw [he]; rfl), fun es₁ es₂ hes => h (e :: es₁) es₂ (by rw [hes]; rfl)⟩
  · rintro ⟨hfirst, hrest⟩ es₁ es₂ hes
    cases es₁ with
    | nil =>
      cases hes
      exact hfirst rfl
    | cons e' es₁ =>
      cases hes
      exact hrest es₁ es₂ rfl

theorem givesBack_from {key : Key} {es : List Event} (hes : ∀ e ∈ es, e.Foreign) {s : World} {h : Hold}
    (ht : Tracks key h (s key)) :
    (∀ es₁ es₂, es = es₁ ++ .restore :: es₂ → (s.run (es₁ ++ [.restore]) key).setting = (h.run key es₁).last) ↔
      ∀ es₁ es₂, es = es₁ ++ .restore :: es₂ → (h.run key es₁).ours = true →
        (h.run key es₁).saved = some (h.run key es₁).last := by
  induction es generalizing s h with
  | nil => simp
  | cons e es ih =>
    obtain ⟨hforeign, hes⟩ := List.forall_mem_cons.mp hes
    have hnow : (s.run ([] ++ [.restore]) key).setting = (h.run key []).last ↔
        ((h.run key []).ours = true → (h.run key []).saved = some (h.run key []).last) := by
      change (s.step .restore key).setting = h.last ↔ (h.ours = true → h.saved = some h.last)
      rw [step_cell]
      exact ht.restore_iff
    have hlater : Tracks key (h.step key e) (s.step e key) →
        ((∀ es₁ es₂, es = es₁ ++ .restore :: es₂ →
          (s.run ((e :: es₁) ++ [.restore]) key).setting = (h.run key (e :: es₁)).last) ↔
        ∀ es₁ es₂, es = es₁ ++ .restore :: es₂ → (h.run key (e :: es₁)).ours = true →
          (h.run key (e :: es₁)).saved = some (h.run key (e :: es₁)).last) := fun ht' => ih hes ht'
    rw [forall_restore_cons, forall_restore_cons]
    by_cases he : e = .restore
    · subst he
      simp only [true_implies]
      rw [hnow]
      refine and_congr_right fun hkeep => hlater ?_
      rw [step_cell]
      exact ht.restore (ht.restore_iff.mpr hkeep)
    · simp only [he, false_implies, true_and]
      refine hlater ?_
      rw [step_cell]
      cases e with
      | apply => exact ht.apply
      | restore => exact absurd rfl he
      | external k value => exact ht.external hforeign

/-- Of events in which the calls succeed every `restore` gives back the last choice,
exactly if at each one that finds the module's value the journal holds that choice. -/
theorem gives_back_iff {s : World} {es : List Event} {key : Key} (hfresh : (s key).owned = none)
    (hes : ∀ e ∈ es, e.Foreign) : GivesBack s es key ↔ KeepsChoice key (s key).setting es := by
  have ht : Tracks key ⟨(s key).setting, none, false⟩ (s key) :=
    ⟨rfl, hfresh, nofun, nofun, nofun⟩
  have hiff := givesBack_from hes ht
  simp only [run_last] at hiff
  simp only [GivesBack, KeepsChoice, run_last]
  exact hiff

/-- Each choice is given back before the next one is overridden. -/
theorem gives_back_twice :
    GivesBack (fun _ => ⟨"0", none, none⟩) [.apply, .restore, .external .hw "null", .apply, .restore] .hw := by
  refine (gives_back_iff rfl (by simp [Event.Foreign, valid, Key.new])).mpr ?_
  unfold KeepsChoice
  simp [forall_restore_cons, Hold.run, Hold.step, valid, Key.new]

/-- A choice that was overridden while the journal held an earlier one is lost. -/
theorem gives_back_lost :
    ¬ GivesBack (fun _ => ⟨"0", none, none⟩) [.apply, .external .hw "null", .apply, .restore] .hw := by
  intro h
  have hlast := h [.apply, .external .hw "null", .apply] [] rfl
  exact absurd hlast (by decide)

end Nfqttl.Offload
