/-
The offload settings survive crashes: whatever calls of `apply` and `restore` were cut
short, a `restore` that runs to its end gives back the first value.

`Custody` is what every cut leaves of a setting and its journal. Without an `owned` file
the setting has its first value; with one `before` holds that value, and the setting has
it too or has the module's, which `owned` then names.
-/
import Nfqttl.Offload

namespace Nfqttl.Offload

open Effect

/-- A setting that had the value `v` is in nobody's hands, or in the module's. -/
inductive Custody (key : Key) (v : String) (c : Cell) : Prop
  | free (owned : c.owned = none) (setting : c.setting = v)
  | held (x : String) (owned : c.owned = some x) (before : c.before = some v) (valid : valid key v = true)
      (other : v ≠ key.new) (setting : c.setting = v ∨ c.setting = key.new ∧ x = key.new)

/-- Every setting is in custody. -/
def Kept (init : Key → String) (s : World) : Prop := ∀ key, Custody key (init key) (s key)

section
variable {init : Key → String} {s : World} {key : Key} {fails : Bool}

theorem Kept.set (h : Kept init s) {c : Cell} (hc : Custody key (init key) c) : Kept init (s.set key c) := by
  intro k
  by_cases hk : k = key
  · subst hk
    rwa [set_self]
  · rw [set_ne s c hk]
    exact h k

/-- A value that is valid and not the module's is the first one. -/
theorem Custody.first {v : String} {c : Cell} (h : Custody key v c) (hne : c.setting ≠ key.new) : c.setting = v := by
  cases h with
  | free _ setting => exact setting
  | held x _ _ _ _ setting => exact setting.resolve_right fun hnew => hne hnew.1

/-! ## `apply` -/

/-- The end of a round of `apply`, once `before` holds the value that was found. -/
theorem own_keeps (h : Kept init s) (hbefore : (s key).before = some (init key)) (hv : valid key (init key) = true)
    (hother : init key ≠ key.new) (hset : (s key).setting = init key) :
    Keeps (system fails) (Kept init) (fun _ s' => Kept init s') (do
      if !(← writeFile .owned key key.new) then return
      if !(← writeChecked key key.new) then warn key) s := by
  have howned : ∀ x, Kept init (s.set key ((s key).setFile (some x) .owned)) := fun x =>
    h.set (.held x rfl hbefore hv hother (.inl hset))
  refine keeps_writeFile h (howned "") ?_ fun _ => ⟨⟨h, h⟩, ⟨howned "", howned ""⟩⟩
  have hwritten : Kept init ((s.set key ((s key).setFile (some key.new) .owned)).set key
      { (s.set key ((s key).setFile (some key.new) .owned)) key with setting := key.new }) := by
    refine (howned key.new).set (.held key.new ?_ ?_ hv hother (.inr ⟨rfl, rfl⟩)) <;> rw [set_self]
    · rfl
    · exact hbefore
  have hwarn : ∀ s, Kept init s → Keeps (system fails) (Kept init) (fun _ s' => Kept init s') (warn key) s := by
    intro s hs
    refine ⟨hs, ?_⟩
    rintro a s' rfl
    exact ⟨hs, hs⟩
  refine keeps_writeChecked (howned key.new) hwritten ⟨hwritten, hwritten⟩ fun _ => ⟨?_, ?_⟩
  · exact hwarn _ (howned key.new)
  · exact hwarn _ hwritten

theorem applyKey_keeps (h : Kept init s) :
    Keeps (system fails) (Kept init) (fun _ s' => Kept init s') (applyKey key) s := by
  unfold applyKey
  refine keeps_read h ?_ fun _ => ⟨h, h⟩
  simp only
  split
  · exact ⟨h, h⟩
  next hv =>
  split
  · exact ⟨h, h⟩
  next hnew =>
  have hset := (h key).first hnew
  rw [hset] at hv hnew ⊢
  rw [Bool.not_eq_true', Bool.not_eq_false] at hv
  refine keeps_ownedExists h ?_
  rcases h key with ⟨hnone, -⟩ | ⟨x, howned, hbefore, -, -, -⟩
  · have hfree : ∀ b, Kept init (s.set key ((s key).setFile b .before)) := fun b => h.set (.free hnone hset)
    simp only [hnone]
    refine keeps_writeFile h (hfree _) ?_ fun _ => ⟨⟨h, h⟩, ⟨hfree _, hfree _⟩⟩
    exact own_keeps (hfree _) (by rw [set_self]; rfl) hv hnew (by rw [set_self]; exact hset)
  · simp only [howned]
    exact own_keeps h hbefore hv hnew hset

theorem apply_keeps (h : Kept init s) (enabled : Bool) :
    Keeps (system fails) (Kept init) (fun _ s' => Kept init s') (apply enabled) s := by
  cases enabled with
  | false => exact ⟨h, h⟩
  | true =>
    refine keeps_forM (P := fun _ => Kept init) (fun _ h => h) keys ?_ s h
    intro key rest _ s h
    exact applyKey_keeps h

/-! ## `restore` -/

/-- A round of `restore` leaves the other settings alone, and gives back its own when
nothing fails. -/
theorem restoreKey_keeps (h : Kept init s) : Keeps (system fails) (Kept init) (fun _ s' => Kept init s' ∧
    (∀ k, k ≠ key → s' k = s k) ∧ (fails = false → (s' key).owned = none)) (restoreKey key) s := by
  have hrelease : ∀ s₁, Kept init s₁ → (s₁ key).setting = init key → (∀ k, k ≠ key → s₁ k = s k) →
      Keeps (system fails) (Kept init) (fun _ s' => Kept init s' ∧ (∀ k, k ≠ key → s' k = s k) ∧
        (fails = false → (s' key).owned = none)) (release key) s₁ := by
    intro s₁ h₁ hset hframe
    have hfree : Kept init (s₁.set key ((s₁ key).setFile none .owned)) := h₁.set (.free rfl hset)
    have hdone : Kept init ((s₁.set key ((s₁ key).setFile none .owned)).set key
        (((s₁.set key ((s₁ key).setFile none .owned)) key).setFile none .before)) := by
      refine hfree.set (.free ?_ ?_) <;> rw [set_self]
      · rfl
      · exact hset
    unfold release
    refine keeps_removeFile h₁ ⟨hfree, ?_⟩
    rintro a s' rfl
    refine ⟨hdone, hdone, fun k hk => ?_, fun _ => ?_⟩
    · rw [set_ne _ _ hk, set_ne _ _ hk, hframe k hk]
    · rw [set_self, set_self]
      rfl
  have hstay : fails = true → Kept init s ∧ (∀ k, k ≠ key → s k = s k) ∧ (fails = false → (s key).owned = none) :=
    fun hf => ⟨h, fun _ _ => rfl, fun hf' => by simp [hf] at hf'⟩
  unfold restoreKey
  refine keeps_readTrim h ?_
  rcases h key with ⟨hnone, hset⟩ | ⟨x, howned, hbefore, hv, hother, hset⟩
  · simp only [Cell.file, hnone]
    exact ⟨h, h, fun _ _ => rfl, fun _ => hnone⟩
  simp only [Cell.file, howned]
  refine keeps_read h ?_ fun hf => ⟨h, hstay hf⟩
  simp only
  split
  · -- The module's value stands, or what is there is the first value anyway.
    refine keeps_readTrim h ?_
    have hback : Kept init (s.set key { s key with setting := init key }) :=
      h.set (.held x howned hbefore hv hother (.inl rfl))
    simp only [Cell.file, hbefore, Option.map_some, trimmed_of_valid hv]
    refine keeps_writeChecked h hback ?_ fun hf => ⟨⟨h, hstay hf⟩, ⟨hback, hback, ?_, ?_⟩⟩
    · exact hrelease _ hback (by rw [set_self]) fun k hk => set_ne _ _ hk
    · exact fun k hk => set_ne _ _ hk
    · intro hf'
      simp [hf] at hf'
  · next hne =>
    -- Somebody else's value, which is the first.
    refine hrelease s h ?_ fun _ _ => rfl
    refine hset.resolve_right fun ⟨hnew, hx⟩ => hne ?_
    rw [hnew, hx, trimmed_new]

theorem restore_keeps (h : Kept init s) : Keeps (system fails) (Kept init)
    (fun _ s' => Kept init s' ∧ (fails = false → ∀ key, (s' key).owned = none)) restore s := by
  refine (keeps_forM (P := fun rest s => Kept init s ∧ (fails = false → ∀ key, key ∉ rest → (s key).owned = none))
    (fun _ h => h.1) keys ?_ s ⟨h, fun _ key hkey => ?_⟩).post fun _ s' _ h => ⟨h.1, fun hf key => h.2 hf key (by simp)⟩
  · intro key rest _ s ⟨h, hdone⟩
    refine (restoreKey_keeps h).post fun _ s' _ ⟨h', hframe, hgone⟩ => ⟨h', fun hf k hk => ?_⟩
    by_cases hkey : k = key
    · subst hkey
      exact hgone hf
    · rw [hframe k hkey]
      exact hdone hf k (by simp [hkey, hk])
  · cases key <;> simp [keys] at hkey

/-- Without `owned` files `restore` does nothing. -/
theorem restore_free (h : ∀ key, (s key).owned = none) :
    Keeps (system fails) (fun s' => s' = s) (fun _ s' => s' = s) restore s := by
  refine keeps_forM (P := fun _ s' => s' = s) (fun _ h => h) keys ?_ s rfl
  rintro key rest - s' rfl
  refine keeps_readTrim rfl ?_
  simp only [Cell.file, h key]
  exact ⟨rfl, rfl⟩

/-! ## Runs -/

/-- The calls of `apply` and `restore`, each of which may be cut short. -/
inductive Session (s : World) : World → Prop
  | start : Session s s
  | apply {s' s'' : World} : Session s s' → Visits (system true) (apply true) s' s'' → Session s s''
  | restore {s' s'' : World} : Session s s' → Visits (system true) restore s' s'' → Session s s''

theorem Session.kept {s s' : World} (h : Session s s') (hs : Kept init s) : Kept init s' := by
  induction h with
  | start => exact hs
  | apply _ hv ih => exact (apply_keeps ih true).visits hv
  | restore _ hv ih => exact (restore_keeps ih).visits hv

/-- However the calls before it were cut, a `restore` that runs to its end gives every
setting its first value back, and leaves no journal by which a later one changes it. -/
theorem restore_survives {s s' s'' : World} (hfresh : ∀ key, (s key).owned = none) (h : Session s s')
    (hr : Runs (system false) restore s' () s'') (key : Key) :
    (s'' key).setting = (s key).setting ∧
      ∀ t t' : World, (∀ k, (t k).owned = (s'' k).owned ∧ (t k).before = (s'' k).before) →
        Visits (system true) restore t t' → (t' key).setting = (t key).setting := by
  have hs : Kept (fun key => (s key).setting) s := fun key => .free (hfresh key) rfl
  obtain ⟨hkept, hgone⟩ := (restore_keeps (h.kept hs)).runs hr
  constructor
  · rcases hkept key with ⟨-, hset⟩ | ⟨x, howned, -⟩
    · exact hset
    · rw [hgone rfl key] at howned
      cases howned
  · intro t t' hfiles hv
    have hfree : ∀ k, (t k).owned = none := fun k => by rw [(hfiles k).1, hgone rfl k]
    rw [(restore_free hfree).visits hv]

/-- `apply` is killed right after it wrote the first setting. -/
theorem restore_survives_killed :
    let s : World := fun
      | .hw => ⟨"0", none, none⟩
      | .bpf => ⟨"true", none, none⟩
      | .bpfTethering => ⟨"null", none, none⟩
    (((Prog.cut handler 7 (apply true) s) .hw).setting = "1") ∧
      ((restore.eval handler (Prog.cut handler 7 (apply true) s)).2 .hw).setting = "0" := by
  intro s
  have hfresh : ∀ key, (s key).owned = none := fun key => by cases key <;> rfl
  have hback : ∀ t, Session s t → ((restore.eval handler t).2 .hw).setting = "0" := fun t ht =>
    (restore_survives hfresh ht ((Prog.runs_eval restore t).mono (handler_system false)) .hw).1
  refine ⟨by decide, hback _ (.apply .start ?_)⟩
  exact (Prog.visits_cut 7 (apply true) s).mono (handler_system true)

end

end Nfqttl.Offload
