/-
The signature of the links, by which the daemon tells whether an interface came or went.
Interface names have no blank and no `|` in them and none is empty, so nothing is lost
when they are joined; and `classify` sorts them, so their order says nothing.
-/
import Nfqttl.DaemonMachine
import Nfqttl.Net

namespace Nfqttl

theorem validIface_ne_nil {w : List Char} (h : validIface w = true) : w ≠ [] := by
  simp only [validIface, Bool.and_eq_true, Bool.not_eq_true', List.isEmpty_eq_false_iff] at h
  exact h.1.1

theorem validIface_notMem {w : List Char} (h : validIface w = true) : ' ' ∉ w ∧ '|' ∉ w := by
  simp only [validIface, Bool.and_eq_true, List.all_eq_true] at h
  exact ⟨fun hc => absurd (h.2 _ hc) (by decide), fun hc => absurd (h.2 _ hc) (by decide)⟩

/-! ## Joined names -/

section join
variable {v w : List String}

/-- No names are joined to nothing, and any names to something. -/
theorem join_eq_nil (h : ∀ s ∈ v, validIface s.toList = true) : (" ".intercalate v).toList = [] ↔ v = [] := by
  cases v with
  | nil => simp
  | cons s v =>
    obtain ⟨u, hu⟩ := intercalate_prefix " " s v
    simp [hu, validIface_ne_nil (h s (List.mem_cons_self ..))]

/-- The blanks take the names apart again. -/
theorem splitOn_join (h : ∀ s ∈ v, validIface s.toList = true) (hne : v ≠ []) :
    (" ".intercalate v).toList.splitOn ' ' = v.map String.toList := by
  rw [String.toList_intercalate]
  refine List.splitOn_intercalate ' ' ?_ (by simpa using hne)
  intro l hl
  obtain ⟨s, hs, rfl⟩ := List.mem_map.mp hl
  exact (validIface_notMem (h s hs)).1

theorem join_inj (hv : ∀ s ∈ v, validIface s.toList = true) (hw : ∀ s ∈ w, validIface s.toList = true)
    (h : (" ".intercalate v).toList = (" ".intercalate w).toList) : v = w := by
  by_cases hne : v = []
  · rw [(join_eq_nil hv).mpr hne] at h
    rw [hne, (join_eq_nil hw).mp h.symm]
  · have hne' : w ≠ [] := by
      intro hnil
      rw [(join_eq_nil hw).mpr hnil] at h
      exact hne ((join_eq_nil hv).mp h)
    have hmap : v.map String.toList = w.map String.toList := by rw [← splitOn_join hv hne, h, splitOn_join hw hne']
    exact List.map_injective_iff.mpr (fun _ _ => String.toList_injective) hmap

theorem bar_notMem_join : ∀ {v : List String}, (∀ s ∈ v, validIface s.toList = true) →
    '|' ∉ (" ".intercalate v).toList
  | [], _ => by simp
  | [s], h => by simpa using (validIface_notMem (h s (List.mem_cons_self ..))).2
  | s :: t :: v, h => by
    have hs := (validIface_notMem (h s (List.mem_cons_self ..))).2
    have hrest := bar_notMem_join fun s' hs' => h s' (List.mem_cons_of_mem s hs')
    rw [String.intercalate_cons_cons, String.toList_append, String.toList_append, List.append_assoc, List.mem_append,
      List.mem_append]
    exact fun hmem => hmem.elim hs fun hmem => hmem.elim (by decide) hrest

end join

/-! ## The signature -/

/-- The names are valid and each list is sorted. -/
structure Links.Sound (l : Links) : Prop where
  valid : ∀ s ∈ l.down ++ l.up, validIface s.toList = true
  down : l.down.Pairwise (· < ·)
  up : l.up.Pairwise (· < ·)

/-- The links `classify` answers with. -/
def Classified (l : Links) : Prop :=
  ∃ (c : Config) (default addrs live : List String), l = classify c default addrs live

theorem Classified.sound {l : Links} (h : Classified l) : l.Sound := by
  obtain ⟨c, default, addrs, live, rfl⟩ := h
  refine ⟨?_, sortDedup_sorted _, sortDedup_sorted _⟩
  intro s hs
  exact classify_valid c default addrs live (List.mem_append.mp hs).symm

/-- The interfaces of the links are the same, downstream and upstream. -/
def Links.Same (l m : Links) : Prop := (∀ s, s ∈ l.down ↔ s ∈ m.down) ∧ ∀ s, s ∈ l.up ↔ s ∈ m.up

theorem Links.eq_of {l m : Links} (hdown : l.down = m.down) (hup : l.up = m.up) : l = m := by
  cases l
  cases m
  rw [Links.mk.injEq]
  exact ⟨hdown, hup⟩

namespace Links.Sound

variable {l m : Links}

theorem signature_inj (hl : l.Sound) (hm : m.Sound) : l.signature = m.signature ↔ l = m := by
  refine ⟨?_, fun h => h ▸ rfl⟩
  intro h
  have hldown := fun s hs => hl.valid s (List.mem_append_left _ hs)
  have hmdown := fun s hs => hm.valid s (List.mem_append_left _ hs)
  have hlup := fun s hs => hl.valid s (List.mem_append_right _ hs)
  have hmup := fun s hs => hm.valid s (List.mem_append_right _ hs)
  replace h := congrArg String.toList h
  simp only [signature, String.toList_append] at h
  -- The first bar ends the downstreams on both sides.
  have hsplit := congrArg (Text.splitOnce '|') h
  simp only [show "|".toList = ['|'] from rfl, List.append_assoc, List.singleton_append,
    Text.splitOnce_append (bar_notMem_join hldown), Text.splitOnce_append (bar_notMem_join hmdown),
    Option.some.injEq, Prod.mk.injEq] at hsplit
  exact eq_of (join_inj hldown hmdown hsplit.1) (join_inj hlup hmup hsplit.2)

/-- Sorted lists of the same interfaces are equal. -/
theorem eq_iff (hl : l.Sound) (hm : m.Sound) : l = m ↔ l.Same m := by
  refine ⟨fun h => h ▸ ⟨fun _ => Iff.rfl, fun _ => Iff.rfl⟩, ?_⟩
  intro h
  exact eq_of (hl.down.eq_of_mem_iff hm.down fun s => h.1 s) (hl.up.eq_of_mem_iff hm.up fun s => h.2 s)

end Links.Sound

namespace Daemon

open Effect

/-! ## What the loop has seen -/

structure Sight where
  /-- What `discover` last answered. -/
  links : Links
  /-- The interfaces that were last dealt with. -/
  settled : Option Links

/-- The loop resets this timer when it has dealt with the interfaces. -/
def see : (op : DaemonOp) → DaemonSig.Ans op → Sight → Sight
  | .discover, links, g => { g with links := links }
  | .reset .stable, _, g => { g with settled := some g.links }
  | _, _, g => g

/-- Any answer goes, but the links found are `classify`'s. -/
def seen : Sem DaemonSig Sight := fun op g a g' =>
  g' = see op a g ∧
    match op, a with
    | .discover, links => Classified links
    | _, _ => True

/-- Any operation that leaves what was seen. -/
def unseen : DaemonOp → Bool
  | .discover | .reset .stable => false
  | _ => true

theorem see_unseen {op : DaemonOp} (h : unseen op = true) (a : DaemonSig.Ans op) (g : Sight) : see op a g = g := by
  cases op with
  | discover => cases h
  | reset timer => cases timer <;> first | rfl | cases h
  | _ => rfl

theorem unseen_of_calm (op : DaemonOp) (h : calm op = true) : unseen op = true := by
  cases op with
  | discover => cases h
  | reset timer => cases timer <;> first | rfl | cases h
  | _ => rfl

/-- The variables and what was seen after any number of turns. -/
inductive Sees (c : Setup) (workers : Nat) : Loop → Sight → Prop
  | start : Sees c workers (.initial workers) ⟨.default, none⟩
  | turn {l l' : Loop} {g g' : Sight} : Sees c workers l g → Runs seen (turn c l) g (some l') g' →
      Sees c workers l' g'

/-- The variables agree with what was seen, as far as the next turn goes by them. -/
structure Loop.Knows (l : Loop) (g : Sight) : Prop where
  links : l.links = g.links
  found : l.first = false → Classified g.links
  last : l.first = false → ∃ m, g.settled = some m ∧ Classified m ∧ l.last = m.signature

/-- The same, when the interfaces were looked for in this turn if they had to be. -/
structure Loop.Looks (l : Loop) (g : Sight) : Prop where
  links : l.links = g.links
  found : Classified g.links
  last : l.first = false → ∃ m, g.settled = some m ∧ Classified m ∧ l.last = m.signature

theorem Loop.Looks.knows {l : Loop} {g : Sight} (h : l.Looks g) : l.Knows g := ⟨h.links, fun _ => h.found, h.last⟩

theorem Loop.Looks.congr {l l' : Loop} {g : Sight} (h : l.Looks g) (hlinks : l'.links = l.links)
    (hlast : l'.last = l.last) (hfirst : l'.first = l.first) : l'.Looks g :=
  ⟨hlinks.trans h.links, h.found, fun hf => hlast ▸ h.last (hfirst ▸ hf)⟩

/-! ## A turn -/

variable {c : Setup} {l : Loop} {g : Sight}

/-- A run of `p` that ends does so with `Q`. -/
abbrev Sure {α : Type} (Q : α → Sight → Prop) (p : DaemonProg α) (g : Sight) : Prop := Keeps seen (fun _ => True) Q p g

theorem sure_unseen {α : Type} {Q : α → Prop} {p : DaemonProg α} (h : Within (unseen · = true) Q p) (g : Sight) :
    Sure (fun a g' => g = g' ∧ Q a) p g := by
  refine (h.keeps (R := seen) (I := (g = ·)) ?_ rfl).mono (fun _ _ => trivial) fun _ _ _ hq => hq
  intro op g₁ a g₂ hop hg hs
  rw [hs.1, see_unseen hop, ← hg]

theorem rescan_looks (h : l.Knows g) : Sure Loop.Looks (rescan c l) g := by
  have hfind : Sure Loop.Looks (do
      let links ← ask .discover
      ask (.reset .scan)
      return { l with links := links }) g := by
    refine ⟨trivial, fun links g₁ hs => ⟨trivial, fun _ g₂ hs' => ⟨trivial, ?_⟩⟩⟩
    obtain ⟨rfl, hc⟩ := hs
    obtain ⟨rfl, -⟩ := hs'
    exact ⟨rfl, hc, h.last⟩
  unfold rescan
  cases hb : l.first || l.changed with
  | true => exact hfind
  | false =>
    refine ⟨trivial, fun due g₁ hs => ?_⟩
    obtain ⟨rfl, -⟩ := hs
    cases due with
    | true => exact hfind
    | false => exact ⟨trivial, h.links, h.found (Bool.or_eq_false_iff.mp hb).1, h.last⟩

/-- What a part of the turn leaves of the variables `l`, as far as `Loop.Looks` goes by them. -/
def Step.Since (l : Loop) : Step → Prop
  | .go l' => l'.links = l.links ∧ l'.last = l.last ∧ l'.first = l.first
  | .again l' => l'.links = l.links ∧ l'.first = true

theorem recoverFirst_since {why : String} : Within (unseen · = true) (Step.Since l) (recoverFirst c l why) := by
  have hdown : Within (unseen · = true) (fun l' => Step.Since l (.again { l' with first := true })) (takeDown c l) :=
    (takeDown_within unseen_of_calm fun _ => rfl).mono fun _ h => ⟨h.2.2.2, rfl⟩
  unfold recoverFirst recover
  refine within_bind.mpr ⟨rfl, fun _ => ⟨rfl, fun _ => ⟨rfl, fun _ => ⟨rfl, fun ok => ?_⟩⟩⟩⟩
  cases ok with
  | true => exact hdown
  | false => exact ⟨rfl, fun _ => hdown⟩

theorem install_since : Within (unseen · = true) (Step.Since l) (install c l) := by
  unfold install
  refine within_bind.mpr ⟨rfl, fun _ => ?_⟩
  refine within_bind.mpr ((ensureWorkers_within unseen_of_calm (fun _ => rfl) fun _ _ => rfl).mono fun r _ => ?_)
  obtain ⟨ok, items⟩ := r
  cases ok with
  | false => exact recoverFirst_since (l := { l with items := items })
  | true =>
    refine ⟨rfl, fun r => ?_⟩
    obtain ⟨ok, active4⟩ := r
    cases ok with
    | false => exact recoverFirst_since (l := { l with items := items, active4 := active4 })
    | true =>
      refine ⟨rfl, fun r => ?_⟩
      obtain ⟨ok, active6⟩ := r
      cases ok with
      | false => exact recoverFirst_since (l := { l with items := items, active4 := active4, active6 := active6 })
      | true => exact ⟨rfl, fun _ => ⟨rfl, fun _ => ⟨rfl, fun _ => ⟨rfl, rfl, rfl⟩⟩⟩⟩

theorem idle_since : Within (unseen · = true) (fun l' => l'.links = l.links) (idle l) := by
  have hend : ∀ l' : Loop, l'.links = l.links → Within (unseen · = true) (fun l' => l'.links = l.links) (do
      writeState "phase" "idle"
      writeState "interfaces" (interfaces l'.links)
      return l') := fun _ h => ⟨rfl, fun _ => ⟨rfl, fun _ => h⟩⟩
  have hstop : Within (unseen · = true) (fun _ => True) (Workers.stop .idle l.items) :=
    stop_within unseen_of_calm l.items fun _ _ => rfl
  unfold idle
  split
  · have hdetach : Within (unseen · = true) (fun l' => l'.links = l.links) (detach l) := by
      refine within_bind.mpr ⟨rfl, fun cleaned => ?_⟩
      cases cleaned with
      | true => exact within_bind.mpr (hstop.mono fun _ _ => rfl)
      | false => exact within_bind.mpr ⟨rfl, fun _ => within_bind.mpr (hstop.mono fun _ _ => rfl)⟩
    exact within_bind.mpr (hdetach.mono fun l' hl' => hend l' hl')
  · exact hend l rfl

/-- The turn may go on, or the next one begin. -/
def Step.Knows : Step → Sight → Prop
  | .go l, g => l.Looks g
  | .again l, g => l.Knows g

theorem settle_go (hlinks : l.links = g.links) (hfound : Classified g.links) :
    Sure Step.Knows (settle g.links.signature (.go l)) g := by
  refine ⟨trivial, fun _ g' hs => ⟨trivial, ?_⟩⟩
  obtain ⟨rfl, -⟩ := hs
  exact ⟨hlinks, hfound, fun _ => ⟨g.links, rfl, hfound, rfl⟩⟩

theorem Step.Since.knows {l' : Loop} (h : (Step.again l').Since l) (hlinks : l.links = g.links) : l'.Knows g :=
  ⟨h.1.trans hlinks, fun hf => absurd (h.2.symm.trans hf) (by decide),
    fun hf => absurd (h.2.symm.trans hf) (by decide)⟩

theorem update_knows {whole : Bool} (h : l.Looks g) : Sure Step.Knows (update c l whole) g := by
  unfold update
  split
  case isFalse => exact ⟨trivial, h⟩
  dsimp only
  split
  · refine keeps_bind.mpr ((sure_unseen install_since g).post fun step g' _ hstep => ?_)
    obtain ⟨rfl, hsince⟩ := hstep
    cases step with
    | go l' => exact h.links ▸ settle_go (hsince.1.trans h.links) h.found
    | again l' => exact ⟨trivial, hsince.knows h.links⟩
  · refine keeps_bind.mpr ((sure_unseen idle_since g).post fun l' g' _ hl => ?_)
    obtain ⟨rfl, hsince⟩ := hl
    have hlinks : l'.links = g.links := hsince.trans h.links
    exact hlinks ▸ settle_go hlinks h.found

theorem sample_since : Within (unseen · = true) (Step.Since l) (sample c l) := by
  refine within_bind.mpr ⟨rfl, fun _ => within_bind.mpr ⟨rfl, fun qs => ?_⟩⟩
  refine within_bind.mpr ((healthy_within unseen_of_calm _ _).mono fun healthy _ => ?_)
  dsimp only
  split
  · exact recoverFirst_since
  refine within_bind.mpr ((report_within (mildly unseen_of_calm) fun _ => rfl).mono fun r hr => ?_)
  obtain ⟨l', stalled⟩ := r
  obtain ⟨progress, warn, rfl⟩ := hr
  dsimp only
  split
  · exact recoverFirst_since (l := { l with queueProgress := progress, warnBacklog := warn })
  · exact ⟨rfl, rfl, rfl⟩

theorem monitor_since : Within (unseen · = true) (Step.Since l) (monitor c l) := by
  unfold monitor
  split
  case isFalse => exact ⟨rfl, rfl, rfl⟩
  refine within_bind.mpr ⟨rfl, fun due => ?_⟩
  cases due with
  | true => exact sample_since
  | false => exact ⟨rfl, rfl, rfl⟩

theorem turn_knows (h : l.Knows g) : Sure (fun r g' => ∀ l', r = some l' → Loop.Knows l' g') (turn c l) g := by
  have hnone : ∀ g' : Sight, Sure (fun r g' => ∀ l', r = some l' → Loop.Knows l' g') (.ret none) g' :=
    fun _ => ⟨trivial, fun _ hno => by cases hno⟩
  have hsome : ∀ {l' : Loop} {g' : Sight}, Loop.Knows l' g' →
      Sure (fun r g' => ∀ l', r = some l' → Loop.Knows l' g') (.ret (some l')) g' := by
    intro l' g' h'
    refine ⟨trivial, fun l'' heq => ?_⟩
    cases heq
    exact h'
  have hask : ∀ {op : DaemonOp} {f : DaemonSig.Ans op → DaemonProg (Option Loop)}, unseen op = true →
      (∀ a, Sure (fun r g' => ∀ l', r = some l' → Loop.Knows l' g') (f a) g) →
      Sure (fun r g' => ∀ l', r = some l' → Loop.Knows l' g') (ask op >>= f) g := by
    intro op f hop hf
    refine ⟨trivial, fun a g' hs => ?_⟩
    rw [hs.1, see_unseen hop]
    exact hf a
  unfold turn
  refine hask rfl fun stopping => ?_
  cases stopping
  case true => exact hnone g
  refine hask rfl fun halted => ?_
  cases halted
  case true => exact hask rfl fun _ => hnone g
  refine keeps_bind.mpr ((rescan_looks h).post fun l₁ g₁ _ h₁ => ?_)
  refine keeps_bind.mpr ((sure_unseen (syncQos_within (mildly unseen_of_calm)) g₁).post fun _ g₂ _ hq => ?_)
  obtain ⟨rfl, -⟩ := hq
  refine keeps_bind.mpr ((sure_unseen (intact_within (mildly unseen_of_calm) fun _ _ _ _ => rfl) g₁).post fun whole g₂ _ hi => ?_)
  obtain ⟨rfl, -⟩ := hi
  refine keeps_bind.mpr ((update_knows h₁).post fun step g₂ _ h₂ => ?_)
  cases step with
  | again l₂ => exact hsome h₂
  | go l₂ =>
    refine keeps_bind.mpr ((sure_unseen monitor_since g₂).post fun step g₃ _ hm => ?_)
    obtain ⟨rfl, hsince⟩ := hm
    cases step with
    | again l₃ => exact hsome (hsince.knows h₂.links)
    | go l₃ =>
      have h₃ := Loop.Looks.congr h₂ hsince.1 hsince.2.1 hsince.2.2
      refine keeps_bind.mpr ((sure_unseen (rest_within (mildly unseen_of_calm) rfl) g₂).post fun l₄ g₄ _ hr => ?_)
      obtain ⟨rfl, failures, changed, rfl⟩ := hr
      have h₄ : Loop.Looks { l₃ with failures := failures, changed := changed } g₂ := h₃.congr rfl rfl rfl
      exact hsome h₄.knows

theorem Sees.knows {workers : Nat} (h : Sees c workers l g) : l.Knows g := by
  induction h with
  | start => exact ⟨rfl, fun hf => absurd hf Bool.noConfusion, fun hf => absurd hf Bool.noConfusion⟩
  | turn _ hr ih => exact (turn_knows ih).runs hr _ rfl

/-! ## What a changed signature means -/

/-- What `update` does when there is something to do. -/
def reinstall (c : Setup) (l : Loop) : DaemonProg Step :=
  if l.links.active then do
    let step ← install c l
    settle l.links.signature step
  else do
    let l ← idle l
    settle l.links.signature (.go l)

theorem update_eq {whole : Bool} : update c l whole =
    if l.first || l.links.signature != l.last || !whole then reinstall c { l with first := false }
    else .ret (.go l) := rfl

end Daemon

open Daemon Effect

/-- **Change detection misses nothing.** Of links that `classify` answered with, the signatures are equal exactly
when the links are, and these exactly when they have the same downstreams and the same upstreams. So in every run of
the loop, once the interfaces were looked for in a turn that is not to start anew, the rules found whole are
reinstalled exactly when an interface came or went since the interfaces were last dealt with. -/
theorem signature_spec :
    (∀ l m, Classified l → Classified m → (l.signature = m.signature ↔ l = m) ∧ (l = m ↔ l.Same m)) ∧
    ∀ (c : Setup) (workers : Nat) (l l' : Loop) (g g' : Sight), Sees c workers l g →
      Runs seen (rescan c l) g l' g' → l'.first = false →
      ∃ m, g'.settled = some m ∧ (l'.links.Same m → update c l' true = .ret (.go l')) ∧
        (¬ l'.links.Same m → update c l' true = reinstall c l') := by
  have hiff : ∀ l m, Classified l → Classified m → (l.signature = m.signature ↔ l = m) ∧ (l = m ↔ l.Same m) :=
    fun l m hl hm => ⟨hl.sound.signature_inj hm.sound, hl.sound.eq_iff hm.sound⟩
  refine ⟨hiff, ?_⟩
  intro c workers l l' g g' hsees hrescan hfirst
  have hlooks : l'.Looks g' := (rescan_looks hsees.knows).runs hrescan
  obtain ⟨m, hsettled, hm, hlast⟩ := hlooks.last hfirst
  have hfound : Classified l'.links := hlooks.links ▸ hlooks.found
  obtain ⟨hsig, hsame⟩ := hiff l'.links m hfound hm
  have hl' : { l' with first := false } = l' := by rw [← hfirst]
  refine ⟨m, hsettled, ?_, ?_⟩
  · intro h
    have heq : l'.links.signature = l'.last := (hsig.mpr (hsame.mpr h)).trans hlast.symm
    rw [update_eq, hfirst, heq]
    simp
  · intro h
    have hne : l'.links.signature ≠ l'.last := fun heq => h (hsame.mp (hsig.mp (heq.trans hlast)))
    rw [update_eq, hfirst, hl', if_pos (by simpa using hne)]

/-- One phone's interfaces, before and after its upstream changes. -/
def overCell : Links := classify {} ["rmnet0"] ["ap0"] ["ap0", "rmnet0", "wlan0"]
def overWifi : Links := classify {} ["wlan0"] ["ap0"] ["ap0", "rmnet0", "wlan0"]

/-- `machine`, where `links` are found, and what is seen of it. -/
def lookout (links : Links) : Handler DaemonSig (Machine × Sight) := fun op s =>
  let r := machine op { s.1 with found := [links] }
  (r.1, r.2, see op r.1 s.2)

theorem runs_lookout {links : Links} (h : Classified links) {α : Type} (p : DaemonProg α) (s : Machine × Sight) :
    Runs seen p s.2 (p.eval (lookout links) s).1 (p.eval (lookout links) s).2.2 := by
  refine (Prog.runs_eval (h := lookout links) p s).map (f := Prod.snd) ?_
  intro op s a s' hs
  obtain ⟨rfl, rfl⟩ := Prod.mk.inj (show lookout links op s = (a, s') from hs)
  cases op with
  | discover => exact ⟨rfl, h⟩
  | _ => exact ⟨rfl, trivial⟩

/-- The loop without workers, and its first turn. -/
def phone : Setup := ⟨{}, .kernel, .passNoIp6tables, true⟩
def firstTurn : Option Loop × Machine × Sight :=
  (turn phone (.initial 1)).eval (lookout overCell) (.initial [] [], ⟨.default, none⟩)

theorem signature_spec_overWifi : ∃ l g l' g', Sees phone 1 l g ∧ g.settled = some overCell ∧
    Runs seen (rescan phone l) g l' g' ∧ l'.links = overWifi ∧ update phone l' true = reinstall phone l' := by
  have hcell : Classified overCell := ⟨_, _, _, _, rfl⟩
  have hwifi : Classified overWifi := ⟨_, _, _, _, rfl⟩
  have hfirst : firstTurn.1.map (fun l => (l.first, l.changed)) = some (false, true) := by decide +kernel
  obtain ⟨l, hl, hflags⟩ := Option.map_eq_some_iff.mp hfirst
  obtain ⟨hlfirst, hlchanged⟩ := Prod.mk.inj hflags
  have hturn := runs_lookout hcell (turn phone (.initial 1)) (.initial [] [], ⟨.default, none⟩)
  have hsees : Sees phone 1 l firstTurn.2.2 := .turn .start (hl ▸ hturn)
  have hsettled : firstTurn.2.2.settled = some overCell := by decide +kernel
  have hrescan := runs_lookout hwifi (rescan phone l) firstTurn.2
  obtain ⟨hlinks, hafter, hseen⟩ : ((rescan phone l).eval (lookout overWifi) firstTurn.2).1.links = overWifi ∧
      ((rescan phone l).eval (lookout overWifi) firstTurn.2).1.first = false ∧
      ((rescan phone l).eval (lookout overWifi) firstTurn.2).2.2.settled = some overCell := by
    simp only [rescan, orElapsed, hlfirst, hlchanged, Bool.false_or, if_true]
    exact ⟨rfl, rfl, hsettled⟩
  obtain ⟨m, hm, -, hchanged⟩ := signature_spec.2 phone 1 l _ _ _ hsees hrescan hafter
  refine ⟨l, firstTurn.2.2, _, _, hsees, hsettled, hrescan, hlinks, hchanged ?_⟩
  rw [hlinks, Option.some.inj (hm.symm.trans hseen)]
  intro hsame
  exact absurd ((hsame.2 "wlan0").mp (by decide +kernel)) (by decide +kernel)

end Nfqttl
