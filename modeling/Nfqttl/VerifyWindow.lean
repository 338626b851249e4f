/-
That a pass of `verify` is earned between its two snapshots.

The payload chains have a history of their own, of which `verify` sees two snapshots of
each family through commands that may fail. The history is any sequence of the commands
an install is made of and of packets the rules of the active chain count.
-/
import Mathlib.Algebra.BigOperators.Group.List.Basic
import Mathlib.Logic.Relation
import Nfqttl.VerifyRun

namespace Nfqttl.Verify

open Effect Text

/-! ## Payload chains and their history -/

/-- A payload chain: one rule for each pair of interfaces. -/
structure Payload where
  rows : List RuleCount
  distinct : (rows.map RuleCount.key).Nodup

namespace Payload

def empty : Payload := ⟨[], List.nodup_nil⟩

def append (p : Payload) (r : RuleCount) (h : r.key ∉ p.rows.map RuleCount.key) : Payload where
  rows := p.rows ++ [r]
  distinct := by
    rw [List.map_append, List.map_singleton, ← List.concat_eq_append]
    exact p.distinct.concat h

/-- The `k`th rule counts a packet. -/
def count (p : Payload) (k : Nat) : Payload where
  rows := p.rows.modify k fun r => { r with pkts := r.pkts + 1 }
  distinct := by
    have hkeys : (p.rows.modify k fun r => { r with pkts := r.pkts + 1 }).map RuleCount.key =
        p.rows.map RuleCount.key := by
      refine List.ext_getElem? ?_
      intro i
      rw [List.getElem?_map, List.getElem?_map, List.getElem?_modify]
      cases p.rows[i]? with
      | none => rfl
      | some r =>
        by_cases hk : k = i
        · simp [hk, RuleCount.key]
        · simp [hk]
    rw [hkeys]
    exact p.distinct

/-- No rule has counted a packet. -/
def Zero (p : Payload) : Prop := ∀ r ∈ p.rows, r.pkts = 0

/-- No two rules that do not drop lead to one upstream with one target. -/
def Apart (p : Payload) : Prop := ((p.rows.filter fun r => r.target != "DROP").map fun r => (r.output, r.target)).Nodup

instance (p : Payload) : Decidable p.Apart := inferInstanceAs (Decidable (List.Nodup _))

theorem count_apart {p : Payload} (h : p.Apart) (k : Nat) : (p.count k).Apart := by
  have hrows : ∀ (rows : List RuleCount) (k : Nat),
      ((rows.modify k fun r => { r with pkts := r.pkts + 1 }).filter fun r => r.target != "DROP").map
        (fun r => (r.output, r.target)) =
      (rows.filter fun r => r.target != "DROP").map fun r => (r.output, r.target) := by
    intro rows
    induction rows with
    | nil => simp
    | cons r rows ih =>
      intro k
      cases k with
      | zero => by_cases hr : r.target = "DROP" <;> simp [hr]
      | succ k => by_cases hr : r.target = "DROP" <;> simp [hr, ih]
  rw [Apart, count, hrows]
  exact h

/-- Rules that lead apart are read apart, also behind a blank column. -/
theorem read_distinct {blank : Bool} {p : Payload} (h : blank = true → p.Apart) :
    ((p.rows.filterMap (RuleCount.readAs blank)).map RuleCount.key).Nodup := by
  cases blank with
  | false => simpa using p.distinct
  | true =>
    have hkeys : ∀ rows : List RuleCount, (rows.filterMap (RuleCount.readAs true)).map RuleCount.key =
        ((rows.filter fun r => r.target != "DROP").map fun r => (r.output, r.target)).map
          fun x => (x.1, anywhere, x.2) := by
      intro rows
      induction rows with
      | nil => rfl
      | cons r rows ih => by_cases hr : r.target = "DROP" <;> simp [RuleCount.readAs, RuleCount.key, hr, ih]
    rw [hkeys]
    refine (h rfl).map ?_
    intro x y hxy
    simp only [Prod.mk.injEq, true_and] at hxy
    exact Prod.ext hxy.1 hxy.2

end Payload

/-- Where `verify` stands with a family: outside its snapshots, about to list the chain that
the first `-S` has named, or between the snapshots. -/
inductive Stage where
  | outside
  | named (b : Bool)
  | between
  deriving DecidableEq

/-- No chain is about to be listed. -/
def Stage.Rest (m : Stage) : Prop := ∀ b, m ≠ .named b

/-- The marks of a family: where `verify` stands, and whether a rule has counted a packet
between its snapshots. -/
structure Marks where
  stage : Stage
  counted : Bool

namespace Marks

/-- The first snapshot is taken. -/
def opened : Marks := ⟨.between, false⟩

/-- The second snapshot is taken. -/
def closed (m : Marks) : Marks := { m with stage := .outside }

/-- A chain is listed. -/
def listed (m : Marks) (second : Bool) : Marks := if second then m.closed else opened

/-- `-S` has named a chain to list, or none: then the snapshot is taken. -/
def asked (m : Marks) (second : Bool) : Option Bool → Marks
  | some b => if second then m else { m with stage := .named b }
  | none => m.listed second

/-- A rule counts a packet. -/
def count (m : Marks) : Marks := { m with counted := m.counted || m.stage == .between }

end Marks

/-- The payload chains of a family, and the one the hook chain jumps to. -/
structure Family extends Marks where
  hook : Option Bool
  chain : Bool → Option Payload

/-- What may happen to a family: a chain may become active that has counted already; or one
that is not the chain `verify` is about to list; two rules of a chain may lead to one
upstream with one target. -/
structure Hazards where
  stale : Bool
  swaps : Bool
  alike : Bool

namespace Family

def set (f : Family) (b : Bool) (p : Option Payload) : Family :=
  { f with chain := fun b' => if b' = b then p else f.chain b' }

def mark (f : Family) (m : Marks) : Family := { f with toMarks := m }

/-- What happens to a family. An install empties and fills a chain before it makes it the
active one. -/
inductive Step (z : Hazards) (f : Family) : Family → Prop
  | flush (b : Bool) : Step z f (f.set b (some .empty))
  | append (b : Bool) (p : Payload) (r : RuleCount) (h : r.key ∉ p.rows.map RuleCount.key) (hp : f.chain b = some p)
      (hr : r.pkts = 0) (ha : z.alike = true ∨ (p.append r h).Apart) : Step z f (f.set b (some (p.append r h)))
  | delete (b : Bool) (hb : f.hook ≠ some b) : Step z f (f.set b none)
  | hook (b : Bool) (p : Payload) (hp : f.chain b = some p) (hz : z.stale = true ∨ p.Zero)
      (hs : z.swaps = true ∨ f.stage ≠ .named (!b)) : Step z f { f with hook := some b }
  | unhook : Step z f { f with hook := none }
  | count (b : Bool) (p : Payload) (k : Nat) (hb : f.hook = some b) (hp : f.chain b = some p)
      (hk : k < p.rows.length) :
      Step z f ((f.set b (some (p.count k))).mark f.count)

end Family

/-- The families, and whether the window has passed. -/
structure World where
  fam : Bool → Family
  sampled : Bool

namespace World

def put (w : World) (v6 : Bool) (f : Family) : World :=
  { w with fam := fun v => if v = v6 then f else w.fam v }

@[simp] theorem fam_put (w : World) (v6 : Bool) (f : Family) : (w.put v6 f).fam v6 = f := by simp [put]

@[simp] theorem fam_put_not (w : World) (v6 : Bool) (f : Family) : (w.put v6 f).fam (!v6) = w.fam (!v6) := by
  simp [put]

theorem fam_put_ne {w : World} {v6 v : Bool} {f : Family} (h : v ≠ v6) : (w.put v6 f).fam v = w.fam v := if_neg h

@[simp] theorem sampled_put (w : World) (v6 : Bool) (f : Family) : (w.put v6 f).sampled = w.sampled := rfl

theorem put_fam (w : World) (v6 : Bool) : w.put v6 (w.fam v6) = w := by
  have hfam : (fun v => if v = v6 then w.fam v6 else w.fam v) = w.fam := by
    funext v
    split
    · next hv => rw [hv]
    · rfl
  rw [put, hfam]

theorem put_put (w : World) (v6 : Bool) (f f' : Family) : (w.put v6 f).put v6 f' = w.put v6 f' := by
  have hfam : (fun v => if v = v6 then f' else (w.put v6 f).fam v) = fun v => if v = v6 then f' else w.fam v := by
    funext v
    by_cases hv : v = v6 <;> simp [put, hv]
  rw [put, hfam]
  rfl

def Step (z : Bool → Hazards) (w w' : World) : Prop :=
  ∃ v6 f, (w.fam v6).Step (z v6) f ∧ w' = w.put v6 f

abbrev History (z : Bool → Hazards) : World → World → Prop := Relation.ReflTransGen (Step z)

/-- What happens to one family is a history of the world. -/
theorem History.put {z : Bool → Hazards} {w : World} {v6 : Bool} {f' : Family}
    (h : Relation.ReflTransGen (Family.Step (z v6)) (w.fam v6) f') : History z w (w.put v6 f') := by
  induction h with
  | refl => rw [put_fam]
  | tail _ hstep ih => exact ih.tail ⟨v6, _, by rwa [fam_put], (put_put ..).symm⟩

end World

/-! ## What `verify` reads -/

/-- How the commands of `verify` turn out: which of them succeed, those of the second snapshot
or of the first, for IPv6 or for IPv4, and whether ip6tables leaves the opt column blank. -/
structure Reads where
  rules : Bool → Bool → Bool
  counters : Bool → Bool → Bool
  blank : Bool

/-- The snapshot is read as a whole. -/
def Reads.whole (ρ : Reads) (second v6 : Bool) : Prop := ρ.rules second v6 = true ∧ ρ.counters second v6 = true

/-- A command prints what there is when it is run, or nothing if it fails. The marks of
the family follow the snapshots. -/
def reads (ρ : Reads) (z : Bool → Hazards) (v6 : Bool) (what : Listing) (w : World) (text : List Char) (w' : World) :
    Prop :=
  ∃ w₁, World.History z w w₁ ∧
    let f := w₁.fam v6
    match what with
    | .rules _ =>
      (if ρ.rules w₁.sampled v6 then PrintsHook v6 (f.hook.map (payloadChain v6)) text else text = []) ∧
      w' = w₁.put v6 (f.mark (f.asked w₁.sampled (if ρ.rules w₁.sampled v6 then f.hook else none)))
    | .counters c =>
      (if ρ.counters w₁.sampled v6 then
          ∀ b, c = payloadChain v6 b → PrintsRows (v6 && ρ.blank) ((f.chain b).map (·.rows)) text
        else text = []) ∧
      w' = w₁.put v6 (f.mark (f.listed w₁.sampled))

/-- The window: whatever happens, and any packets. -/
def window (z : Bool → Hazards) (w : World) (_ : List Packet) (w' : World) : Prop :=
  ∃ w₁, World.History z w w₁ ∧ w' = { w₁ with sampled := true }

/-! ## What a step keeps -/

/-- A property of chains that a chain has as long as no rule of it counts. -/
structure Idle (P : Bool → Payload → Prop) : Prop where
  zero : ∀ {b p}, p.Zero → P b p
  append : ∀ {b p r} (h : r.key ∉ p.rows.map RuleCount.key), P b p → r.pkts = 0 → P b (p.append r h)

namespace Family

variable {z : Hazards} {f f' : Family} {P : Bool → Payload → Prop}

/-- The chain `b`, if it is there, has the property. -/
def Chain (P : Bool → Payload → Prop) (b : Bool) (f : Family) : Prop := ∀ p, f.chain b = some p → P b p

/-- The active chain has the property. -/
def Active (P : Bool → Payload → Prop) (f : Family) : Prop := ∀ b, f.hook = some b → f.Chain P b

/-- The rules of every chain lead apart. -/
def Apart (f : Family) : Prop := ∀ b p, f.chain b = some p → p.Apart

/-- `verify` is about to list `b`, and no other chain is active. -/
def Named (b : Bool) (f : Family) : Prop := f.stage = .named b ∧ ∀ b', f.hook = some b' → b' = b

/-- Between the snapshots, and no packet was counted unless `Q` still holds. -/
def Watching (Q : Family → Prop) (f : Family) : Prop := f.stage = .between ∧ (f.counted = true ∨ Q f)

theorem Watching.mono {Q Q' : Family → Prop} (h : f.Watching Q) (hQ : Q f → Q' f) : f.Watching Q' :=
  ⟨h.1, h.2.imp_right hQ⟩

theorem Step.stage (h : Step z f f') : f'.stage = f.stage := by
  cases h <;> rfl

theorem Step.counted (h : Step z f f') (hc : f.counted = true) : f'.counted = true := by
  cases h with
  | count b p k hb hp hk => exact Bool.or_eq_true_iff.mpr (.inl hc)
  | _ => exact hc

/-- While `verify` is about to list a chain, no other one becomes active. -/
theorem Step.named (hz : z.swaps = false) (h : Step z f f') {b : Bool} (hf : f.Named b) : f'.Named b := by
  refine ⟨h.stage.trans hf.1, ?_⟩
  cases h with
  | hook b' p hp hzero hs =>
    intro b'' hb
    cases hb
    have hne : Stage.named b ≠ .named (!b') := hf.1 ▸ hs.resolve_left (by simp [hz])
    cases b <;> cases b' <;> simp_all
  | unhook => exact nofun
  | _ => exact hf.2

theorem chain_set {b b' : Bool} {p : Option Payload} (h : f.Chain P b') (hp : ∀ q, p = some q → b' = b → P b q) :
    (f.set b p).Chain P b' := by
  intro q hq
  simp only [Family.set] at hq
  split at hq
  · next hb => exact hb ▸ hp q hq hb
  · exact h q hq

/-- Rules are put in apart. -/
theorem Step.apart (hz : z.alike = false) (h : Step z f f') (hf : f.Apart) : f'.Apart := by
  have hset : ∀ {b p}, (∀ q, p = some q → q.Apart) → (f.set b p).Apart := by
    intro b p hp b' q hq
    simp only [Family.set] at hq
    split at hq
    · exact hp q hq
    · exact hf b' q hq
  cases h with
  | flush b =>
    refine hset fun q hq => ?_
    cases hq
    exact List.nodup_nil
  | append b p r hr hp hpkts ha =>
    refine hset fun q hq => ?_
    cases hq
    exact ha.resolve_left (by simp [hz])
  | delete b hb => exact hset nofun
  | hook b p hp hzero hs => exact hf
  | unhook => exact hf
  | count b p k hb hp hk =>
    refine hset fun q hq => ?_
    cases hq
    exact Payload.count_apart (hf b p hp) k

/-- A chain keeps the property unless one of its rules counts. -/
theorem Step.chain (hP : Idle P) (h : Step z f f') (hw : f.stage = .between) {b : Bool} (hf : f.Chain P b) :
    f'.counted = true ∨ f'.Chain P b := by
  cases h with
  | flush b' =>
    refine .inr (chain_set hf fun q hq _ => ?_)
    cases hq
    exact hP.zero nofun
  | append b' p r hr hp hz ha =>
    refine .inr (chain_set hf fun q hq hb => ?_)
    cases hq
    subst hb
    exact hP.append hr (hf p hp) hz
  | delete b' hb => exact .inr (chain_set hf nofun)
  | hook b' p hp hz hs => exact .inr hf
  | unhook => exact .inr hf
  | count b' p k hb hp hk => exact .inl (by simp [mark, Marks.count, set, hw])

/-- A chain becomes the active one before its rules count. -/
theorem Step.hooked (hz : z.stale = false) (h : Step z f f') {b : Bool} (hb : f'.hook = some b) :
    f.hook = some b ∨ ∀ p, f'.chain b = some p → p.Zero := by
  cases h with
  | hook b' p hp hzero hs =>
    cases hb
    refine .inr ?_
    intro q hq
    cases hp.symm.trans hq
    exact hzero.resolve_left (by simp [hz])
  | unhook => cases hb
  | _ => exact .inl hb

theorem Step.active (hz : z.stale = false) (hP : Idle P) (h : Step z f f') (hw : f.stage = .between)
    (hf : f.Active P) : f'.counted = true ∨ f'.Active P := by
  cases hhook : f'.hook with
  | none => exact .inr fun b hb => nomatch hhook.symm.trans hb
  | some b =>
    have hall : f'.Chain P b → f'.Active P := fun hchain b' hb' => by
      cases hhook.symm.trans hb'
      exact hchain
    rcases h.hooked hz hhook with hb | hzero
    · exact (h.chain hP hw (hf b hb)).imp_right hall
    · exact .inr (hall fun p hp => hP.zero (hzero p hp))

/-- A property of families that holds until a rule counts. -/
def Held (z : Hazards) (Q : Family → Prop) : Prop :=
  ∀ f f', Step z f f' → f.stage = .between → Q f → f'.counted = true ∨ Q f'

theorem Step.watching {Q : Family → Prop} (hQ : Held z Q) (h : Step z f f') (hf : f.Watching Q) :
    f'.Watching Q :=
  ⟨h.stage.trans hf.1, hf.2.elim (fun hc => .inl (h.counted hc)) (hQ f f' h hf.1)⟩

end Family

/-! ## What a history keeps -/

namespace World

variable {z : Bool → Hazards} {w w' : World}

theorem History.sampled (h : History z w w') : w'.sampled = w.sampled := by
  induction h with
  | refl => rfl
  | tail _ hs ih =>
    obtain ⟨v6, f, -, rfl⟩ := hs
    exact ih

/-- What every step of a family keeps, a history keeps. -/
theorem History.keeps {v6 : Bool} {Q : Family → Prop} (hQ : ∀ f f', Family.Step (z v6) f f' → Q f → Q f')
    (h : History z w w') (hw : Q (w.fam v6)) : Q (w'.fam v6) := by
  induction h with
  | refl => exact hw
  | tail _ hs ih =>
    obtain ⟨v, f, hf, rfl⟩ := hs
    by_cases hv : v6 = v
    · subst hv
      rw [fam_put]
      exact hQ _ _ hf ih
    · rwa [World.fam_put_ne hv]

end World

/-- `verify` on a device, with the history of its payload chains. -/
def Device.watch (d : Device) (ρ : Reads) (z : Bool → Hazards) : Sem VerifySig World :=
  d.sem (reads ρ z) (window z)

/-! ## Hits -/

@[simp] theorem saturatingSub_self (n : UInt64) : saturatingSub n n = 0 := by simp [saturatingSub]

@[simp] theorem saturatingSub_zero_left (n : UInt64) : saturatingSub 0 n = 0 := by
  rw [saturatingSub]
  split
  · next h => rw [UInt64.le_zero_iff.mp h, UInt64.sub_self]
  · rfl

theorem totalHits_zero {before after : List RuleCount} (h : ∀ r ∈ after, hitsOf before r = 0) :
    totalHits before after = 0 := List.sum_eq_zero (List.forall_mem_map.mpr h)

/-- Nothing that is read of the chain is a hit since the snapshot. -/
def Spent (blank : Bool) (before : List RuleCount) (_ : Bool) (p : Payload) : Prop :=
  ∀ r ∈ p.rows.filterMap (RuleCount.readAs blank), hitsOf before r = 0

theorem readAs_pkts {blank : Bool} {r a : RuleCount} (h : r.readAs blank = some a) : a.pkts = r.pkts := by
  rw [RuleCount.readAs] at h
  split at h
  · split at h
    · cases h
    · cases h
      rfl
  · cases h
    rfl

theorem hitsOf_zero {blank : Bool} {before : List RuleCount} {r a : RuleCount} (h : r.readAs blank = some a)
    (hr : r.pkts = 0) : hitsOf before a = 0 := by
  simp [hitsOf, readAs_pkts h, hr]

theorem idle_spent (blank : Bool) (before : List RuleCount) : Idle (Spent blank before) where
  zero hz a ha := by
    obtain ⟨r, hr, hread⟩ := List.mem_filterMap.mp ha
    exact hitsOf_zero hread (hz r hr)
  append _ hp hz a ha := by
    obtain ⟨r, hr, hread⟩ := List.mem_filterMap.mp ha
    rcases List.mem_append.mp hr with hr | hr
    · exact hp a (List.mem_filterMap.mpr ⟨r, hr, hread⟩)
    · exact hitsOf_zero hread (List.mem_singleton.mp hr ▸ hz)

theorem spent_self {blank : Bool} (b : Bool) {p : Payload} (h : blank = true → p.Apart) :
    Spent blank (p.rows.filterMap (RuleCount.readAs blank)) b p := by
  intro r hr
  simp [hitsOf, find_same (Payload.read_distinct h) hr]

/-! ## The snapshots -/

section snapshots
variable {d : Device} {ρ : Reads} {z : Bool → Hazards} {v6 : Bool} {w w' : World} {snap : Snapshot}

open World Family

theorem held_chain {P : Bool → Payload → Prop} (hP : Idle P) {s : Hazards} (b : Bool) : Held s (Chain P b) :=
  fun _ _ h hw hf => h.chain hP hw hf

theorem held_active {P : Bool → Payload → Prop} (hP : Idle P) {s : Hazards} (hs : s.stale = false) :
    Held s (Active P) := fun _ _ h hw hf => h.active hs hP hw hf

theorem History.watching {Q : Family → Prop} (hQ : Held (z v6) Q) (h : History z w w')
    (hw : (w.fam v6).Watching Q) : (w'.fam v6).Watching Q := h.keeps (fun _ _ hs hf => hs.watching hQ hf) hw

/-- Reading does not end the window of another family, nor what holds of it. -/
theorem counters_sampled (h : Runs (d.watch ρ z) (counters v6) w snap w') : w'.sampled = w.sampled := by
  obtain ⟨rules, w₁, ⟨w₀, hist, -, rfl⟩, h⟩ := runs_counters.mp h
  split at h
  · obtain ⟨-, rfl⟩ := h
    exact hist.sampled
  · obtain ⟨text, ⟨w₂, hist₂, -, rfl⟩, -⟩ := h
    exact hist₂.sampled.trans hist.sampled

theorem counters_other {Q : Family → Prop} (hQ : ∀ f f', Step (z !v6) f f' → Q f → Q f')
    (h : Runs (d.watch ρ z) (counters v6) w snap w') (hw : Q (w.fam !v6)) : Q (w'.fam !v6) := by
  obtain ⟨rules, w₁, ⟨w₀, hist, -, rfl⟩, h⟩ := runs_counters.mp h
  have h₀ := hist.keeps hQ hw
  split at h
  · obtain ⟨-, rfl⟩ := h
    rwa [fam_put_not]
  · obtain ⟨text, ⟨w₂, hist₂, -, rfl⟩, -⟩ := h
    rw [fam_put_not]
    exact hist₂.keeps hQ (by rwa [fam_put_not])

/-- After a first snapshot that was read as a whole, and in which the chain that was named was
listed, the active chain shows no hits until a rule counts. -/
theorem counters_first (hρ : ρ.whole false v6) (hsw : (z v6).swaps = false) (hs : w.sampled = false)
    (hal : (v6 && ρ.blank) = true → (z v6).alike = false ∧ (w.fam v6).Apart)
    (h : Runs (d.watch ρ z) (counters v6) w snap w') :
    (w'.fam v6).Watching (Active (Spent (v6 && ρ.blank) snap.2)) := by
  obtain ⟨rules, w₁, ⟨w₀, hist, hrules, rfl⟩, h⟩ := runs_counters.mp h
  have hs₀ : w₀.sampled = false := hist.sampled.trans hs
  simp only [hs₀, hρ.1, if_true] at hrules h
  rw [activeChain_prints hrules] at h
  cases hhook : (w₀.fam v6).hook with
  | none =>
    rw [hhook] at h
    obtain ⟨rfl, rfl⟩ := h
    rw [fam_put]
    exact ⟨rfl, .inr fun b hb => nomatch hhook.symm.trans hb⟩
  | some b =>
    rw [hhook] at h
    obtain ⟨text, ⟨w₂, hist₂, hcounters, rfl⟩, rfl⟩ := h
    have hs₂ : w₂.sampled = false := hist₂.sampled.trans hs₀
    simp only [hs₂, hρ.2, if_true] at hcounters
    have hnamed : (w₂.fam v6).Named b := by
      refine hist₂.keeps (fun _ _ hstep hf => hstep.named hsw hf) ?_
      rw [fam_put]
      exact ⟨rfl, fun b' hb' => Option.some_inj.mp (hb'.symm.trans hhook)⟩
    have hapart : (v6 && ρ.blank) = true → (w₂.fam v6).Apart := by
      intro hblank
      obtain ⟨halike, hw⟩ := hal hblank
      have hkeeps : ∀ f f', Step (z v6) f f' → f.Apart → f'.Apart := fun _ _ hstep hf => hstep.apart halike hf
      have hw₀ : (w₀.fam v6).Apart := hist.keeps hkeeps hw
      exact hist₂.keeps hkeeps (by rw [fam_put]; exact hw₀)
    rw [hs₂, fam_put]
    refine ⟨rfl, .inr fun b' hb' p hp => ?_⟩
    obtain rfl := hnamed.2 b' hb'
    have hp' : (w₂.fam v6).chain b' = some p := hp
    rw [parseCounters_prints (hcounters b' rfl), hp']
    exact spent_self b' fun hblank => hapart hblank b' p hp'

/-- A second snapshot shows no hits unless a rule has counted. -/
theorem counters_second {before : List RuleCount} (hs : w.sampled = true)
    (hw : ρ.whole true v6 → (z v6).stale = false ∧ (w.fam v6).Watching (Active (Spent (v6 && ρ.blank) before)))
    (h : Runs (d.watch ρ z) (counters v6) w snap w') :
    totalHits before snap.2 = 0 ∨ (w'.fam v6).counted = true := by
  obtain ⟨rules, w₁, ⟨w₀, hist, hrules, rfl⟩, h⟩ := runs_counters.mp h
  have hs₀ : w₀.sampled = true := hist.sampled.trans hs
  rw [hs₀] at hrules
  cases hr : ρ.rules true v6 with
  | false =>
    simp only [hr, Bool.false_eq_true, if_false] at hrules
    rw [hrules] at h
    obtain ⟨rfl, -⟩ := h
    exact .inl rfl
  | true =>
    simp only [hr, if_true] at hrules
    rw [activeChain_prints hrules] at h
    cases hhook : (w₀.fam v6).hook with
    | none =>
      rw [hhook] at h
      obtain ⟨rfl, -⟩ := h
      exact .inl rfl
    | some b =>
      rw [hhook] at h
      obtain ⟨text, ⟨w₂, hist₂, hcounters, rfl⟩, rfl⟩ := h
      have hs₂ : w₂.sampled = true := hist₂.sampled.trans hs₀
      rw [hs₂] at hcounters
      cases hc : ρ.counters true v6 with
      | false =>
        simp only [hc, Bool.false_eq_true, if_false] at hcounters
        rw [hcounters]
        exact .inl rfl
      | true =>
        simp only [hc, if_true] at hcounters
        obtain ⟨hst, hwatch⟩ := hw ⟨hr, hc⟩
        have hwatch₀ := History.watching (held_active (idle_spent _ before) hst) hist hwatch
        have hchain : (w₀.fam v6).Watching (Chain (Spent (v6 && ρ.blank) before) b) :=
          hwatch₀.mono fun hactive => hactive b hhook
        have hwatch₂ : (w₂.fam v6).Watching (Chain (Spent (v6 && ρ.blank) before) b) :=
          History.watching (held_chain (idle_spent _ before) b) hist₂ (by rw [fam_put, hs₀, hr]; exact hchain)
        rw [hs₂, fam_put]
        refine hwatch₂.2.symm.imp_left ?_
        intro hspent
        rw [parseCounters_prints (hcounters b rfl)]
        cases hp : (w₂.fam v6).chain b with
        | none => rfl
        | some p => exact totalHits_zero (hspent p hp)

theorem took_other {useV6 : Bool} {snap : Option Snapshot} {Q : Family → Prop}
    (hQ : ∀ f f', Step (z false) f f' → Q f → Q f') (h : Took (d.watch ρ z) useV6 w snap w')
    (hw : Q (w.fam false)) : Q (w'.fam false) := by
  cases useV6 with
  | false => exact h.2 ▸ hw
  | true =>
    obtain ⟨s, h, -⟩ := h
    exact counters_other hQ h hw

theorem window_keeps {Q : Family → Prop} {pkts : List Packet} (hQ : ∀ f f', Step (z v6) f f' → Q f → Q f')
    (h : window z w pkts w') (hw : Q (w.fam v6)) : Q (w'.fam v6) := by
  obtain ⟨w₁, hist, rfl⟩ := h
  have hkept : Q (w₁.fam v6) := hist.keeps hQ hw
  exact hkept

/-- Where no chain becomes active that has counted, the active chain goes on showing no
hits until a rule counts. -/
theorem spent_keeps {blank : Bool} {before : List RuleCount} (hst : (z v6).stale = false) (f f' : Family)
    (h : Step (z v6) f f') (hf : f.Watching (Active (Spent blank before))) :
    f'.Watching (Active (Spent blank before)) := h.watching (held_active (idle_spent blank before) hst) hf

end snapshots

/-! ## Passing -/

/-- Before `verify` is started, chains are as the hazards say. -/
def World.Begins (z : Bool → Hazards) (w : World) : Prop :=
  w.sampled = false ∧ ∀ v6, (z v6).alike = false → (w.fam v6).Apart

/-- Whenever `verify` with counters passes, a rule of an active chain has counted a packet
between the two snapshots of its family. -/
def Device.Earns (d : Device) (args : List (List Char)) (ρ : Reads) (z : Bool → Hazards) : Prop :=
  ∀ o, parseOptions args = .ok o → o.wireOnly = false → ∀ w w', w.Begins z →
    Runs (d.watch ρ z) (run args) w (.ok exitPass) w' →
      ∃ v6, d.Compares args v6 ∧ (w'.fam v6).counted = true

/-- Every family of which the second snapshot is read was read the first time, with the
chain that was named; no chain of it that has counted becomes active; and behind a blank
column no two of its rules are read alike. -/
def Device.Reliable (d : Device) (args : List (List Char)) (ρ : Reads) (z : Bool → Hazards) : Prop :=
  ∀ v6, d.Compares args v6 → ρ.whole true v6 →
    ρ.whole false v6 ∧ (z v6).stale = false ∧ (z v6).swaps = false ∧ ((v6 && ρ.blank) = true → (z v6).alike = false)

section earned
variable {d : Device} {args : List (List Char)} {ρ : Reads} {z : Bool → Hazards}

theorem earns_of_reliable (h : d.Reliable args ρ z) : d.Earns args ρ z := by
  intro o ho hc w w' ⟨hs, happart⟩ hrun
  obtain ⟨fw, hm, b4, b6, a4, a6, pkts, w₁, w₂, w₃, w₄, hb4, hb6, hwin, -, ha4, ha6, -, hne⟩ :=
    (runs_pass_iff ho hc).mp hrun
  have hs₁ : w₁.sampled = false := (counters_sampled hb4).trans hs
  have hs₃ : w₃.sampled = true := by
    obtain ⟨w₀, -, rfl⟩ := hwin
    rfl
  have hs₄ : w₄.sampled = true := (counters_sampled ha4).trans hs₃
  have h4 : totalHits b4.2 a4.2 = 0 ∨ (w₄.fam false).counted = true := by
    refine counters_second hs₃ (fun hsecond => ?_) ha4
    obtain ⟨hfirst, hst, hsw, hal⟩ := h false ⟨o, fw, hm, nofun⟩ hsecond
    have hfirst4 := counters_first hfirst hsw hs (fun hb => ⟨hal hb, happart false (hal hb)⟩) hb4
    exact ⟨hst, window_keeps (spent_keeps hst) hwin (took_other (spent_keeps hst) hb6 hfirst4)⟩
  rcases h4 with h4 | h4
  · cases huse : usesV6 (some fw) (d.stateText "ipv6_mode") with
    | false =>
      rw [huse] at hb6 ha6
      exact absurd (by rw [h4, hb6.1]; rfl) hne
    | true =>
      rw [huse] at hb6 ha6
      obtain ⟨s6, hb6, rfl⟩ := hb6
      obtain ⟨t6, ha6, rfl⟩ := ha6
      refine ⟨true, ⟨o, fw, hm, fun _ => huse⟩, ?_⟩
      have h6 : totalHits s6.2 t6.2 ≠ 0 := fun h6 => hne (by rw [h4]; simpa [snapHits] using h6)
      refine (counters_second hs₄ (fun hsecond => ?_) ha6).resolve_left h6
      obtain ⟨hfirst, hst, hsw, hal⟩ := h true ⟨o, fw, hm, fun _ => huse⟩ hsecond
      have happart₁ : (true && ρ.blank) = true → (z true).alike = false ∧ (w₁.fam true).Apart := by
        intro hb
        have hkeeps : ∀ f f', Family.Step (z true) f f' → f.Apart → f'.Apart := fun _ _ hstep hf =>
          hstep.apart (hal hb) hf
        exact ⟨hal hb, counters_other hkeeps hb4 (happart true (hal hb))⟩
      have hfirst6 := counters_first hfirst hsw hs₁ happart₁ hb6
      exact ⟨hst, counters_other (spent_keeps hst) ha4 (window_keeps (spent_keeps hst) hwin hfirst6)⟩
  · exact ⟨false, ⟨o, fw, hm, nofun⟩, took_other (fun _ _ hstep => hstep.counted) ha6 h4⟩

/-! ### Passing without a count -/

/-- The chains of a family, and the one that is active. Their rules can be printed. -/
structure Chains where
  hook : Option Bool
  chain : Bool → Option Payload
  plain : ∀ b p, chain b = some p → ∀ r ∈ p.rows, r.Plain

namespace Chains

def bare : Chains := ⟨none, fun _ => none, nofun⟩

/-- The family with these chains, where no rule has counted between the snapshots. -/
def family (c : Chains) (m : Stage) : Family := ⟨⟨m, false⟩, c.hook, c.chain⟩

/-- What a snapshot reads of them. -/
def seen (c : Chains) (ρ : Reads) (second v6 : Bool) : List RuleCount :=
  if ρ.rules second v6 && ρ.counters second v6 then
    (((c.hook.bind c.chain).map (·.rows)).getD []).filterMap (RuleCount.readAs (v6 && ρ.blank))
  else []

theorem seen_bare (second v6 : Bool) : bare.seen ρ second v6 = [] := by
  rw [seen]
  split <;> rfl

theorem seen_whole {c : Chains} {second v6 : Bool} (h : ρ.whole second v6) : c.seen ρ second v6 =
    (((c.hook.bind c.chain).map (·.rows)).getD []).filterMap (RuleCount.readAs (v6 && ρ.blank)) := by
  simp [seen, h.1, h.2]

theorem seen_missed {c : Chains} {second v6 : Bool} (h : ¬ ρ.whole second v6) : c.seen ρ second v6 = [] := by
  rw [seen, if_neg]
  exact fun hb => h (Bool.and_eq_true_iff.mp hb)

theorem asked_family (c : Chains) (m : Stage) (second : Bool) (b : Bool) :
    ∃ m', (c.family m).mark ((c.family m).asked second (some b)) = c.family m' := by
  cases second <;> exact ⟨_, rfl⟩

theorem listed_family (c : Chains) (m : Stage) (second : Bool) :
    ∃ m' : Stage, m'.Rest ∧ (c.family m).mark ((c.family m).listed second) = c.family m' := by
  cases second
  · exact ⟨.between, nofun, rfl⟩
  · exact ⟨.outside, nofun, rfl⟩

/-- A chain of the family, or nothing of a chain that is missing, can be printed. -/
theorem printed (c : Chains) (blank v6 b : Bool) : ∃ text, PrintsRows blank ((c.chain b).map (·.rows)) text := by
  cases h : c.chain b with
  | none => exact ⟨[], rfl⟩
  | some p =>
    have hword : Word (payloadChain v6 b).toList := by cases v6 <;> cases b <;> decide
    exact ⟨_, printRows_prints hword (c.plain b p h)⟩

end Chains

theorem payloadChain_inj {v6 b b' : Bool} (h : payloadChain v6 b = payloadChain v6 b') : b = b' := by
  revert h
  cases v6 <;> cases b <;> cases b' <;> decide

/-- The family `v6` has these chains, the other one has none, and none is about to be listed. -/
structure Scene (v6 : Bool) (c : Chains) (sampled : Bool) (w : World) : Prop where
  sampled : w.sampled = sampled
  fam : ∀ v, ∃ m : Stage, m.Rest ∧ w.fam v = (if v = v6 then c else .bare).family m

section scene
variable {v6 v : Bool} {c : Chains} {s : Bool} {w w' : World}

theorem Scene.put (h : Scene v6 c s w) {m : Stage} (hm : m.Rest) :
    Scene v6 c s (w.put v ((if v = v6 then c else .bare).family m)) where
  sampled := h.sampled
  fam v' := by
    by_cases hv : v' = v
    · exact ⟨m, hm, by rw [hv, World.fam_put]⟩
    · obtain ⟨m', hm', hfam⟩ := h.fam v'
      exact ⟨m', hm', (World.fam_put_ne hv).trans hfam⟩

/-- The chains of the family are others. -/
theorem Scene.become (h : Scene v6 c s w) (c' : Chains) {m : Stage} (hm : m.Rest) :
    Scene v6 c' s (w.put v6 (c'.family m)) where
  sampled := h.sampled
  fam v' := by
    by_cases hv : v' = v6
    · exact ⟨m, hm, by rw [hv, World.fam_put, if_pos rfl]⟩
    · obtain ⟨m', hm', hfam⟩ := h.fam v'
      rw [if_neg hv] at hfam ⊢
      exact ⟨m', hm', (World.fam_put_ne hv).trans hfam⟩

/-- A snapshot of families that stay as they are. -/
theorem Scene.read (d : Device) (ρ : Reads) (z : Bool → Hazards) (h : Scene v6 c s w) (v : Bool) :
    ∃ snap w', Runs (d.watch ρ z) (counters v) w snap w' ∧ Scene v6 c s w' ∧
      snap.2 = (if v = v6 then c else .bare).seen ρ s v := by
  obtain ⟨m, -, hm⟩ := h.fam v
  have hput : ∀ m : Stage, m.Rest → Scene v6 c s (w.put v ((if v = v6 then c else .bare).family m)) :=
    fun m hrest => h.put hrest
  generalize (if v = v6 then c else Chains.bare) = c' at hm hput ⊢
  cases hr : ρ.rules s v with
  | false =>
    obtain ⟨m', hrest, hm'⟩ := c'.listed_family m s
    have hread : reads ρ z v (.rules (hookOf v)) w [] (w.put v (c'.family m')) :=
      ⟨w, .refl, by simp [h.sampled, hr], by simp [h.sampled, hr, hm, ← hm', Marks.asked]⟩
    exact ⟨(none, []), _, runs_counters.mpr ⟨[], _, hread, rfl, rfl⟩, hput m' hrest, by simp [Chains.seen, hr]⟩
  | true =>
    have hprints : PrintsHook v (c'.hook.map (payloadChain v))
      (unlines ((hookLines v (c'.hook.map (payloadChain v))).map String.toList)) := .inl rfl
    have hasked : ∀ m', (c'.family m).mark ((c'.family m).asked s c'.hook) = c'.family m' →
        reads ρ z v (.rules (hookOf v)) w (unlines ((hookLines v (c'.hook.map (payloadChain v))).map String.toList))
          (w.put v (c'.family m')) := by
      intro m' hm'
      refine ⟨w, .refl, ?_, ?_⟩
      · rw [h.sampled, hr, if_pos rfl, hm]
        exact hprints
      · rw [h.sampled, hr, if_pos rfl, hm, ← hm']
        rfl
    have hchain := activeChain_prints hprints
    cases hhook : c'.hook with
    | none =>
      obtain ⟨m', hrest, hm'⟩ := c'.listed_family m s
      have hread := hasked m' (hhook ▸ hm')
      rw [hhook] at hread hchain
      refine ⟨(none, []), _, runs_counters.mpr ⟨_, _, hread, by rw [hchain]; exact ⟨rfl, rfl⟩⟩, hput m' hrest, ?_⟩
      rw [Chains.seen, hhook]
      split <;> rfl
    | some b =>
      obtain ⟨m', hm'⟩ := c'.asked_family m s b
      have hread := hasked m' (hhook ▸ hm')
      rw [hhook] at hread hchain
      obtain ⟨m'', hrest, hm''⟩ := c'.listed_family m' s
      have hlists : ∀ text, (if ρ.counters s v then PrintsRows (v && ρ.blank) ((c'.chain b).map (·.rows)) text
          else text = []) → Runs (d.watch ρ z) (counters v) w (some (payloadChain v b), parseCounters text)
            (w.put v (c'.family m'')) := by
        intro text htext
        refine runs_counters.mpr ⟨_, _, hread, ?_⟩
        rw [hchain]
        refine ⟨text, ⟨_, .refl, ?_, ?_⟩, rfl⟩
        · rw [World.sampled_put, h.sampled]
          cases hc : ρ.counters s v with
          | false => simpa [hc] using htext
          | true =>
            rw [hc, if_pos rfl] at htext
            rw [if_pos rfl]
            intro b' hb'
            rw [World.fam_put, ← payloadChain_inj hb']
            exact htext
        · rw [World.sampled_put, h.sampled, World.fam_put, hm'', World.put_put]
      cases hc : ρ.counters s v with
      | false => exact ⟨_, _, hlists [] (by simp [hc]), hput m'' hrest, by simp [Chains.seen, hc]; rfl⟩
      | true =>
        obtain ⟨text, htext⟩ := c'.printed (v && ρ.blank) v b
        refine ⟨_, _, hlists text (by simpa [hc] using htext), hput m'' hrest, ?_⟩
        rw [Chains.seen_whole ⟨hr, hc⟩, hhook, parseCounters_prints htext]
        rfl

/-- The snapshot of IPv6, when that is the other family. -/
theorem Scene.tookBare (d : Device) (ρ : Reads) (z : Bool → Hazards) (h : Scene false c s w) (useV6 : Bool) :
    ∃ snap w', Took (d.watch ρ z) useV6 w snap w' ∧ Scene false c s w' ∧ ∀ x ∈ snap, x.2 = [] := by
  cases useV6 with
  | false => exact ⟨none, w, ⟨rfl, rfl⟩, h, nofun⟩
  | true =>
    obtain ⟨snap, w', hrun, hscene, hrows⟩ := h.read d ρ z true
    refine ⟨some snap, w', ⟨snap, hrun, rfl⟩, hscene, fun x hx => ?_⟩
    cases hx
    exact hrows.trans (Chains.seen_bare s true)

end scene

/-- How the chains of a family can stand at the start, after the first snapshot and at the
second one for a run to pass though no rule counts between the snapshots. -/
structure Decoy (d : Device) (ρ : Reads) (z : Bool → Hazards) (v6 : Bool) where
  start : Chains
  after : Chains
  stop : Chains
  before : List RuleCount
  apart : (z v6).alike = false → (start.family .outside).Apart
  first : ∀ w, Scene v6 start false w → ∃ snap w', Runs (d.watch ρ z) (counters v6) w snap w' ∧
    Scene v6 after false w' ∧ snap.2 = before
  window : ∀ w, Scene v6 after false w → ∃ w', window z w [] w' ∧ Scene v6 stop true w'
  hits : totalHits before (stop.seen ρ true v6) ≠ 0

namespace Decoy

variable {v6 : Bool}

/-- The world before `verify` is started. -/
def world (t : Decoy d ρ z v6) : World := ⟨fun v => (if v = v6 then t.start else .bare).family .outside, false⟩

theorem begins (t : Decoy d ρ z v6) : t.world.Begins z := by
  refine ⟨rfl, fun v hv => ?_⟩
  change ((if v = v6 then t.start else Chains.bare).family .outside).Apart
  by_cases h : v = v6
  · subst h
    rw [if_pos rfl]
    exact t.apart hv
  · rw [if_neg h]
    exact nofun

theorem scene (t : Decoy d ρ z v6) : Scene v6 t.start false t.world := ⟨rfl, fun _ => ⟨.outside, nofun, rfl⟩⟩

/-- The hits of a run that reads its families in turn. -/
theorem passes (t : Decoy d ρ z v6) {useV6 : Bool} (huse : v6 = true → useV6 = true) :
    ∃ b4 b6 a4 a6 w₁ w₂ w₃ w₄ w₅, Runs (d.watch ρ z) (counters false) t.world b4 w₁ ∧
      Took (d.watch ρ z) useV6 w₁ b6 w₂ ∧ Verify.window z w₂ [] w₃ ∧ Runs (d.watch ρ z) (counters false) w₃ a4 w₄ ∧
      Took (d.watch ρ z) useV6 w₄ a6 w₅ ∧ Scene v6 t.stop true w₅ ∧ totalHits b4.2 a4.2 + snapHits b6 a6 ≠ 0 := by
  cases v6 with
  | false =>
    obtain ⟨b4, w₁, hb4, h₁, hb4rows⟩ := t.first _ t.scene
    obtain ⟨b6, w₂, hb6, h₂, -⟩ := h₁.tookBare d ρ z useV6
    obtain ⟨w₃, hwin, h₃⟩ := t.window _ h₂
    obtain ⟨a4, w₄, ha4, h₄, ha4rows⟩ := h₃.read d ρ z false
    obtain ⟨a6, w₅, ha6, h₅, ha6rows⟩ := h₄.tookBare d ρ z useV6
    refine ⟨b4, b6, a4, a6, w₁, w₂, w₃, w₄, w₅, hb4, hb6, hwin, ha4, ha6, h₅, ?_⟩
    have h6 : snapHits b6 a6 = 0 := by
      cases b6 <;> cases a6 <;> simp_all [snapHits, totalHits]
    rw [hb4rows, ha4rows, h6, UInt64.add_zero]
    exact t.hits
  | true =>
    obtain rfl := huse rfl
    obtain ⟨b4, w₁, hb4, h₁, -⟩ := t.scene.read d ρ z false
    obtain ⟨b6, w₂, hb6, h₂, hb6rows⟩ := t.first _ h₁
    obtain ⟨w₃, hwin, h₃⟩ := t.window _ h₂
    obtain ⟨a4, w₄, ha4, h₄, ha4rows⟩ := h₃.read d ρ z false
    obtain ⟨a6, w₅, ha6, h₅, ha6rows⟩ := h₄.read d ρ z true
    refine ⟨b4, some b6, a4, some a6, w₁, w₂, w₃, w₄, w₅, hb4, ⟨b6, hb6, rfl⟩, hwin, ha4, ⟨a6, ha6, rfl⟩, h₅, ?_⟩
    have h4 : totalHits b4.2 a4.2 = 0 := by
      rw [ha4rows, if_neg Bool.false_ne_true, Chains.seen_bare]
      rfl
    rw [h4, UInt64.zero_add, snapHits, hb6rows, ha6rows]
    exact t.hits

end Decoy

theorem leaks_nil : d.leaks [] = false := by
  simp [Device.leaks, Device.evidence, Evidence.leak, drain, Hist.foreign, leakMinPackets]

/-- With such chains a run passes though no rule has counted. -/
theorem Decoy.not_earns {v6 : Bool} (t : Decoy d ρ z v6) (hc : d.Compares args v6) : ¬ d.Earns args ρ z := by
  obtain ⟨o, fw, hm, huse⟩ := hc
  obtain ⟨b4, b6, a4, a6, w₁, w₂, w₃, w₄, w₅, hb4, hb6, hwin, ha4, ha6, hscene, hhits⟩ := t.passes huse
  intro hearns
  obtain ⟨v, -, hcounted⟩ := hearns o hm.options hm.counted t.world w₅ t.begins
    ((runs_pass_iff hm.options hm.counted).mpr
      ⟨fw, hm, b4, b6, a4, a6, [], w₁, w₂, w₃, w₄, hb4, hb6, hwin, fun _ => rfl, ha4, ha6, leaks_nil, hhits⟩)
  obtain ⟨m, -, hfam⟩ := hscene.fam v
  rw [hfam] at hcounted
  cases hcounted

/-! ### Four decoys -/

/-- A chain with a rule that has counted `n` packets. -/
def oneRule (n : UInt64) : Payload := ⟨[⟨"wlan2", "rmnet0", "TTL", n⟩], List.nodup_singleton _⟩

/-- A chain with two rules for one upstream. -/
def twoRules : Payload := ⟨[⟨"rndis0", "rmnet0", "HL", 3⟩, ⟨"wlan2", "rmnet0", "HL", 8⟩], by decide⟩

theorem plain_oneRule {n : UInt64} : ∀ r ∈ (oneRule n).rows, r.Plain := by
  have hwords : Word "TTL".toList ∧ Word "wlan2".toList ∧ Word "rmnet0".toList := by decide
  exact List.forall_mem_singleton.mpr hwords

/-- The chain with five old counts, active as `hook` says. -/
def oldChains (hook : Option Bool) : Chains where
  hook := hook
  chain b := if b then none else some (oneRule 5)
  plain b p h := by
    cases b with
    | false =>
      cases h
      exact plain_oneRule
    | true => cases h

/-- An empty chain and one with a rule that has counted `n` packets. -/
def newChains (b : Bool) (n : UInt64) : Chains where
  hook := some b
  chain b := some (if b then oneRule n else .empty)
  plain b p h := by
    cases b with
    | false =>
      cases h
      exact nofun
    | true =>
      cases h
      exact plain_oneRule

def twoChains : Chains where
  hook := some false
  chain b := if b then none else some twoRules
  plain b p h := by
    cases b with
    | false =>
      cases h
      exact List.forall_mem_cons.mpr
        ⟨⟨by decide, by decide, by decide⟩, List.forall_mem_singleton.mpr ⟨by decide, by decide, by decide⟩⟩
    | true => cases h

/-- Nothing happens in the window. -/
theorem Scene.still {v6 : Bool} {c : Chains} {w : World} (h : Scene v6 c false w) :
    ∃ w', window z w [] w' ∧ Scene v6 c true w' := ⟨_, ⟨w, .refl, rfl⟩, rfl, h.fam⟩

theorem hits_oneRule (blank : Bool) {n : UInt64} (hn : n ≠ 0) :
    totalHits [] ((oneRule n).rows.filterMap (RuleCount.readAs blank)) ≠ 0 := by
  cases blank <;> simpa [oneRule, RuleCount.readAs, totalHits, hitsOf, saturatingSub] using hn

section decoys
variable {v6 : Bool}

/-- The first snapshot misses the old counts. -/
def missedDecoy (d : Device) (z : Bool → Hazards) (hsecond : ρ.whole true v6) (hfirst : ¬ ρ.whole false v6) :
    Decoy d ρ z v6 where
  start := oldChains (some false)
  after := oldChains (some false)
  stop := oldChains (some false)
  before := []
  apart _ b p h := by
    cases b with
    | false =>
      cases h
      decide
    | true => cases h
  first w h := by
    obtain ⟨snap, w', hrun, hscene, hrows⟩ := h.read d ρ z v6
    rw [if_pos rfl, Chains.seen_missed hfirst] at hrows
    exact ⟨snap, w', hrun, hscene, hrows⟩
  window w h := h.still
  hits := by
    rw [Chains.seen_whole hsecond]
    exact hits_oneRule _ (by decide)

/-- A chain with old counts becomes active in the window. -/
def staleDecoy (d : Device) (hsecond : ρ.whole true v6) (hst : (z v6).stale = true) : Decoy d ρ z v6 where
  start := oldChains none
  after := oldChains none
  stop := oldChains (some false)
  before := []
  apart _ b p h := by
    cases b with
    | false =>
      cases h
      decide
    | true => cases h
  first w h := by
    obtain ⟨snap, w', hrun, hscene, hrows⟩ := h.read d ρ z v6
    refine ⟨snap, w', hrun, hscene, hrows.trans ?_⟩
    rw [if_pos rfl, Chains.seen]
    split <;> rfl
  window w h := by
    obtain ⟨m, hrest, hm⟩ := h.fam v6
    rw [if_pos rfl] at hm
    have hstep : World.Step z w (w.put v6 ((oldChains (some false)).family m)) :=
      ⟨v6, _, hm ▸ .hook false (oneRule 5) rfl (.inl hst) (.inr (hrest _)), rfl⟩
    exact ⟨_, ⟨_, .single hstep, rfl⟩, rfl, (h.become _ hrest).fam⟩
  hits := by
    rw [Chains.seen_whole hsecond]
    exact hits_oneRule _ (by decide)

/-- Another chain becomes active, and counts, before the one that was named is listed. -/
theorem swapped_first (d : Device) (hfirst : ρ.whole false v6) (hsw : (z v6).swaps = true) {w : World}
    (h : Scene v6 (newChains false 0) false w) : ∃ snap w', Runs (d.watch ρ z) (counters v6) w snap w' ∧
      Scene v6 (newChains true 1) false w' ∧ snap.2 = [] := by
  obtain ⟨m, -, hm⟩ := h.fam v6
  rw [if_pos rfl] at hm
  obtain ⟨rules, hprints⟩ : ∃ rules, PrintsHook v6 (some (payloadChain v6 false)) rules := ⟨_, .inl rfl⟩
  have hread : reads ρ z v6 (.rules (hookOf v6)) w rules (w.put v6 ((newChains false 0).family (.named false))) := by
    refine ⟨w, .refl, ?_, ?_⟩
    · rw [h.sampled, hfirst.1, if_pos rfl, hm]
      exact hprints
    · rw [h.sampled, hfirst.1, if_pos rfl, hm]
      rfl
  have hhook : Family.Step (z v6) ((newChains false 0).family (.named false))
      ((newChains true 0).family (.named false)) :=
    .hook true (oneRule 0) rfl (.inr (List.forall_mem_singleton.mpr rfl)) (.inl hsw)
  have hcount : Family.Step (z v6) ((newChains true 0).family (.named false))
      ((newChains true 1).family (.named false)) := by
    have hchains : (newChains true 1).family (.named false) =
        { ((newChains true 0).family (.named false)).set true (some ((oneRule 0).count 0)) with counted := false } := by
      simp only [Chains.family, Family.set, newChains, Family.mk.injEq, true_and]
      funext b
      cases b <;> rfl
    rw [hchains]
    exact .count true (oneRule 0) 0 rfl rfl (by decide)
  obtain ⟨text, htext⟩ := (newChains true 1).printed (v6 && ρ.blank) v6 false
  have hlists : reads ρ z v6 (.counters (payloadChain v6 false)) (w.put v6 ((newChains false 0).family (.named false)))
      text (w.put v6 ((newChains true 1).family .between)) := by
    refine ⟨w.put v6 ((newChains true 1).family (.named false)), ?_, ?_, ?_⟩
    · rw [← World.put_put w v6 ((newChains false 0).family (.named false)) ((newChains true 1).family (.named false))]
      refine World.History.put ?_
      rw [World.fam_put]
      exact .tail (.single hhook) hcount
    · rw [World.sampled_put, h.sampled, hfirst.2, if_pos rfl]
      intro b hb
      rw [World.fam_put, ← payloadChain_inj hb]
      exact htext
    · rw [World.sampled_put, h.sampled, World.fam_put, World.put_put]
      rfl
  refine ⟨(some (payloadChain v6 false), parseCounters text), _, runs_counters.mpr ⟨_, _, hread, ?_⟩,
    h.become _ (m := .between) nofun, ?_⟩
  · rw [@activeChain_prints v6 (some false) _ hprints]
    exact ⟨text, hlists, rfl⟩
  · rw [parseCounters_prints htext]
    rfl

def swappedDecoy (d : Device) (hfirst : ρ.whole false v6) (hsecond : ρ.whole true v6) (hsw : (z v6).swaps = true) :
    Decoy d ρ z v6 where
  start := newChains false 0
  after := newChains true 1
  stop := newChains true 1
  before := []
  apart _ b p h := by
    cases b with
    | false =>
      cases h
      decide
    | true =>
      cases h
      decide
  first w h := swapped_first d hfirst hsw h
  window w h := h.still
  hits := by
    rw [Chains.seen_whole hsecond]
    exact hits_oneRule _ (by decide)

/-- Two rules are read alike. -/
def alikeDecoy (d : Device) (hfirst : ρ.whole false v6) (hsecond : ρ.whole true v6)
    (hblank : (v6 && ρ.blank) = true) (hal : (z v6).alike = true) : Decoy d ρ z v6 where
  start := twoChains
  after := twoChains
  stop := twoChains
  before := twoRules.rows.filterMap (RuleCount.readAs true)
  apart h := absurd (hal.symm.trans h) (by decide)
  first w h := by
    obtain ⟨snap, w', hrun, hscene, hrows⟩ := h.read d ρ z v6
    rw [if_pos rfl, Chains.seen_whole hfirst, hblank] at hrows
    exact ⟨snap, w', hrun, hscene, hrows⟩
  window w h := h.still
  hits := by
    rw [Chains.seen_whole hsecond, hblank]
    decide

end decoys

/-- Where `verify` is not reliable a run passes though no rule has counted. -/
theorem not_earns {v6 : Bool} (hc : d.Compares args v6) (hsecond : ρ.whole true v6)
    (h : ¬ (ρ.whole false v6 ∧ (z v6).stale = false ∧ (z v6).swaps = false ∧
      ((v6 && ρ.blank) = true → (z v6).alike = false))) : ¬ d.Earns args ρ z := by
  by_cases hfirst : ρ.whole false v6
  · by_cases hst : (z v6).stale = true
    · exact (staleDecoy d hsecond hst).not_earns hc
    by_cases hsw : (z v6).swaps = true
    · exact (swappedDecoy d hfirst hsecond hsw).not_earns hc
    rw [Bool.not_eq_true] at hst hsw
    obtain ⟨hblank, hal⟩ : (v6 && ρ.blank) = true ∧ (z v6).alike = true := by
      simpa [hfirst, hst, hsw, and_assoc] using h
    exact (alikeDecoy d hfirst hsecond hblank hal).not_earns hc
  · exact (missedDecoy d z hsecond hfirst).not_earns hc

/-- `verify` earns its passes between its snapshots exactly when it reads every family it
compares reliably. -/
theorem pass_earned_iff (d : Device) (args : List (List Char)) (ρ : Reads) (z : Bool → Hazards) :
    d.Earns args ρ z ↔ d.Reliable args ρ z := by
  refine ⟨fun h v6 hc hsecond => ?_, earns_of_reliable⟩
  by_contra hnot
  exact not_earns hc hsecond hnot h

/-- Only the first `-S` of the IPv4 hook chain fails. -/
def missedFirst : Reads where
  rules := fun second v6 => second || v6
  counters := fun _ _ => true
  blank := false

theorem pass_earned_missed : ¬ phone.Earns [] missedFirst fun _ => ⟨false, false, false⟩ := by
  have hcompares : phone.Compares [] false :=
    ⟨{}, ⟨none⟩, ⟨rfl, rfl, ⟨[], rfl, by decide⟩, by decide, rfl⟩, nofun⟩
  exact not_earns hcompares ⟨rfl, rfl⟩ fun h => nomatch h.1.1

end earned

end Nfqttl.Verify
