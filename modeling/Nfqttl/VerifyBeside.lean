/-
`verify` beside the daemon: while its commands read the tables, installs come and go, one
command of any of them after the other. What they do to the tables is a history over which
its passes are earned.
-/
import Nfqttl.VerifyInstall

namespace Nfqttl.Verify

open Effect

/-! ## Installs and packets while `verify` runs -/

/-- The installs on the tables, and how `verify` stands with each family. -/
structure Beside where
  procs : Procs FwSig Call (Bool × Option String) Live
  marks : Bool → Marks
  sampled : Bool

namespace Beside

/-- No install is under way, and `verify` has read nothing. -/
def idle (e : Live) : Beside := ⟨System.start e, fun _ => ⟨.outside, false⟩, false⟩

def live (b : Beside) : Live := b.procs.shared

def mark (b : Beside) (v6 : Bool) (m : Marks) : Beside := { b with marks := Function.update b.marks v6 m }

/-- A step of an install, or a packet that is counted. While `verify` is about to list the
chain it was named, the hook chain of the family stays as it is. -/
structure Step (fw : Firewall) (alike : Bool → Bool) (b b' : Beside) : Prop where
  step : (installs fw alike).Step b.procs b'.procs
  calm : ∀ v6 c, (b.marks v6).stage = .named c →
    (b'.live.tables.fam v6).rules (hookOf v6) = (b.live.tables.fam v6).rules (hookOf v6)
  marks : ∀ v6, b'.marks v6 =
    if b'.live.packets v6 = b.live.packets v6 then b.marks v6 else (b.marks v6).count
  sampled : b'.sampled = b.sampled

end Beside

/-- The payload chain that is active. -/
def activeOf (v6 : Bool) (t : Table) : Option Bool :=
  [false, true].find? fun b => t.rules (hookOf v6) = some [jumpTo (payloadChain v6 b)]

/-- A command prints what the tables show when it is run, or nothing if it fails. -/
def Beside.reads (ρ : Reads) (fw : Firewall) (alike : Bool → Bool) (v6 : Bool) (what : Listing) (b : Beside)
    (text : List Char) (b' : Beside) : Prop :=
  ∃ b₁, Relation.ReflTransGen (Beside.Step fw alike) b b₁ ∧
    let t := b₁.live.tables.fam v6
    match what with
    -- `verify` asks this of the hook chain only.
    | .rules _ =>
      text = (if ρ.rules b₁.sampled v6 then Text.unlines ((t.listing (hookOf v6)).map String.toList) else []) ∧
      b' = b₁.mark v6 ((b₁.marks v6).asked b₁.sampled (if ρ.rules b₁.sampled v6 then activeOf v6 t else none))
    | .counters c =>
      (if ρ.counters b₁.sampled v6 then
          PrintsRows (v6 && ρ.blank) ((t.rules c).map fun rs => rs.zipWith ruleCount (b₁.live.counters v6 c)) text
        else text = []) ∧
      b' = b₁.mark v6 ((b₁.marks v6).listed b₁.sampled)

/-- The window: installs, and any packets. -/
def Beside.window (fw : Firewall) (alike : Bool → Bool) (b : Beside) (_ : List Packet) (b' : Beside) : Prop :=
  ∃ b₁, Relation.ReflTransGen (Beside.Step fw alike) b b₁ ∧ b' = { b₁ with sampled := true }

/-- `verify` on a device, beside the installs of the daemon. -/
def Device.beside (d : Device) (ρ : Reads) (fw : Firewall) (alike : Bool → Bool) : Sem VerifySig Beside :=
  d.sem (Beside.reads ρ fw alike) (Beside.window fw alike)

/-- What the tables show before `verify` is started. -/
def Live.Begins (alike : Bool → Bool) (e : Live) : Prop :=
  ∀ v6, ∃ f, Shows v6 (e.tables.fam v6) (e.counters v6) f ∧ (alike v6 = false → f.Apart)

/-- Whenever `verify` with counters passes beside installs, a rule of an active chain has counted
a packet between the two snapshots of its family. -/
def Device.EarnsBeside (d : Device) (args : List (List Char)) (ρ : Reads) (fw : Firewall) (alike : Bool → Bool) :
    Prop :=
  ∀ o, parseOptions args = .ok o → o.wireOnly = false → ∀ e b, e.Begins alike →
    Runs (d.beside ρ fw alike) (run args) (.idle e) (.ok exitPass) b →
      ∃ v6, d.Compares args v6 ∧ (b.marks v6).counted = true

/-! ## The installs as a history -/

/-- What may happen to a family beside `verify`. -/
def calm (alike : Bool → Bool) (v6 : Bool) : Hazards := ⟨false, false, alike v6⟩

section beside
variable {fw : Firewall} {alike : Bool → Bool} {v6 : Bool} {b b' : Beside} {w : World} {t t' : Table} {n n' : Counters}
  {f f' : Family}

/-- The hook chain says which chain is active. -/
theorem Shows.hook_eq (h : Shows v6 t n f) (h' : Shows v6 t' n' f')
    (hrules : t'.rules (hookOf v6) = t.rules (hookOf v6)) : f'.hook = f.hook := by
  have heq : (f'.hook.map fun b => jumpTo (payloadChain v6 b)).toList =
      (f.hook.map fun b => jumpTo (payloadChain v6 b)).toList := by
    rw [← h.hook, ← h'.hook, hrules]
  cases hf' : f'.hook <;> cases hf : f.hook
  case none.none => rfl
  case some.some c' c =>
    rw [hf, hf'] at heq
    exact congrArg some (payloadChain_inj (Shows.jump_inj (List.cons.inj heq).1))
  all_goals simp [hf, hf'] at heq

theorem Shows.active (h : Shows v6 t n f) : activeOf v6 t = f.hook := by
  have hne : jumpTo (payloadChain v6 true) ≠ jumpTo (payloadChain v6 false) := by cases v6 <;> decide
  have hhook := h.hook
  cases hr : t.rules (hookOf v6) with
  | none => cases hf : f.hook <;> simp_all [activeOf]
  | some hook =>
    rw [hr, Option.getD_some] at hhook
    cases hf : f.hook with
    | none => simp [activeOf, hr, hhook, hf]
    | some c => cases c <;> simp [activeOf, hr, hhook, hf, hne]

/-- A turn in which the chain that was named stays the active one. -/
theorem Family.Turn.calm {a : Bool} (h : f.Turn ⟨false, true, a⟩ f')
    (hcalm : ∀ c, f.stage = .named c → f'.hook = f.hook) :
    Relation.ReflTransGen (Family.Step ⟨false, false, a⟩) f f' := by
  obtain rfl | ⟨hstep, -⟩ := h
  · exact .refl
  cases hstep with
  | flush b => exact .single (.flush b)
  | append b p r hr hp hz ha => exact .single (.append b p r hr hp hz ha)
  | delete b hb => exact .single (.delete b hb)
  | unhook => exact .single .unhook
  | count b p k hb hp hk => exact .single (.count b p k hb hp hk)
  | hook b p hp hz hs =>
    by_cases hb : f.hook = some b
    · rw [show { f with hook := some b } = f by rw [← hb]]
    · exact .single (.hook b p hp hz (.inr fun hst => hb (hcalm _ hst).symm))

/-- What happens to each family is a history of the world. -/
theorem World.History.both {z : Bool → Hazards} {g : Bool → Family}
    (h : ∀ v, Relation.ReflTransGen (Family.Step (z v)) (w.fam v) (g v)) : World.History z w ⟨g, w.sampled⟩ := by
  have hsecond : World.History z (w.put false (g false)) ((w.put false (g false)).put true (g true)) :=
    .put (by rw [show (w.put false (g false)).fam true = w.fam true from w.fam_put_not false _]; exact h true)
  have hworld : (w.put false (g false)).put true (g true) = ⟨g, w.sampled⟩ := by
    have hfam : ((w.put false (g false)).put true (g true)).fam = g := by
      funext v
      cases v <;> rfl
    rw [← hfam]
    rfl
  exact (World.History.put (h false)).trans (hworld ▸ hsecond)

/-- The tables show the families of the world, `verify` stands with both as it does in the
world, and the installs keep to their terms. -/
structure Mirrors (fw : Firewall) (alike : Bool → Bool) (b : Beside) (w : World) : Prop where
  shows : ∀ v6, Shows v6 (b.live.tables.fam v6) (b.live.counters v6) (w.fam v6)
  marks : ∀ v6, (w.fam v6).toMarks = b.marks v6
  sampled : w.sampled = b.sampled
  keeping : Keeping fw alike b.procs

namespace Mirrors

/-- A step beside `verify` is a history in which no chain becomes active that has counted. -/
theorem step (h : Mirrors fw alike b w) (hs : Beside.Step fw alike b b') :
    ∃ w', World.History (calm alike) w w' ∧ Mirrors fw alike b' w' := by
  obtain ⟨hkeeping, ⟨hpackets, hmoves⟩ | ⟨v6, hcounts⟩⟩ := h.keeping.step hs.step
  · have hturns : ∀ v, ∃ f', (w.fam v).Turn ⟨false, true, alike v⟩ f' ∧
        Shows v (b'.live.tables.fam v) (b'.live.counters v) f' := fun v => hmoves v _ (h.shows v)
    choose g hturn hshows using hturns
    refine ⟨⟨g, w.sampled⟩, .both fun v => (hturn v).calm fun c hc => ?_, hshows, fun v => ?_, ?_, hkeeping⟩
    · have hstage : (b.marks v).stage = .named c := h.marks v ▸ hc
      exact (h.shows v).hook_eq (hshows v) (hs.calm v c hstage)
    · have hsame : b'.live.packets v = b.live.packets v := congrFun hpackets v
      rw [hs.marks, if_pos hsame, ← h.marks]
      exact (hturn v).elim (fun heq => heq ▸ rfl) fun hstep => hstep.2
    · rw [hs.sampled, ← h.sampled]
  · obtain ⟨c, p, k, hhook, hchain, hk, hshows⟩ := hcounts.shows (h.shows v6)
    refine ⟨_, .single ⟨v6, _, .count c p k hhook hchain hk, rfl⟩, fun v => ?_, fun v => ?_, ?_, hkeeping⟩
    · by_cases hv : v = v6
      · subst hv
        rwa [World.fam_put]
      · obtain ⟨htables, hcounters, -⟩ := hcounts.other hv
        rw [Beside.live, htables, hcounters, World.fam_put_ne hv]
        exact h.shows v
    · have hmarks := hs.marks v
      by_cases hv : v = v6
      · subst hv
        rw [if_neg (by rw [Beside.live, hcounts.packets]; exact Nat.succ_ne_self _)] at hmarks
        rw [World.fam_put, hmarks, ← h.marks]
        rfl
      · have hsame : b'.live.packets v = b.live.packets v := (hcounts.other hv).2.2
        rw [if_pos hsame] at hmarks
        rw [World.fam_put_ne hv, hmarks, h.marks]
    · rw [World.sampled_put, hs.sampled, h.sampled]

theorem steps (h : Mirrors fw alike b w) (hs : Relation.ReflTransGen (Beside.Step fw alike) b b') :
    ∃ w', World.History (calm alike) w w' ∧ Mirrors fw alike b' w' := by
  induction hs with
  | refl => exact ⟨w, .refl, h⟩
  | tail _ hs ih =>
    obtain ⟨w₁, hist₁, h₁⟩ := ih
    obtain ⟨w₂, hist₂, h₂⟩ := h₁.step hs
    exact ⟨w₂, hist₁.trans hist₂, h₂⟩

/-- `verify` goes on to stand with the family as `m` says. -/
theorem mark (h : Mirrors fw alike b w) (v6 : Bool) (m : Marks) :
    Mirrors fw alike (b.mark v6 m) (w.put v6 ((w.fam v6).mark m)) where
  shows v := by
    by_cases hv : v = v6
    · subst hv
      rw [World.fam_put]
      exact ⟨(h.shows v).hook, (h.shows v).chain, (h.shows v).length⟩
    · rw [World.fam_put_ne hv]
      exact h.shows v
  marks v := by
    by_cases hv : v = v6
    · subst hv
      simp [Beside.mark, Family.mark]
    · rw [World.fam_put_ne hv, h.marks]
      simp [Beside.mark, hv]
  sampled := h.sampled
  keeping := h.keeping

/-- What is read beside installs is what may be read over a history. -/
theorem reads {ρ : Reads} {what : Listing} {text : List Char} (h : Mirrors fw alike b w)
    (hr : Beside.reads ρ fw alike v6 what b text b') :
    ∃ w', Verify.reads ρ (calm alike) v6 what w text w' ∧ Mirrors fw alike b' w' := by
  obtain ⟨b₁, hsteps, hr⟩ := hr
  obtain ⟨w₁, hist, h₁⟩ := h.steps hsteps
  have hshows := h₁.shows v6
  cases what with
  | rules c =>
    obtain ⟨htext, rfl⟩ := hr
    refine ⟨_, ⟨w₁, hist, ?_, rfl⟩, ?_⟩
    · rw [h₁.sampled, htext]
      split
      · exact hshows.prints
      · rfl
    · rw [h₁.marks, h₁.sampled, hshows.active]
      exact h₁.mark v6 _
  | counters c =>
    obtain ⟨htext, rfl⟩ := hr
    refine ⟨_, ⟨w₁, hist, ?_, rfl⟩, ?_⟩
    · rw [h₁.sampled]
      split
      · next hcounters =>
        rw [if_pos hcounters] at htext
        rintro c' rfl
        rwa [hshows.chain]
      · next hcounters => rwa [if_neg hcounters] at htext
    · rw [h₁.marks, h₁.sampled]
      exact h₁.mark v6 _

theorem window {pkts : List Packet} (h : Mirrors fw alike b w) (hr : Beside.window fw alike b pkts b') :
    ∃ w', Verify.window (calm alike) w pkts w' ∧ Mirrors fw alike b' w' := by
  obtain ⟨b₁, hsteps, rfl⟩ := hr
  obtain ⟨w₁, hist, h₁⟩ := h.steps hsteps
  exact ⟨_, ⟨w₁, hist, rfl⟩, h₁.shows, h₁.marks, rfl, h₁.keeping⟩

/-- A run of `verify` beside installs is one over a history. -/
theorem runs {d : Device} {ρ : Reads} {α : Type} {p : Prog VerifySig α} {a : α} (h : Mirrors fw alike b w)
    (hr : Runs (d.beside ρ fw alike) p b a b') :
    ∃ w', Runs (d.watch ρ (calm alike)) p w a w' ∧ Mirrors fw alike b' w' := by
  refine Runs.simulates (M := Mirrors fw alike) ?_ h hr
  intro o b a b' w h hr
  cases o with
  | out v6 what => exact h.reads hr
  | receive taps ms =>
    have hwindow : Beside.window fw alike b a b' := hr
    exact h.window hwindow
  | sleep ms =>
    have hwindow : Beside.window fw alike b [] b' := hr
    exact h.window hwindow
  | _ =>
    obtain ⟨ha, rfl⟩ := hr
    exact ⟨w, ⟨ha, rfl⟩, h⟩

/-- Before `verify` is started. -/
theorem idle {e : Live} {g : Bool → Family} (h : ∀ v6, Shows v6 (e.tables.fam v6) (e.counters v6) (g v6)) :
    Mirrors fw alike (.idle e) ⟨fun v6 => (g v6).mark ⟨.outside, false⟩, false⟩ where
  shows v6 := ⟨(h v6).hook, (h v6).chain, (h v6).length⟩
  marks _ := rfl
  sampled := rfl
  keeping := ⟨fun v6 => ⟨_, h v6⟩, fun _ => trivial⟩

end Mirrors

/-! ## Passes -/

/-- Every command of `verify` succeeds. -/
def allRead : Reads := ⟨fun _ _ => true, fun _ _ => true, false⟩

/-- A snapshot while nothing happens. -/
theorem runs_still {d : Device} {e : Live} {c : Bool} {p : Payload} (he : b.live = e)
    (h : Shows false (e.tables.fam false) (e.counters false) f) (hhook : f.hook = some c) (hp : f.chain c = some p)
    (hplain : ∀ r ∈ p.rows, r.Plain) :
    ∃ m, Runs (d.beside allRead fw alike) (counters false) b (some (payloadChain false c), p.rows)
      (b.mark false m) := by
  subst he
  have hchain := activeChain_prints h.prints
  rw [hhook, Option.map_some] at hchain
  have hword : Word (payloadChain false c).toList := by cases c <;> decide
  have htext : PrintsRows false (some p.rows) _ := printRows_prints hword hplain
  obtain ⟨m₁, hrules⟩ : ∃ m₁, Beside.reads allRead fw alike false (.rules (hookOf false)) b
      (Text.unlines (((b.live.tables.fam false).listing (hookOf false)).map String.toList)) (b.mark false m₁) :=
    ⟨_, b, .refl, rfl, rfl⟩
  obtain ⟨m₂, hlists⟩ : ∃ m₂, Beside.reads allRead fw alike false (.counters (payloadChain false c)) (b.mark false m₁)
      (printRows false (payloadChain false c) p.rows) (b.mark false m₂) := by
    refine ⟨m₁.listed b.sampled, b.mark false m₁, .refl, ?_, by simp [Beside.mark]⟩
    have hrows := h.chain c
    rw [hp, Option.map_some] at hrows
    rw [hrows] at htext
    exact htext
  refine ⟨m₂, runs_counters.mpr ⟨_, _, hrules, ?_⟩⟩
  rw [hchain]
  refine ⟨_, hlists, ?_⟩
  rw [parseCounters_prints htext]
  simp

/-- Tables with one rule, which has counted no packet. -/
def served : Live where
  tables := ⟨((Table.bare.set "FORWARD" [jumpTo chainHook]).set chainHook [jumpTo chainA]).set chainA
    [pairRule "wlan2" "rmnet0" (.jump "TTL" ["--ttl-set", "64"])], Table.bare⟩
  counters v6 c := if !v6 && c = chainA then [0] else []
  packets _ := 0

/-- What they show. -/
def servedFamily (v6 : Bool) : Family :=
  ⟨⟨.outside, false⟩, if v6 then none else some false, fun b => if v6 || b then none else some (oneRule 0)⟩

theorem shows_served (v6 : Bool) : Shows v6 (served.tables.fam v6) (served.counters v6) (servedFamily v6) where
  hook := by cases v6 <;> rfl
  chain b := by cases v6 <;> cases b <;> rfl
  length b rs hr := by
    cases v6 <;> cases b <;> cases hr
    rfl

/-- Beside installs a run may pass: here a packet is counted in the window. -/
theorem runs_served :
    ∃ b, Runs (phone.beside allRead ⟨none⟩ fun _ => true) (run []) (.idle served) (.ok exitPass) b := by
  obtain ⟨m, hfirst⟩ : ∃ m, Runs (phone.beside allRead ⟨none⟩ fun _ => true) (counters false) (.idle served)
      (some chainA, (oneRule 0).rows) ((Beside.idle served).mark false m) :=
    runs_still (b := .idle served) (e := served) rfl (shows_served false) rfl rfl plain_oneRule
  obtain ⟨e, hcounts⟩ : ∃ e, served.Counts false e :=
    ⟨_, [jumpTo chainA], chainA, _, 0, rfl, List.mem_singleton_self _, rfl, by decide, rfl⟩
  have htables : e.tables = served.tables := by
    obtain ⟨_, _, _, _, -, -, -, -, rfl⟩ := hcounts
    rfl
  let marks := ((Beside.idle served).mark false m).marks
  let after : Beside := ⟨⟨e, fun _ => none⟩, fun v6 => if e.packets v6 = 0 then marks v6 else (marks v6).count, false⟩
  have hstep : Beside.Step ⟨none⟩ (fun _ => true) ((Beside.idle served).mark false m) after :=
    ⟨.env ⟨false, hcounts⟩, fun v6 _ _ => congrArg (fun s => (s.fam v6).rules (hookOf v6)) htables, fun _ => rfl, rfl⟩
  obtain ⟨c, p, k, hhook, hp, hk, hshows⟩ := hcounts.shows (shows_served false)
  cases hhook
  cases hp
  obtain rfl : k = 0 := Nat.lt_one_iff.mp hk
  have hplain : ∀ r ∈ ((oneRule 0).count 0).rows, r.Plain := fun r hr => plain_oneRule (n := 1) r hr
  obtain ⟨m', hsecond⟩ : ∃ m', Runs (phone.beside allRead ⟨none⟩ fun _ => true) (counters false)
      { after with sampled := true } (some chainA, ((oneRule 0).count 0).rows)
      (Beside.mark { after with sampled := true } false m') :=
    runs_still (b := { after with sampled := true }) (e := e) rfl hshows rfl rfl hplain
  have hmeasures : phone.Measures [] {} ⟨none⟩ := ⟨rfl, rfl, ⟨[], rfl, by decide⟩, by decide, rfl⟩
  exact ⟨_, (runs_pass_iff rfl rfl).mpr ⟨⟨none⟩, hmeasures, _, none, _, none, [], _, _, _, _, hfirst, ⟨rfl, rfl⟩,
    ⟨after, .single hstep, rfl⟩, fun _ => rfl, hsecond, ⟨rfl, rfl⟩, leaks_nil, by decide⟩⟩

/-- **Beside installs `verify` earns its passes.** Where it reads every family it compares
reliably, it passes only if a rule of an active chain has counted a packet between its
snapshots, whatever installs are started, go on, fail and are killed around its commands. -/
theorem pass_earned_beside (d : Device) (args : List (List Char)) (ρ : Reads) (fw : Firewall) (alike : Bool → Bool)
    (h : d.Reliable args ρ (calm alike)) : d.EarnsBeside args ρ fw alike := by
  intro o ho hc e b hbegins hrun
  choose g hshows hapart using hbegins
  obtain ⟨w', hrun', hm⟩ := (Mirrors.idle hshows).runs hrun
  have hbegins : World.Begins (calm alike) ⟨fun v6 => (g v6).mark ⟨.outside, false⟩, false⟩ := ⟨rfl, hapart⟩
  obtain ⟨v6, hcompares, hcounted⟩ := earns_of_reliable h o ho hc _ w' hbegins hrun'
  refine ⟨v6, hcompares, ?_⟩
  rw [← hm.marks]
  exact hcounted

theorem pass_earned_beside_phone :
    ∃ b, Runs (phone.beside allRead ⟨none⟩ fun _ => true) (run []) (.idle served) (.ok exitPass) b ∧
      ∃ v6, phone.Compares [] v6 ∧ (b.marks v6).counted = true := by
  obtain ⟨b, hrun⟩ := runs_served
  have hreliable : phone.Reliable [] allRead (calm fun _ => true) := fun v6 _ _ =>
    ⟨⟨rfl, rfl⟩, rfl, rfl, fun h => absurd h (by simp [allRead])⟩
  exact ⟨b, hrun, pass_earned_beside phone [] allRead ⟨none⟩ _ hreliable {} rfl rfl served b
    (fun v6 => ⟨servedFamily v6, shows_served v6, nofun⟩) hrun⟩

end beside

end Nfqttl.Verify
