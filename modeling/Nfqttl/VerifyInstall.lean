/-
Installs as `verify` watches them: whatever is counted meanwhile, whichever of their commands
fail and wherever they are killed, no chain becomes active that has counted.

The tables carry the packet counters the commands keep and reset. `Shows` says which family of
payload chains they show, and `Moves` what a step does to it.
-/
import Mathlib.Logic.Function.Basic
import Nfqttl.Lib.Conc
import Nfqttl.Swap
import Nfqttl.Uninstall
import Nfqttl.VerifyRules
import Nfqttl.VerifyWindow

namespace Nfqttl

open Effect

/-- The packets the rules of each chain have counted, in their order. -/
abbrev Counters := String → List UInt64

namespace Cmd

/-- What a command that succeeds makes of the counters: a rule that is put in has counted
nothing, a rule that stays keeps its count. -/
def counters (t : Table) (n : Counters) : Cmd → Counters
  | .new c | .flush c | .deleteChain c => Function.update n c []
  | .append c _ => Function.update n c (n c ++ [0])
  | .insert c k _ => Function.update n c ((n c).insertIdx (k - 1) 0)
  | .replace c k _ => Function.update n c ((n c).set (k - 1) 0)
  | .check _ _ => n
  | .delete c r => Function.update n c ((n c).eraseIdx (((t.rules c).getD []).idxOf r))
  | .deleteNum c k => Function.update n c ((n c).eraseIdx (k - 1))

theorem counters_frame {x : Cmd} {t : Table} {n : Counters} {c : String} (hc : c ≠ x.chain) :
    x.counters t n c = n c := by
  cases x with
  | check d r => rfl
  | _ => exact Function.update_of_ne hc ..

end Cmd

namespace Verify

/-! ## The tables while they are in use -/

/-- The tables, what their rules have counted, and how many packets those of each family
have counted so far. -/
structure Live where
  tables : Tables
  counters : Bool → Counters
  packets : Bool → Nat

namespace Live

def put (e : Live) (v6 : Bool) (t : Table) (n : Counters) : Live :=
  { e with tables := e.tables.put v6 t, counters := Function.update e.counters v6 n }

/-- A rule of a chain that the hook chain of the family jumps to counts a packet. -/
def Counts (v6 : Bool) (e e' : Live) : Prop :=
  ∃ hook c rs k, (e.tables.fam v6).rules (hookOf v6) = some hook ∧ jumpTo c ∈ hook ∧
    (e.tables.fam v6).rules c = some rs ∧ k < rs.length ∧
    e' = ⟨e.tables, Function.update e.counters v6
        (Function.update (e.counters v6) c ((e.counters v6 c).modify k (· + 1))),
      Function.update e.packets v6 (e.packets v6 + 1)⟩

end Live

/-- The tools on them. Any command may fail, and then changes nothing. -/
def tools : Sem FwSig Live := fun op e a e' =>
  match op, a with
  | .run v6 x, ok =>
    (ok = true ∧ ∃ t, x.exec (e.tables.fam v6) = some t ∧
      e' = e.put v6 t (x.counters (e.tables.fam v6) (e.counters v6))) ∨ ok = false ∧ e' = e
  | .show v6 c, lines => e' = e ∧ (lines = (e.tables.fam v6).listing c ∨ lines = [])

/-- What `install4` or `install6` is called with; `active` is the chain that is active. -/
structure Call where
  v6 : Bool
  links : Links
  distinct : links.pairs.Nodup
  kernel : Bool
  workers : Nat
  value : Nat
  mode : V6Mode
  active : Bool

namespace Call

def prog (fw : Firewall) (x : Call) : Prog FwSig (Bool × Option String) :=
  if x.v6 then fw.install6 x.links x.mode x.value (some (payloadChain true x.active))
  else fw.install4 x.links x.kernel x.workers x.value (some (payloadChain false x.active))

def action (x : Call) : Action :=
  if x.v6 then Firewall.target6 x.mode x.value else Firewall.target4 x.kernel x.workers x.value

/-- The payload chain it builds. -/
def payload (x : Call) : Payload where
  rows := (Firewall.payload x.links x.action).map (ruleCount · 0)
  distinct := by
    rw [Firewall.payload, List.map_map, List.map_map]
    refine x.distinct.map ?_
    intro p q h
    have hin : p.1 = q.1 := congrArg (·.1) h
    have hout : p.2 = q.2 := congrArg (·.2.1) h
    exact Prod.ext hin hout

/-- `rules_ok` vouches for the rules of the active chain. -/
def Vouched (fw : Firewall) (x : Call) (e : Live) : Prop :=
  ∃ links kernel workers value mode,
    ((fw.rulesOk x.v6 (some (payloadChain x.v6 x.active)) links kernel workers value mode).eval iptables
      e.tables).1 = true

/-- It may be made: over rules that are vouched for, with rules that lead apart unless the family is `alike`. -/
def Ready (fw : Firewall) (alike : Bool → Bool) (x : Call) (e : Live) : Prop :=
  x.Vouched fw e ∧ (alike x.v6 = true ∨ x.payload.Apart)

end Call

/-- One install after the other, killed at any time. -/
def installs (fw : Firewall) (alike : Bool → Bool) : System FwSig Call (Bool × Option String) Live where
  body x := .inr <$> x.prog fw
  does _ := tools
  born pid x e e' := pid = 0 ∧ e' = e ∧ x.Ready fw alike e
  gone _ _ e e' := e' = e
  env e e' := ∃ v6, e.Counts v6 e'

/-! ## What the tables show -/

/-- The table of a family shows its hook and its payload chains, with their counts. -/
structure Shows (v6 : Bool) (t : Table) (n : Counters) (f : Family) : Prop where
  hook : (t.rules (hookOf v6)).getD [] = (f.hook.map fun b => jumpTo (payloadChain v6 b)).toList
  chain : ∀ b, (f.chain b).map (·.rows) =
    (t.rules (payloadChain v6 b)).map fun rs => rs.zipWith ruleCount (n (payloadChain v6 b))
  length : ∀ b rs, t.rules (payloadChain v6 b) = some rs → (n (payloadChain v6 b)).length = rs.length

variable {v6 : Bool} {t t' : Table} {n n' : Counters} {f : Family} {z : Hazards}

theorem payloadChain_ne_hook (v6 b : Bool) : payloadChain v6 b ≠ hookOf v6 := by
  cases v6 <;> cases b <;> decide

namespace Shows

/-- `-S` of the hook chain prints what `verify` reads of the family. -/
theorem prints (h : Shows v6 t n f) :
    PrintsHook v6 (f.hook.map (payloadChain v6)) (Text.unlines ((t.listing (hookOf v6)).map String.toList)) := by
  have hhook := h.hook
  cases hr : t.rules (hookOf v6) with
  | none =>
    have hnone : f.hook = none := by
      cases hf : f.hook with
      | none => rfl
      | some b => simp [hr, hf] at hhook
    exact .inr ⟨by rw [hnone]; rfl, by simp [Table.listing, hr, Text.unlines]⟩
  | some rs =>
    rw [hr, Option.getD_some] at hhook
    refine .inl ?_
    rw [Table.listing, hr, hhook, hookLines]
    cases f.hook <;> rfl

/-- Only the active chain is jumped to. -/
theorem hooked (h : Shows v6 t n f) {hook : List Rule} (hr : t.rules (hookOf v6) = some hook) {r : Rule}
    (hj : r ∈ hook) : ∃ b, f.hook = some b ∧ hook = [jumpTo (payloadChain v6 b)] ∧ r = jumpTo (payloadChain v6 b) := by
  have hhook := h.hook
  rw [hr, Option.getD_some] at hhook
  cases hf : f.hook with
  | none =>
    rw [hhook, hf] at hj
    cases hj
  | some b =>
    rw [hf, Option.map_some, Option.toList_some] at hhook
    exact ⟨b, rfl, hhook, List.mem_singleton.mp (hhook ▸ hj)⟩

theorem jump_inj {c d : String} (h : jumpTo c = jumpTo d) : c = d := by
  simpa [jumpTo] using h

/-- The hook chain and the payload chains are as before. -/
theorem frame (h : Shows v6 t n f) (hhook : t'.rules (hookOf v6) = t.rules (hookOf v6))
    (hchain : ∀ b, t'.rules (payloadChain v6 b) = t.rules (payloadChain v6 b) ∧
      n' (payloadChain v6 b) = n (payloadChain v6 b)) : Shows v6 t' n' f where
  hook := by
    rw [hhook]
    exact h.hook
  chain b := by
    rw [(hchain b).1, (hchain b).2]
    exact h.chain b
  length b := by
    rw [(hchain b).1, (hchain b).2]
    exact h.length b

/-- The chain `b` is filled anew, with the counts `ks`. -/
theorem set (h : Shows v6 t n f) (b : Bool) {rs : List Rule} {ks : List UInt64} {p : Payload}
    (hlen : ks.length = rs.length) (hp : p.rows = rs.zipWith ruleCount ks) :
    Shows v6 (t.set (payloadChain v6 b) rs) (Function.update n (payloadChain v6 b) ks) (f.set b (some p)) where
  hook := by
    rw [Table.rules_set_ne _ _ (payloadChain_ne_hook v6 b).symm]
    exact h.hook
  chain b' := by
    by_cases hb : b' = b
    · subst hb
      simp [Family.set, hp]
    · have hne : payloadChain v6 b' ≠ payloadChain v6 b := fun he => hb (payloadChain_inj he)
      rw [Table.rules_set_ne _ _ hne, Function.update_of_ne hne]
      simpa [Family.set, hb] using h.chain b'
  length b' rs' hr := by
    by_cases hb : b' = b
    · subst hb
      rw [Table.rules_set_self, Option.some_inj] at hr
      rw [Function.update_self, hlen, hr]
    · have hne : payloadChain v6 b' ≠ payloadChain v6 b := fun he => hb (payloadChain_inj he)
      rw [Table.rules_set_ne _ _ hne] at hr
      rw [Function.update_of_ne hne]
      exact h.length b' rs' hr

/-- The chain `b` is deleted. -/
theorem drop (h : Shows v6 t n f) (b : Bool) (hb : payloadChain v6 b ≠ "FORWARD") (ks : List UInt64) :
    Shows v6 (t.drop (payloadChain v6 b) hb) (Function.update n (payloadChain v6 b) ks) (f.set b none) where
  hook := by
    rw [Table.rules_drop, if_neg (payloadChain_ne_hook v6 b).symm]
    exact h.hook
  chain b' := by
    by_cases hb' : b' = b
    · subst hb'
      simp [Family.set]
    · have hne : payloadChain v6 b' ≠ payloadChain v6 b := fun he => hb' (payloadChain_inj he)
      rw [Table.rules_drop, if_neg hne, Function.update_of_ne hne]
      simpa [Family.set, hb'] using h.chain b'
  length b' rs hr := by
    rw [Table.rules_drop] at hr
    split at hr
    · cases hr
    · next hne =>
      rw [Function.update_of_ne hne]
      exact h.length b' rs hr

/-- The hook chain is given the rules of `hook`. -/
theorem rewire (h : Shows v6 t n f) (hook : Option Bool) (ks : List UInt64) :
    Shows v6 (t.set (hookOf v6) (hook.map fun b => jumpTo (payloadChain v6 b)).toList)
      (Function.update n (hookOf v6) ks) { f with hook := hook } where
  hook := by simp
  chain b' := by
    rw [Table.rules_set_ne _ _ (payloadChain_ne_hook v6 b'), Function.update_of_ne (payloadChain_ne_hook v6 b')]
    exact h.chain b'
  length b' rs hr := by
    rw [Table.rules_set_ne _ _ (payloadChain_ne_hook v6 b')] at hr
    rw [Function.update_of_ne (payloadChain_ne_hook v6 b')]
    exact h.length b' rs hr

end Shows

/-! ## Commands that make no chain active -/

/-- At most one thing happens to the family, and no rule of it counts. -/
def Family.Turn (z : Hazards) (f f' : Family) : Prop := f' = f ∨ f.Step z f' ∧ f'.toMarks = f.toMarks

/-- A command that neither puts a rule in a chain of the family nor takes one from a payload
chain of it, except that it may empty or delete the chain. -/
def Mild (v6 : Bool) : Cmd → Prop
  | .new _ | .flush _ | .deleteChain _ | .check _ _ => True
  | .deleteNum c _ => ∀ b, c ≠ payloadChain v6 b
  | .append c _ | .insert c _ _ | .replace c _ _ | .delete c _ => c ≠ hookOf v6 ∧ ∀ b, c ≠ payloadChain v6 b

namespace Shows

/-- A chain is emptied, or made. -/
theorem emptied (h : Shows v6 t n f) (c : String) :
    ∃ f', f.Turn z f' ∧ Shows v6 (t.set c []) (Function.update n c []) f' := by
  by_cases hc : ∃ b, c = payloadChain v6 b
  · obtain ⟨b, rfl⟩ := hc
    exact ⟨_, .inr ⟨.flush b, rfl⟩, h.set b rfl rfl⟩
  · have hne : ∀ b, payloadChain v6 b ≠ c := fun b he => hc ⟨b, he.symm⟩
    by_cases hh : c = hookOf v6
    · subst hh
      exact ⟨_, .inr ⟨.unhook, rfl⟩, h.rewire none []⟩
    · refine ⟨f, .inl rfl, h.frame (Table.rules_set_ne _ _ (Ne.symm hh)) fun b => ?_⟩
      exact ⟨Table.rules_set_ne _ _ (hne b), Function.update_of_ne (hne b) ..⟩

theorem deleted (h : Shows v6 t n f) {c : String} (hx : (Cmd.deleteChain c).exec t = some t') :
    ∃ f', f.Turn z f' ∧ Shows v6 t' (Function.update n c []) f' := by
  simp only [Cmd.exec] at hx
  split at hx
  · cases hx
  next hforward =>
  split at hx
  · cases hx
  next hempty =>
  cases hx
  simp only [Bool.or_eq_true, not_or, bne_iff_ne, not_not] at hempty
  obtain ⟨⟨-, hrules⟩, href⟩ := hempty
  by_cases hc : ∃ b, c = payloadChain v6 b
  · obtain ⟨b, rfl⟩ := hc
    refine ⟨_, .inr ⟨.delete b fun hb => href ?_, rfl⟩, h.drop b hforward []⟩
    have hhook := h.hook
    rw [hb] at hhook
    refine Table.referenced_iff.mpr ⟨hookOf v6, [jumpTo (payloadChain v6 b)], ?_, _, List.mem_singleton_self _, rfl⟩
    cases hr : t.rules (hookOf v6) with
    | none => simp [hr] at hhook
    | some rs => exact congrArg some (by simpa [hr] using hhook)
  · have hne : ∀ b, payloadChain v6 b ≠ c := fun b he => hc ⟨b, he.symm⟩
    refine ⟨f, .inl rfl, ?_, fun b => ?_, fun b rs hr => ?_⟩
    · have hhook := h.hook
      rw [Table.rules_drop]
      split
      · next hh =>
        rw [hh, hrules] at hhook
        exact hhook
      · exact hhook
    · rw [Table.rules_drop, if_neg (hne b), Function.update_of_ne (hne b)]
      exact h.chain b
    · rw [Table.rules_drop, if_neg (hne b)] at hr
      rw [Function.update_of_ne (hne b)]
      exact h.length b rs hr

/-- A rule of the hook chain is deleted: it was the jump. -/
theorem unhooked (h : Shows v6 t n f) {k : Nat} (hx : (Cmd.deleteNum (hookOf v6) k).exec t = some t') :
    ∃ f', f.Turn z f' ∧ Shows v6 t' (Function.update n (hookOf v6) ((n (hookOf v6)).eraseIdx (k - 1))) f' := by
  obtain ⟨hook, hr, hx⟩ := Option.bind_eq_some_iff.mp hx
  split at hx
  · next hk =>
    cases hx
    simp only [Bool.and_eq_true, decide_eq_true_eq] at hk
    obtain ⟨b, -, rfl, -⟩ := h.hooked hr (List.getElem_mem (show 0 < hook.length by omega))
    obtain rfl : k = 1 := by
      rw [List.length_singleton] at hk
      omega
    exact ⟨_, .inr ⟨.unhook, rfl⟩, h.rewire none _⟩
  · cases hx

/-- A mild command is at most one thing that happens to the family. -/
theorem mild (h : Shows v6 t n f) {x : Cmd} (hm : Mild v6 x) (hx : x.exec t = some t') :
    ∃ f', f.Turn z f' ∧ Shows v6 t' (x.counters t n) f' := by
  have hframe : x.chain ≠ hookOf v6 → (∀ b, x.chain ≠ payloadChain v6 b) →
      ∃ f', f.Turn z f' ∧ Shows v6 t' (x.counters t n) f' := by
    intro hh hne
    refine ⟨f, .inl rfl, h.frame (Cmd.exec_frame hx hh.symm) fun b => ?_⟩
    exact ⟨Cmd.exec_frame hx (hne b).symm, Cmd.counters_frame (hne b).symm⟩
  cases x with
  | new c =>
    obtain rfl := Firewall.exec_new hx
    exact h.emptied c
  | flush c =>
    obtain rfl := Firewall.exec_flush hx
    exact h.emptied c
  | deleteChain c => exact h.deleted hx
  | check c r =>
    obtain ⟨rs, -, hx⟩ := Option.bind_eq_some_iff.mp hx
    split at hx <;> cases hx
    exact ⟨f, .inl rfl, h⟩
  | deleteNum c k =>
    by_cases hh : c = hookOf v6
    · subst hh
      exact h.unhooked hx
    · exact hframe hh hm
  | append c r | insert c k r | replace c k r | delete c r => exact hframe hm.1 hm.2

end Shows

/-! ## What a step does -/

theorem zipWith_modify (rs : List Rule) (ks : List UInt64) (k : Nat) :
    rs.zipWith ruleCount (ks.modify k (· + 1)) =
      (rs.zipWith ruleCount ks).modify k fun r => { r with pkts := r.pkts + 1 } := by
  refine List.ext_getElem? ?_
  intro i
  rw [List.getElem?_modify, List.getElem?_zipWith, List.getElem?_zipWith, List.getElem?_modify]
  by_cases hk : k = i
  · simp only [hk, if_true]
    cases rs[i]? <;> cases ks[i]? <;> rfl
  · cases rs[i]? <;> cases ks[i]? <;> simp [hk]

theorem zipWith_zeros (rs : List Rule) :
    rs.zipWith ruleCount (List.replicate rs.length 0) = rs.map (ruleCount · 0) := by
  induction rs with
  | nil => rfl
  | cons r rs ih => rw [List.length_cons, List.replicate_succ, List.zipWith_cons_cons, ih, List.map_cons]

/-- A step: every family it changes makes a turn. -/
def Moves (alike : Bool → Bool) (e e' : Live) : Prop :=
  e'.packets = e.packets ∧ ∀ v6 f, Shows v6 (e.tables.fam v6) (e.counters v6) f →
    ∃ f', f.Turn ⟨false, true, alike v6⟩ f' ∧ Shows v6 (e'.tables.fam v6) (e'.counters v6) f'

/-- The tables show families. -/
def Live.Inv (e : Live) : Prop := ∀ v6, ∃ f, Shows v6 (e.tables.fam v6) (e.counters v6) f

variable {alike : Bool → Bool} {e e' : Live}

theorem Moves.refl (alike : Bool → Bool) (e : Live) : Moves alike e e := ⟨rfl, fun _ f h => ⟨f, .inl rfl, h⟩⟩

theorem Moves.inv (h : Moves alike e e') (hi : e.Inv) : e'.Inv := by
  intro v6
  obtain ⟨f, hf⟩ := hi v6
  obtain ⟨f', -, hf'⟩ := h.2 v6 f hf
  exact ⟨f', hf'⟩

/-- What is done to one family. -/
theorem Moves.put (h : ∀ f, Shows v6 (e.tables.fam v6) (e.counters v6) f →
    ∃ f', f.Turn ⟨false, true, alike v6⟩ f' ∧ Shows v6 t n f') : Moves alike e (e.put v6 t n) := by
  refine ⟨rfl, fun v f hf => ?_⟩
  by_cases hv : v = v6
  · subst hv
    simpa [Live.put] using h f hf
  · refine ⟨f, .inl rfl, ?_⟩
    have hother : v = !v6 := by cases v <;> cases v6 <;> simp_all
    subst hother
    simpa [Live.put] using hf

namespace Live.Counts

/-- A rule that counts is one of the active chain. -/
theorem shows (h : e.Counts v6 e') (hf : Shows v6 (e.tables.fam v6) (e.counters v6) f) :
    ∃ b p k, f.hook = some b ∧ f.chain b = some p ∧ k < p.rows.length ∧
      Shows v6 (e'.tables.fam v6) (e'.counters v6) ((f.set b (some (p.count k))).mark f.count) := by
  obtain ⟨hook, c, rs, k, hhook, hj, hrs, hk, rfl⟩ := h
  obtain ⟨b, hb, -, hc⟩ := hf.hooked hhook hj
  obtain rfl := Shows.jump_inj hc
  have hchain := hf.chain b
  rw [hrs, Option.map_some] at hchain
  obtain ⟨p, hp, hrows⟩ := Option.map_eq_some_iff.mp hchain
  have hlen := hf.length b rs hrs
  refine ⟨b, p, k, hb, hp, by rw [hrows, List.length_zipWith]; omega, ?_⟩
  have hset : Shows v6 ((e.tables.fam v6).set (payloadChain v6 b) rs)
      (Function.update (e.counters v6) (payloadChain v6 b) ((e.counters v6 (payloadChain v6 b)).modify k (· + 1)))
      (f.set b (some (p.count k))) :=
    hf.set b (by rw [List.length_modify, hlen]) (by rw [zipWith_modify, ← hrows]; rfl)
  rw [Table.set_rules hrs] at hset
  dsimp only
  rw [Function.update_self]
  exact ⟨hset.hook, hset.chain, hset.length⟩

theorem packets (h : e.Counts v6 e') : e'.packets v6 = e.packets v6 + 1 := by
  obtain ⟨hook, c, rs, k, -, -, -, -, rfl⟩ := h
  simp

/-- The other family is as it was. -/
theorem other (h : e.Counts v6 e') {v : Bool} (hv : v ≠ v6) :
    e'.tables.fam v = e.tables.fam v ∧ e'.counters v = e.counters v ∧ e'.packets v = e.packets v := by
  obtain ⟨hook, c, rs, k, -, -, -, -, rfl⟩ := h
  simp [hv]

theorem inv (h : e.Counts v6 e') (hi : e.Inv) : e'.Inv := by
  intro v
  obtain ⟨f, hf⟩ := hi v
  by_cases hv : v = v6
  · subst hv
    obtain ⟨b, p, k, -, -, -, hf'⟩ := h.shows hf
    exact ⟨_, hf'⟩
  · obtain ⟨htables, hcounters, -⟩ := h.other hv
    exact ⟨f, by rwa [htables, hcounters]⟩

end Live.Counts

/-! ## The terms of an install -/

/-- What an install does at most; nobody else does anything, except that packets are counted. -/
def terms (alike : Bool → Bool) : Terms FwSig Live where
  inv := Live.Inv
  guar pid e e' := Moves alike e e' ∧ (pid ≠ 0 → e' = e)
  asks _ _ _ := True

section install
variable {α β : Type} {fw : Firewall} {b : Bool} {rs : List Rule} {act : Action}

/-- Whatever is counted meanwhile, the program keeps to the terms. -/
abbrev Minds (fw : Firewall) (alike : Bool → Bool) (p : Prog FwSig α) (e : Live) : Prop :=
  Safe (installs fw alike) (terms alike) 0 (fun _ _ => True) p e

/-- What no packet that is counted makes false. -/
abbrev Lasting (fw : Firewall) (alike : Bool → Bool) (A : Live → Prop) : Prop :=
  Stable (installs fw alike) (terms alike) 0 A

theorem lasting_of_counts {A : Live → Prop} (h : ∀ v e e', e.Counts v e' → A e → A e') : Lasting fw alike A := by
  rintro e e' ⟨-, -, ⟨pid, hpid, -, hsame⟩ | ⟨v, hcounts⟩⟩ hA
  · rwa [hsame hpid]
  · exact h v e e' hcounts hA

/-- The chain `b` is not jumped to. -/
def Free (v6 b : Bool) (e : Live) : Prop :=
  jumpTo (payloadChain v6 b) ∉ ((e.tables.fam v6).rules (hookOf v6)).getD []

/-- The chain `b` is being built: its rules are `rs`, and have counted nothing. -/
structure Building (v6 b : Bool) (rs : List Rule) (e : Live) : Prop where
  free : Free v6 b e
  rules : (e.tables.fam v6).rules (payloadChain v6 b) = some rs
  counters : e.counters v6 (payloadChain v6 b) = List.replicate rs.length 0

theorem free_lasting : Lasting fw alike (Free v6 b) := by
  refine lasting_of_counts fun v e e' hcounts h => ?_
  obtain ⟨hook, c, rs, k, -, -, -, -, rfl⟩ := hcounts
  exact h

theorem building_lasting : Lasting fw alike (Building v6 b rs) := by
  refine lasting_of_counts fun v e e' hcounts h => ?_
  obtain ⟨hook, c, rs', k, hhook, hj, -, -, rfl⟩ := hcounts
  refine ⟨h.free, h.rules, ?_⟩
  dsimp only
  by_cases hv : v6 = v
  · subst hv
    have hne : payloadChain v6 b ≠ c := by
      rintro rfl
      exact h.free (by rw [hhook]; exact hj)
    rw [Function.update_self, Function.update_of_ne hne]
    exact h.counters
  · rw [Function.update_of_ne hv]
    exact h.counters

/-- A command, with packets counted before it, and what follows. -/
theorem minds_run {x : Cmd} {k : Bool → Prog FwSig β} {A : Live → Prop} (hA : Lasting fw alike A) (h : A e)
    (hok : ∀ e t, e.Inv → A e → x.exec (e.tables.fam v6) = some t →
      Moves alike e (e.put v6 t (x.counters (e.tables.fam v6) (e.counters v6))) ∧
        Minds fw alike (k true) (e.put v6 t (x.counters (e.tables.fam v6) (e.counters v6))))
    (hfail : ∀ e, A e → Minds fw alike (k false) e) : Minds fw alike (fw.run v6 x >>= k) e := by
  have hrun : Minds fw alike (runCmd v6 x >>= k) e := by
    refine safe_op hA h fun e hi h => ⟨trivial, fun ok e' hd => ?_⟩
    obtain ⟨rfl, t, hx, rfl⟩ | ⟨rfl, rfl⟩ := hd
    · obtain ⟨hmoves, hk⟩ := hok e t hi h hx
      exact ⟨hmoves.inv hi, ⟨hmoves, fun hne => absurd rfl hne⟩, hk⟩
    · exact ⟨hi, ⟨.refl .., fun _ => rfl⟩, hfail _ h⟩
  by_cases hhas : fw.Has v6
  · rwa [Firewall.run_eq hhas]
  · obtain ⟨rfl, hnone⟩ : v6 = true ∧ fw.ip6t = none := by simpa [Firewall.Has] using hhas
    simpa [Firewall.run, Firewall.ip6, hnone] using hfail e h

theorem minds_ret (a : α) : Minds fw alike (.ret a) e := fun _ _ _ => trivial

theorem moves_mild {x : Cmd} (hm : Mild v6 x) (hx : x.exec (e.tables.fam v6) = some t) :
    Moves alike e (e.put v6 t (x.counters (e.tables.fam v6) (e.counters v6))) :=
  .put fun _ hf => hf.mild hm hx

/-- A program of mild commands. -/
theorem minds_mild {xs : List Cmd} {R : α → Prop} {p : Prog FwSig α} (hp : Within (Firewall.Among v6 xs) R p)
    (hm : ∀ x ∈ xs, Mild v6 x) : Minds fw alike p e := by
  refine (hp.safe (A := fun _ => True) (fun _ _ _ _ => trivial) ?_ trivial).mono fun _ _ _ _ => trivial
  intro op e hop hi _
  refine ⟨trivial, fun a e' hd => ?_⟩
  cases op with
  | «show» v c =>
    obtain ⟨rfl, -⟩ := hd
    exact ⟨hi, ⟨.refl .., fun _ => rfl⟩, trivial⟩
  | run v x =>
    obtain ⟨rfl, hx⟩ := hop
    obtain ⟨-, t, ht, rfl⟩ | ⟨-, rfl⟩ := hd
    · have hmoves : Moves alike e _ := moves_mild (hm x hx) ht
      exact ⟨hmoves.inv hi, ⟨hmoves, fun hne => absurd rfl hne⟩, trivial⟩
    · exact ⟨hi, ⟨.refl .., fun _ => rfl⟩, trivial⟩

/-- The chain that is built is given other rules, none of which has counted. -/
theorem Free.set (h : Free v6 b e) (rs : List Rule) :
    Building v6 b rs (e.put v6 ((e.tables.fam v6).set (payloadChain v6 b) rs)
      (Function.update (e.counters v6) (payloadChain v6 b) (List.replicate rs.length 0))) where
  free := by
    rw [Free, Live.put, Tables.fam_put, Table.rules_set_ne _ _ (payloadChain_ne_hook v6 b).symm]
    exact h
  rules := by simp [Live.put]
  counters := by simp [Live.put]

/-- The rule that is put in comes apart from those before it. -/
theorem Building.append (h : Building v6 b rs e) {r : Rule} {q : Payload} {rest : List Rule}
    (hq : q.rows = (rs ++ r :: rest).map (ruleCount · 0)) (hapart : alike v6 = true ∨ q.Apart) :
    Moves alike e (e.put v6 ((e.tables.fam v6).set (payloadChain v6 b) (rs ++ [r]))
      (Function.update (e.counters v6) (payloadChain v6 b) (List.replicate (rs ++ [r]).length 0))) := by
  refine .put fun f hf => ?_
  have hchain := hf.chain b
  rw [h.rules, Option.map_some, h.counters, zipWith_zeros] at hchain
  obtain ⟨p, hp, hrows⟩ := Option.map_eq_some_iff.mp hchain
  have hkeys := q.distinct
  rw [hq, List.map_append, List.map_append, List.map_cons, List.map_cons, ← hrows] at hkeys
  have hnew : (ruleCount r 0).key ∉ p.rows.map RuleCount.key := fun hmem =>
    (List.nodup_append'.mp hkeys).2.2 hmem (List.mem_cons_self ..)
  have hsub : (p.append (ruleCount r 0) hnew).rows.Sublist q.rows := by
    rw [hq, List.append_cons, List.map_append]
    simp [Payload.append, hrows]
  refine ⟨_, .inr ⟨.append b p _ hnew hp rfl (hapart.imp_right fun ha => ha.sublist ((hsub.filter _).map _)), rfl⟩, ?_⟩
  refine hf.set b List.length_replicate ?_
  rw [zipWith_zeros, List.map_append, ← hrows]
  rfl

/-- The hook chain becomes the jump to the chain that was built. -/
theorem Building.activate (h : Building v6 b rs e) (ks : List UInt64) :
    Moves alike e (e.put v6 ((e.tables.fam v6).set (hookOf v6) [jumpTo (payloadChain v6 b)])
      (Function.update (e.counters v6) (hookOf v6) ks)) := by
  refine .put fun f hf => ?_
  have hchain := hf.chain b
  rw [h.rules, Option.map_some, h.counters, zipWith_zeros] at hchain
  obtain ⟨p, hp, hrows⟩ := Option.map_eq_some_iff.mp hchain
  have hzero : p.Zero := by
    intro r hr
    rw [hrows] at hr
    obtain ⟨r, -, rfl⟩ := List.mem_map.mp hr
    rfl
  exact ⟨_, .inr ⟨.hook b p hp (.inr hzero) (.inl rfl), rfl⟩, hf.rewire (some b) ks⟩

/-- `-F` of the chain that is to be built. -/
theorem minds_flush {k : Bool → Prog FwSig β} (h : Free v6 b e)
    (hok : ∀ e, Building v6 b [] e → Minds fw alike (k true) e) (hfail : ∀ e, Minds fw alike (k false) e) :
    Minds fw alike (fw.run v6 (.flush (payloadChain v6 b)) >>= k) e := by
  refine minds_run free_lasting h (fun e t _ h hx => ⟨moves_mild trivial hx, hok _ ?_⟩) fun e _ => hfail e
  obtain rfl := Firewall.exec_flush hx
  exact h.set []

/-- The rules are put in one after the other. -/
theorem minds_appendPairs {k : Bool → Prog FwSig β} {q : Payload} (hapart : alike v6 = true ∨ q.Apart)
    (ps : List (String × String)) (h : Building v6 b rs e)
    (hq : q.rows = (rs ++ ps.map fun p => pairRule p.1 p.2 act).map (ruleCount · 0))
    (hok : ∀ e, Building v6 b (rs ++ ps.map fun p => pairRule p.1 p.2 act) e → Minds fw alike (k true) e)
    (hfail : ∀ e, Minds fw alike (k false) e) :
    Minds fw alike (fw.appendPairs v6 (payloadChain v6 b) act ps >>= k) e := by
  induction ps generalizing rs e with
  | nil => exact hok e (by simpa using h)
  | cons p ps ih =>
    simp only [Firewall.appendPairs, bind_assoc]
    refine minds_run building_lasting h (fun e t _ h hx => ?_) fun e _ => hfail e
    obtain rfl := Firewall.exec_append h.rules hx
    have hcounters : Cmd.counters (e.tables.fam v6) (e.counters v6)
        (.append (payloadChain v6 b) (pairRule p.1 p.2 act)) = Function.update (e.counters v6) (payloadChain v6 b)
          (List.replicate (rs ++ [pairRule p.1 p.2 act]).length 0) := by
      rw [Cmd.counters, h.counters, List.length_append, List.length_singleton, List.replicate_succ']
    rw [hcounters]
    rw [List.map_cons] at hq hok
    refine ⟨h.append hq hapart, ih (h.free.set _) ?_ ?_⟩
    · rwa [List.append_cons] at hq
    · rwa [List.append_cons] at hok

/-- The hook chain is given rules that do not jump to the chain that is built. -/
theorem Building.rehook (h : Building v6 b rs e) {hook : List Rule} (hj : jumpTo (payloadChain v6 b) ∉ hook)
    (ks : List UInt64) :
    Building v6 b rs
      (e.put v6 ((e.tables.fam v6).set (hookOf v6) hook) (Function.update (e.counters v6) (hookOf v6) ks)) where
  free := by
    rw [Free, Live.put, Tables.fam_put, Table.rules_set_self]
    exact hj
  rules := by
    rw [Live.put, Tables.fam_put, Table.rules_set_ne _ _ (payloadChain_ne_hook v6 b)]
    exact h.rules
  counters := by
    dsimp only [Live.put]
    rw [Function.update_self, Function.update_of_ne (payloadChain_ne_hook v6 b)]
    exact h.counters

/-- `-F` and `-A` of the hook chain. -/
theorem minds_refill {k : Bool → Prog FwSig β} (h : Building v6 b rs e) (hk : ∀ ok e, Minds fw alike (k ok) e) :
    Minds fw alike (fw.run v6 (.flush (hookOf v6)) >>= fun flushed =>
      (if !flushed then pure false else fw.run v6 (.append (hookOf v6) (jumpTo (payloadChain v6 b)))) >>= k) e := by
  have hempty : Lasting fw alike fun e => (e.tables.fam v6).rules (hookOf v6) = some [] := by
    refine lasting_of_counts fun v e e' hcounts h => ?_
    obtain ⟨hook, c, rs, k, -, -, -, -, rfl⟩ := hcounts
    exact h
  refine minds_run building_lasting h (fun e t _ h hx => ⟨moves_mild trivial hx, ?_⟩) fun e _ => hk false e
  obtain rfl := Firewall.exec_flush hx
  refine minds_run (building_lasting.and hempty) ⟨h.rehook List.not_mem_nil _, by simp [Live.put]⟩
    (fun e t _ h hx => ?_) fun e _ => hk false e
  obtain rfl := Firewall.exec_append h.2 hx
  exact ⟨h.1.activate _, hk true _⟩

theorem minds_rewire {k : Bool → Prog FwSig β} (active : Option String) (h : Building v6 b rs e)
    (hk : ∀ ok e, Minds fw alike (k ok) e) :
    Minds fw alike (fw.rewire v6 (payloadChain v6 b) active >>= k) e := by
  have hnew : ∀ {k : Bool → Prog FwSig β}, (∀ ok e, Building v6 b rs e → Minds fw alike (k ok) e) →
      Minds fw alike (fw.run v6 (.new (hookOf v6)) >>= k) e := by
    intro k hk
    refine minds_run building_lasting h (fun e t _ h hx => ⟨moves_mild trivial hx, hk true _ ?_⟩) (hk false)
    obtain rfl := Firewall.exec_new hx
    exact h.rehook List.not_mem_nil _
  cases active with
  | none =>
    simp only [Firewall.rewire, Option.isSome_none, Bool.false_eq_true, if_false, Prog.pure_eq, Prog.bind_ret,
      bind_assoc]
    exact hnew fun _ e h => minds_refill h hk
  | some old =>
    simp only [Firewall.rewire, Option.isSome_some, if_true, bind_assoc]
    refine hnew fun _ e h => minds_run building_lasting h (fun e t hi h hx => ?_) fun e h => by
      simpa only [Bool.false_eq_true, if_false, bind_assoc] using minds_refill h hk
    obtain ⟨hook, hr, hx⟩ := Option.bind_eq_some_iff.mp hx
    split at hx
    · next hlen =>
      cases hx
      -- The hook chain has one rule, so the first is all of it.
      obtain ⟨f, hf⟩ := hi v6
      simp only [Bool.and_eq_true, decide_eq_true_eq] at hlen
      obtain ⟨b', -, rfl, -⟩ := hf.hooked hr (List.getElem_mem (show 0 < hook.length by omega))
      exact ⟨h.activate _, hk true _⟩
    · cases hx

/-- What follows once the hook chain is rewired. -/
theorem attaches_mild : ∀ x ∈ Firewall.attaches v6, Mild v6 x := by
  have hforward : "FORWARD" ≠ hookOf v6 ∧ ∀ b, "FORWARD" ≠ payloadChain v6 b := by cases v6 <;> decide
  simp only [Firewall.attaches, List.forall_mem_cons]
  exact ⟨fun b => (payloadChain_ne_hook v6 b).symm, trivial, hforward, hforward,
    fun _ hx => absurd hx List.not_mem_nil⟩

/-- An install of any rules over a hook chain that does not jump to the chain it builds. -/
theorem minds_install {active : Option String} {links : Links} {q : Payload} (hapart : alike v6 = true ∨ q.Apart)
    (hq : q.rows = (Firewall.payload links act).map (ruleCount · 0))
    (hb : Firewall.inactive (payloadChain v6 false) (payloadChain v6 true) active = payloadChain v6 b)
    (h : Free v6 b e) : Minds fw alike
      (fw.install v6 (payloadChain v6 false) (payloadChain v6 true) act links active) e := by
  have hnew : ∀ {k : Bool → Prog FwSig (Bool × Option String)},
      (∀ ok e, Free v6 b e → Minds fw alike (k ok) e) →
      Minds fw alike (fw.run v6 (.new (payloadChain v6 b)) >>= k) e := by
    intro k hk
    refine minds_run free_lasting h (fun e t _ h hx => ⟨moves_mild trivial hx, hk true _ ?_⟩) (hk false)
    obtain rfl := Firewall.exec_new hx
    exact (h.set []).free
  simp only [Firewall.install, hb]
  refine hnew fun _ e h => minds_flush h (fun e h => ?_) fun e => minds_ret _
  refine minds_appendPairs hapart links.pairs h hq (fun e h => ?_) fun e => minds_ret _
  simp only [Bool.not_true, Bool.false_eq_true, if_false, Firewall.activate, bind_assoc]
  refine minds_rewire active h fun ok e => ?_
  cases ok with
  | false => exact minds_ret _
  | true =>
    have hmild : ∀ x ∈ Firewall.attaches v6 ++ active.toList.map .flush, Mild v6 x := by
      intro x hx
      rcases List.mem_append.mp hx with hx | hx
      · exact attaches_mild x hx
      · obtain ⟨old, -, rfl⟩ := List.mem_map.mp hx
        trivial
    refine minds_mild (R := fun _ => True) ?_ hmild
    refine (Firewall.trim_among (List.subset_append_left ..)).seq fun activated => ?_
    cases activated with
    | false => trivial
    | true => exact (Firewall.retire_among (List.subset_append_right ..)).seq fun _ => trivial

/-- `cleanup6` empties and deletes chains. -/
theorem minds_cleanup6 {k : Bool → Prog FwSig β} (hk : ∀ ok, ∃ a, k ok = .ret a) :
    Minds fw alike (fw.cleanup6 >>= k) e := by
  have hret : ∀ {P : FwOp → Prop} ok, Within P (fun _ => True) (k ok) := by
    intro P ok
    obtain ⟨a, ha⟩ := hk ok
    rw [ha]
    trivial
  cases hp : fw.ip6t with
  | none =>
    obtain ⟨a, ha⟩ := hk true
    simpa [Firewall.cleanup6, hp, ha] using minds_ret a
  | some path =>
    have hcleans : ∀ x ∈ Firewall.cleans Firewall.hooks6 Firewall.chains6, Mild true x := by
      have hforward : "FORWARD" ≠ hookOf true ∧ ∀ b, "FORWARD" ≠ payloadChain true b := by decide
      intro x hx
      simp only [Firewall.cleans, List.mem_append, List.mem_flatMap, List.mem_cons, List.not_mem_nil, or_false] at hx
      obtain ⟨c, -, rfl | rfl⟩ | ⟨c, -, rfl | rfl⟩ := hx
      · trivial
      · exact hforward
      · trivial
      · trivial
    refine minds_mild (R := fun _ => True) ?_ hcleans
    simpa [Firewall.cleanup6, hp] using (Firewall.cleanupFam_among Firewall.hooks6 Firewall.chains6).seq hret

/-- The chain that `rules_ok` vouches for is the one that is jumped to. -/
theorem Call.Vouched.free {x : Call} (h : x.Vouched fw e) (hhas : fw.Has x.v6) : Free x.v6 (!x.active) e := by
  obtain ⟨links, kernel, workers, value, mode, hok⟩ := h
  have hspace : ' ' ∉ (payloadChain x.v6 x.active).toList := by cases x.v6 <;> cases x.active <;> decide
  rw [Free, (Firewall.serves_of_rulesOk hhas hspace hok).hook, Option.getD_some, List.mem_singleton]
  exact fun hj => Bool.not_ne_self x.active (payloadChain_inj (Shows.jump_inj hj))

theorem minds_call (x : Call) (h : x.Ready fw alike e) : Minds fw alike (x.prog fw) e := by
  have hother : Firewall.inactive (payloadChain x.v6 false) (payloadChain x.v6 true)
      (some (payloadChain x.v6 x.active)) = payloadChain x.v6 (!x.active) := by
    cases x.v6 <;> cases x.active <;> decide
  have hinstall : fw.Has x.v6 → Minds fw alike (fw.install x.v6 (payloadChain x.v6 false) (payloadChain x.v6 true)
      x.action x.links (some (payloadChain x.v6 x.active))) e :=
    fun hhas => minds_install h.2 rfl hother (h.1.free hhas)
  cases hv : x.v6 with
  | false =>
    simp only [hv, Call.action] at hinstall
    simp only [Call.prog, hv, Bool.false_eq_true, if_false]
    exact hinstall fun h => absurd h Bool.false_ne_true
  | true =>
    simp only [Call.prog, hv, if_true, Firewall.install6]
    split
    · exact minds_cleanup6 fun _ => ⟨_, rfl⟩
    · split
      · exact minds_ret _
      · next hsome =>
        simp only [hv, Call.action] at hinstall
        exact hinstall fun _ => by simpa [Option.isSome_iff_ne_none] using hsome

end install

/-- The terms hold of any number of installs, one after the other. -/
theorem installs_sound (fw : Firewall) (alike : Bool → Bool) : Effect.Sound (installs fw alike) (terms alike)
    (fun pid x e => pid = 0 ∧ x.Ready fw alike e) (fun _ _ _ => True) fun _ _ => True where
  body pid x e hi h := by
    obtain ⟨rfl, hready⟩ := h
    refine safe_bind ((minds_call x hready).mono ?_)
    intro a e hi _
    exact fun _ _ _ => trivial
  born pid x e e' hi _ h := by
    obtain ⟨rfl, rfl, hready⟩ := h
    exact ⟨hi, ⟨.refl .., fun _ => rfl⟩, rfl, hready⟩
  ended pid a e e' hi _ h := by
    obtain rfl : e' = e := h
    exact ⟨hi, ⟨.refl .., fun _ => rfl⟩, trivial⟩
  killed pid e e' hi h := by
    obtain rfl : e' = e := h
    exact ⟨hi, ⟨.refl .., fun _ => rfl⟩, trivial⟩
  env e e' hi h := by
    obtain ⟨v6, hcounts⟩ := h
    exact hcounts.inv hi
  dead pid _ _ _ _ := trivial

/-- The tables show families, and the install under way keeps to its terms. -/
abbrev Keeping (fw : Firewall) (alike : Bool → Bool) (c : Procs FwSig Call (Bool × Option String) Live) : Prop :=
  Orderly (installs fw alike) (terms alike) (fun pid x e => pid = 0 ∧ x.Ready fw alike e) (fun _ _ _ => True)
    (fun _ _ => True) c

/-- **What a step of the installs does.** It is a packet that is counted, or what the terms
allow: every family makes a turn in which no chain becomes active that has counted. -/
theorem Keeping.step {fw : Firewall} {c c' : Procs FwSig Call (Bool × Option String) Live} (h : Keeping fw alike c)
    (hs : (installs fw alike).Step c c') :
    Keeping fw alike c' ∧ (Moves alike c.shared c'.shared ∨ ∃ v6, c.shared.Counts v6 c'.shared) := by
  obtain ⟨hc, hwhat⟩ := Orderly.step (installs_sound fw alike) (fun _ e => ⟨.refl alike e, fun _ => rfl⟩) h hs
  exact ⟨hc, hwhat.imp_left fun ⟨_, hmoves, _⟩ => hmoves⟩

end Verify

end Nfqttl
