/-
What a pass of `verify` says of the rules: whether a rule that normalises has counted a
packet, or only one that drops them.

The snapshots are those of payload chains as `install4` and `install6` build them, which
do not change while `verify` runs; the counts of their rules are any numbers. ip6tables
prints a word in the opt column or leaves it blank.
-/
import Mathlib.Algebra.BigOperators.Group.List.Basic
import Nfqttl.Install
import Nfqttl.Net
import Nfqttl.VerifyRun

namespace Nfqttl.Verify

open Effect Text

/-! ## The rules of an installation -/

/-- What `-L` shows of a rule that has counted `n` packets. -/
def ruleCount (r : Rule) (n : UInt64) : RuleCount where
  input := ((r.conds.find? (·.opt = .i)).map (·.arg)).getD "*"
  output := ((r.conds.find? (·.opt = .o)).map (·.arg)).getD "*"
  target := (r.target?).getD ""
  pkts := n

/-- What the payload chains were built from, the active one of each family, what their
rules have counted at the two snapshots, `true` for the second, and whether ip6tables
leaves the opt column blank. -/
structure Setup where
  config : Config
  default : List String
  addrs : List String
  live : List String
  kernel : Bool
  workers : Nat
  ttl : Nat
  mode : V6Mode
  hl : Nat
  active : Bool → Bool
  pkts : Bool → Bool → String × String → UInt64
  blank : Bool

namespace Setup

def links (s : Setup) : Links := classify s.config s.default s.addrs s.live

def action (s : Setup) (v6 : Bool) : Action :=
  if v6 then Firewall.target6 s.mode s.hl else Firewall.target4 s.kernel s.workers s.ttl

/-- The chain is there: `install6` removes the IPv6 rules in the modes that pass. -/
def installed (s : Setup) (v6 : Bool) : Bool := !(v6 && s.mode.isPass)

def hooked (s : Setup) (v6 : Bool) : Option String :=
  if s.installed v6 then some (payloadChain v6 (s.active v6)) else none

/-- The rule of a pair at a snapshot. -/
def row (s : Setup) (second v6 : Bool) (p : String × String) : RuleCount :=
  ruleCount (pairRule p.1 p.2 (s.action v6)) (s.pkts second v6 p)

/-- The rules of the active chain, as `Firewall.payload` builds them. -/
def rows (s : Setup) (second v6 : Bool) : Option (List RuleCount) :=
  if s.installed v6 then some (s.links.pairs.map (s.row second v6)) else none

/-- Some rule that normalises has counted more at the second snapshot. -/
def Matched (s : Setup) : Prop :=
  ∃ v6, s.installed v6 = true ∧ (∃ t ∈ (["TTL", "HL", "NFQUEUE"] : List String), ∃ opts, s.action v6 = .jump t opts) ∧
    ∃ p ∈ s.links.pairs, s.pkts false v6 p < s.pkts true v6 p

/-- Every command succeeds, and the chains stay what they are. -/
def reads (s : Setup) (v6 : Bool) (what : Listing) (second : Bool) (text : List Char) (second' : Bool) : Prop :=
  second' = second ∧
    match what with
    | .rules _ => PrintsHook v6 (s.hooked v6) text
    | .counters c => some c = s.hooked v6 → PrintsRows (v6 && s.blank) (s.rows second v6) text

end Setup

/-- What the taps of a run deliver of a sample. -/
def Device.seen (d : Device) (args : List (List Char)) (sample : List Packet) : List Packet :=
  match parseOptions args with
  | .ok o => if d.taps o = [] then [] else sample
  | .error _ => []

/-- `verify` on a device, with given snapshots and a given sample; the state says whether
the window has passed. -/
def Device.compare (d : Device) (args : List (List Char)) (s : Setup) (sample : List Packet) : Sem VerifySig Bool :=
  d.sem s.reads fun _ pkts second => pkts = d.seen args sample ∧ second = true

/-! ## Hits -/

namespace Setup

variable (s : Setup)

/-- The pair whose rule is taken for the rule of `p` as it was before. Behind a blank column the rules of one upstream
are read alike, and the first of them is found. -/
def partner (v6 : Bool) (p : String × String) : String × String :=
  if v6 && s.blank then (s.links.pairs.find? fun q => q.2 == p.2).getD p else p

/-- How much the count of a rule is taken to have grown. -/
def increase (v6 : Bool) (p : String × String) : UInt64 :=
  saturatingSub (s.pkts true v6 p) (s.pkts false v6 (s.partner v6 p))

/-- The count of a rule of the family has grown. -/
def Grew (v6 : Bool) : Prop := ∃ p ∈ s.links.pairs, s.pkts false v6 p < s.pkts true v6 p

/-- The target of the rules of a family. -/
def target (v6 : Bool) : String :=
  if v6 then if s.mode = .normalize then "HL" else "DROP" else if s.kernel then "TTL" else "NFQUEUE"

theorem action_target (v6 : Bool) : ∃ opts, s.action v6 = .jump (s.target v6) opts := by
  cases v6 with
  | true => by_cases hm : s.mode = .normalize <;> simp [action, target, Firewall.target6, hm]
  | false =>
    cases hk : s.kernel with
    | true => simp [action, target, Firewall.target4, hk]
    | false => by_cases hw : s.workers > 1 <;> simp [action, target, Firewall.target4, hk, hw]

theorem row_eq (second v6 : Bool) (p : String × String) :
    s.row second v6 p = ⟨p.1, p.2, s.target v6, s.pkts second v6 p⟩ := by
  obtain ⟨opts, h⟩ := s.action_target v6
  rw [row, h]
  rfl

theorem pairs_nodup : s.links.pairs.Nodup := classify_pairs_nodup ..

theorem keys_nodup (second v6 : Bool) : ((s.links.pairs.map (s.row second v6)).map RuleCount.key).Nodup := by
  rw [List.map_map]
  refine s.pairs_nodup.map ?_
  intro p q h
  simp only [Function.comp_apply, row_eq, RuleCount.key, Prod.mk.injEq, and_true] at h
  exact Prod.ext h.1 h.2

/-- What is read of the rules at a snapshot. -/
def shown (second v6 : Bool) : List RuleCount :=
  (s.links.pairs.map (s.row second v6)).filterMap (RuleCount.readAs (v6 && s.blank))

theorem partner_self {v6 : Bool} (h : (v6 && s.blank) = false) (p : String × String) : s.partner v6 p = p := by
  rw [partner, h, if_neg Bool.false_ne_true]

theorem hitsOf_row {v6 : Bool} (h : (v6 && s.blank) = false) {p : String × String} (hp : p ∈ s.links.pairs) :
    hitsOf (s.links.pairs.map (s.row false v6)) (s.row true v6 p) = s.increase v6 p := by
  have hsame : (s.row true v6 p).same = (s.row false v6 p).same := by
    simp only [row_eq]
    rfl
  rw [hitsOf, hsame, find_same (s.keys_nodup false v6) (List.mem_map_of_mem hp), increase, s.partner_self h]
  simp only [row_eq]
  rfl

/-- A rule that normalises, as it is read behind a blank column. -/
def shifted (second : Bool) (p : String × String) : RuleCount := ⟨p.2, anywhere, "HL", s.pkts second true p⟩

theorem hitsOf_shifted (hb : s.blank = true) {p : String × String} (hp : p ∈ s.links.pairs) :
    hitsOf (s.links.pairs.map (s.shifted false)) (s.shifted true p) = s.increase true p := by
  have hsame : ((s.shifted true p).same ∘ s.shifted false) = fun q => q.2 == p.2 := by
    funext q
    simp [RuleCount.same, shifted]
  have hfound : (s.links.pairs.find? fun q => q.2 == p.2).isSome := List.find?_isSome.mpr ⟨p, hp, beq_self_eq_true p.2⟩
  obtain ⟨q, hq⟩ := Option.isSome_iff_exists.mp hfound
  rw [hitsOf, List.find?_map, hsame, increase, partner, hb, Bool.and_self, if_pos rfl, hq]
  rfl

/-- Rules that drop are not read at all behind a blank column. -/
theorem shown_blank (hb : s.blank = true) (second : Bool) :
    s.shown second true = if s.mode = .normalize then s.links.pairs.map (s.shifted second) else [] := by
  rw [shown, List.filterMap_map, hb, Bool.and_self]
  split
  · next hn =>
    rw [← List.filterMap_eq_map]
    refine List.filterMap_congr fun p _ => ?_
    simp [row_eq, target, hn, RuleCount.readAs, shifted]
  · next hn =>
    refine List.filterMap_eq_nil_iff.mpr fun p _ => ?_
    simp [row_eq, target, hn, RuleCount.readAs]

/-- The hits of a family are what its rules' counts are taken to have grown. -/
theorem totalHits_rows {v6 : Bool} (h : (v6 && s.blank) = true → s.mode = .normalize) :
    totalHits (s.shown false v6) (s.shown true v6) = (s.links.pairs.map (s.increase v6)).sum := by
  cases hb : v6 && s.blank with
  | false =>
    rw [shown, shown, hb, filterMap_readAs_false, filterMap_readAs_false, totalHits, List.map_map]
    exact congrArg List.sum (List.map_congr_left fun p hp => s.hitsOf_row hb hp)
  | true =>
    obtain ⟨rfl, hblank⟩ := Bool.and_eq_true_iff.mp hb
    rw [s.shown_blank hblank, s.shown_blank hblank, if_pos (h hb), if_pos (h hb), totalHits, List.map_map]
    exact congrArg List.sum (List.map_congr_left fun p hp => s.hitsOf_shifted hblank hp)

theorem lt_of_increase {v6 : Bool} (hb : (v6 && s.blank) = false) {p : String × String} (h : s.increase v6 p ≠ 0) :
    s.pkts false v6 p < s.pkts true v6 p := by
  rw [increase, s.partner_self hb, saturatingSub] at h
  split at h
  · next hle => exact UInt64.lt_of_le_of_ne hle fun heq => h (by rw [heq, UInt64.sub_self])
  · exact absurd rfl h

theorem increase_zero {v6 : Bool} (hb : (v6 && s.blank) = false) {p : String × String}
    (h : ¬ s.pkts false v6 p < s.pkts true v6 p) : s.increase v6 p = 0 :=
  not_not.mp fun hne => h (s.lt_of_increase hb hne)

/-- Hits of a family whose rules are told apart mean that a rule of it has counted. -/
theorem exists_increase {v6 : Bool} (hb : (v6 && s.blank) = false)
    (h : (s.links.pairs.map (s.increase v6)).sum ≠ 0) : s.Grew v6 := by
  obtain ⟨n, hn, hne⟩ := List.exists_mem_ne_zero_of_sum_ne_zero h
  obtain ⟨p, hp, rfl⟩ := List.mem_map.mp hn
  exact ⟨p, hp, s.lt_of_increase hb hne⟩

end Setup

/-! ## Snapshots -/

/-- An interface name is a word. -/
theorem word_of_validIface {w : List Char} (h : validIface w = true) : Word w := by
  simp only [validIface, Bool.and_eq_true, List.all_eq_true, Bool.not_eq_true', List.isEmpty_eq_false_iff] at h
  refine ⟨h.1.1, fun c hc => ?_⟩
  rcases Bool.or_eq_true_iff.mp (h.2 c hc) with hc | hc
  · change ((decide (65 ≤ c.val ∧ c.val ≤ 90) || (decide (97 ≤ c.val) && decide (c.val ≤ 122))) ||
      (decide (48 ≤ c.val) && decide (c.val ≤ 57))) = true at hc
    simp only [Bool.or_eq_true, Bool.and_eq_true, decide_eq_true_eq, UInt32.le_iff_toNat_le] at hc
    change ((65 ≤ c.toNat ∧ c.toNat ≤ 90) ∨ 97 ≤ c.toNat ∧ c.toNat ≤ 122) ∨ 48 ≤ c.toNat ∧ c.toNat ≤ 57 at hc
    simp only [isSpace, decide_eq_false_iff_not]
    omega
  · have hall : ("_.:-".toList.all fun c => !isSpace c) = true := by decide
    simpa using List.all_eq_true.mp hall c (List.contains_iff_mem.mp hc)

namespace Setup

variable (s : Setup)

theorem word_target (v6 : Bool) : Word (s.target v6).toList := by
  have hall : ∀ t ∈ (["HL", "DROP", "TTL", "NFQUEUE"] : List String), Word t.toList := by decide
  refine hall _ ?_
  unfold target
  cases v6 with
  | true => by_cases hm : s.mode = .normalize <;> simp [hm]
  | false => cases hk : s.kernel <;> simp

theorem row_plain (second v6 : Bool) {p : String × String} (hp : p ∈ s.links.pairs) : (s.row second v6 p).Plain := by
  obtain ⟨hdown, hup, -⟩ := Links.mem_pairs.mp hp
  rw [row_eq]
  exact ⟨s.word_target v6, word_of_validIface (classify_valid _ _ _ _ (.inr hdown)),
    word_of_validIface (classify_valid _ _ _ _ (.inl hup))⟩

/-- The snapshot of a family. -/
def snapshot (second v6 : Bool) : Snapshot := (s.hooked v6, if s.installed v6 then s.shown second v6 else [])

theorem word_payloadChain (v6 b : Bool) : Word (payloadChain v6 b).toList := by
  cases v6 <;> cases b <;> decide

theorem hooked_eq (v6 : Bool) :
    s.hooked v6 = (if s.installed v6 then some (s.active v6) else none).map (payloadChain v6) := by
  rw [hooked]
  split <;> rfl

theorem readAs_rows (second v6 : Bool) : ((s.rows second v6).getD []).filterMap (RuleCount.readAs (v6 && s.blank)) =
    (s.snapshot second v6).2 := by
  rw [rows, snapshot]
  split <;> rfl

theorem snapshot_none {second v6 : Bool} (h : s.hooked v6 = none) : s.snapshot second v6 = (none, []) := by
  rw [snapshot, h]
  rw [hooked] at h
  split at h
  · cases h
  · next hi => rw [if_neg hi]

/-- What is there has a listing. -/
theorem rows_printed (second v6 : Bool) : ∃ text, PrintsRows (v6 && s.blank) (s.rows second v6) text := by
  rw [rows]
  split
  · refine ⟨_, printRows_prints (word_payloadChain v6 (s.active v6)) fun r hr => ?_⟩
    obtain ⟨p, hp, rfl⟩ := List.mem_map.mp hr
    exact s.row_plain second v6 hp
  · exact ⟨[], rfl⟩

variable {d : Device} {args : List (List Char)} {sample : List Packet} {second second' v6 : Bool}

/-- With every command succeeding, reading a family answers its snapshot. -/
theorem runs_counters {snap : Snapshot} : Runs (d.compare args s sample) (counters v6) second snap second' ↔
    snap = s.snapshot second v6 ∧ second' = second := by
  have hchain : ∀ {text}, PrintsHook v6 (s.hooked v6) text → activeChain text (hookOf v6) = s.hooked v6 := by
    intro text h
    rw [hooked_eq] at h ⊢
    exact activeChain_prints h
  refine Verify.runs_counters.trans ⟨fun ⟨rules, _, ⟨hs, hrules⟩, h⟩ => ?_, fun ⟨hsnap, hs⟩ => ?_⟩
  · rw [hchain hrules] at h
    cases hhook : s.hooked v6 with
    | none =>
      rw [hhook] at h
      exact ⟨by rw [h.1, s.snapshot_none hhook], h.2.trans hs⟩
    | some c =>
      rw [hhook] at h
      obtain ⟨text, ⟨hs', hcounters⟩, hsnap⟩ := h
      rw [hs] at hcounters hs'
      rw [parseCounters_prints (hcounters hhook.symm), readAs_rows] at hsnap
      exact ⟨by rw [hsnap, snapshot, hhook], hs'⟩
  · have hprints : PrintsHook v6 (s.hooked v6) (unlines ((hookLines v6 (s.hooked v6)).map String.toList)) := .inl rfl
    refine ⟨_, second, ⟨rfl, hprints⟩, ?_⟩
    rw [hchain hprints, hsnap]
    obtain ⟨text, htext⟩ := s.rows_printed second v6
    cases hhook : s.hooked v6 with
    | none => exact ⟨s.snapshot_none hhook, hs⟩
    | some c =>
      refine ⟨text, ⟨hs, fun _ => htext⟩, ?_⟩
      rw [parseCounters_prints htext, readAs_rows, snapshot, hhook]

theorem runs_took {useV6 : Bool} {snap : Option Snapshot} :
    Took (d.compare args s sample) useV6 second snap second' ↔
      snap = (if useV6 then some (s.snapshot second true) else none) ∧ second' = second := by
  cases useV6 with
  | false => exact Iff.rfl
  | true =>
    simp only [Took, if_true, runs_counters]
    refine ⟨fun h => ?_, fun h => ⟨_, ⟨rfl, h.2⟩, h.1⟩⟩
    obtain ⟨_, ⟨rfl, hs⟩, hsnap⟩ := h
    exact ⟨hsnap, hs⟩

/-- The hits of the families that are compared. -/
def hits (useV6 : Bool) : UInt64 :=
  totalHits (s.snapshot false false).2 (s.snapshot true false).2 +
    if useV6 then totalHits (s.snapshot false true).2 (s.snapshot true true).2 else 0

/-- With every command succeeding, a run passes exactly if it sees hits and no leak. -/
theorem runs_pass {o : Options} (ho : parseOptions args = .ok o) (hc : o.wireOnly = false) :
    Runs (d.compare args s sample) (run args) false (.ok exitPass) second' ↔
      second' = true ∧ ∃ fw, d.Measures args o fw ∧ d.leaks (d.seen args sample) = false ∧
        s.hits (usesV6 (some fw) (d.stateText "ipv6_mode")) ≠ 0 := by
  have hhits : ∀ useV6 : Bool, s.hits useV6 = totalHits (s.snapshot false false).2 (s.snapshot true false).2 +
      snapHits (if useV6 then some (s.snapshot false true) else none)
        (if useV6 then some (s.snapshot true true) else none) := by
    intro useV6
    cases useV6 <;> rfl
  have hseen : d.taps o = [] → d.seen args sample = [] := fun h => by simp [Device.seen, ho, h]
  rw [Device.compare, runs_pass_iff ho hc, ← Device.compare]
  simp only [runs_counters, runs_took, hhits]
  refine ⟨?_, fun ⟨hs, fw, hm, hleak, hne⟩ => ?_⟩
  · intro ⟨fw, hm, b4, b6, a4, a6, pkts, w₁, w₂, w₃, w₄, ⟨hb4, hw₁⟩, ⟨hb6, hw₂⟩, ⟨hpkts, hw₃⟩, hnil, ⟨ha4, hw₄⟩,
      ⟨ha6, hw⟩, hleak, hne⟩
    subst hw₁ hw₂ hw₃ hw₄ hb4 hb6 hpkts ha4 ha6
    exact ⟨hw, fw, hm, hleak, hne⟩
  · exact ⟨fw, hm, _, _, _, _, _, false, false, true, true, ⟨rfl, rfl⟩, ⟨rfl, rfl⟩, ⟨rfl, rfl⟩, hseen, ⟨rfl, rfl⟩,
      ⟨rfl, hs⟩, hleak, hne⟩

/-- The hits of a family in terms of its counts. -/
theorem totalHits_snapshot {v6 : Bool} (hi : s.installed v6 = true)
    (h : (v6 && s.blank) = true → s.mode = .normalize) :
    totalHits (s.snapshot false v6).2 (s.snapshot true v6).2 = (s.links.pairs.map (s.increase v6)).sum := by
  rw [snapshot, snapshot, if_pos hi, if_pos hi]
  exact s.totalHits_rows h

theorem totalHits_v4 : totalHits (s.snapshot false false).2 (s.snapshot true false).2 =
    (s.links.pairs.map (s.increase false)).sum :=
  @totalHits_snapshot s false rfl fun h => absurd h Bool.false_ne_true

/-- Only the rules of IPv6 that normalise or block are there, and of a blank listing only those that normalise
are read. -/
theorem mode_of_hits (h : totalHits (s.snapshot false true).2 (s.snapshot true true).2 ≠ 0) :
    s.installed true = true ∧ (s.mode = .normalize ∨ s.mode = .block ∧ s.blank = false) := by
  cases hi : s.installed true with
  | false =>
    rw [snapshot, snapshot, hi] at h
    exact absurd rfl h
  | true =>
    refine ⟨rfl, ?_⟩
    by_cases hn : s.mode = .normalize
    · exact .inl hn
    have hblock : s.mode = .block := by
      cases hm : s.mode <;> simp_all [installed, V6Mode.isPass]
    refine .inr ⟨hblock, ?_⟩
    by_contra hb
    rw [Bool.not_eq_false] at hb
    rw [snapshot, snapshot, if_pos hi, if_pos hi, s.shown_blank hb, s.shown_blank hb, if_neg hn, if_neg hn] at h
    exact h rfl

/-- A family whose rules normalise, and of which a rule has counted, is matched. -/
theorem matched_of_grew {v6 : Bool} (hi : s.installed v6 = true)
    (ht : s.target v6 ∈ (["TTL", "HL", "NFQUEUE"] : List String)) (h : s.Grew v6) : s.Matched :=
  ⟨v6, hi, ⟨_, ht, s.action_target v6⟩, h⟩

theorem target_false : s.target false ∈ (["TTL", "HL", "NFQUEUE"] : List String) := by
  cases hk : s.kernel <;> simp [target, hk]

/-- When verify with counters passes, a rule that normalises has counted a packet. -/
def Proves (s : Setup) (d : Device) (args : List (List Char)) (sample : List Packet) : Prop :=
  ∀ o, parseOptions args = .ok o → o.wireOnly = false → ∀ second,
    Runs (d.compare args s sample) (run args) false (.ok exitPass) second → s.Matched

/-- Where IPv6 is compared, an IPv4 rule has counted a packet, or the sample shows a leak, or nothing is added for
IPv6 that does not count: rules that block and whose rows are read whole have counted nothing, and rules that normalise
and whose rows are read alike have counted a packet or add up to nothing. -/
def Accounted (s : Setup) (d : Device) (args : List (List Char)) (sample : List Packet) : Prop :=
  d.Compares args true →
    s.Grew false ∨ Leaks d.ownTtls (d.seen args sample) ∨
      (s.mode = .block → s.blank = false → (s.links.pairs.map (s.increase true)).sum = 0) ∧
      (s.mode = .normalize → s.blank = true → s.Grew true ∨ (s.links.pairs.map (s.increase true)).sum = 0)

/-- Hits of IPv6 rules are those of a rule that normalises where they are accounted for. -/
theorem matched_of_hits6 (hne : totalHits (s.snapshot false true).2 (s.snapshot true true).2 ≠ 0)
    (hblock : s.mode = .block → s.blank = false → (s.links.pairs.map (s.increase true)).sum = 0)
    (hnormal : s.mode = .normalize → s.blank = true →
      s.Grew true ∨ (s.links.pairs.map (s.increase true)).sum = 0) : s.Matched := by
  obtain ⟨hi, hmode⟩ := s.mode_of_hits hne
  rcases hmode with hn | ⟨hm, hb⟩
  · rw [s.totalHits_snapshot hi fun _ => hn] at hne
    have htarget : s.target true ∈ (["TTL", "HL", "NFQUEUE"] : List String) := by simp [target, hn]
    cases hb : s.blank with
    | false => exact s.matched_of_grew hi htarget (s.exists_increase hb hne)
    | true => exact s.matched_of_grew hi htarget ((hnormal hn hb).resolve_right hne)
  · rw [s.totalHits_snapshot hi fun h => absurd (hb.symm.trans h) Bool.false_ne_true] at hne
    exact absurd (hblock hm hb) hne

theorem proves_of_accounted (h : s.Accounted d args sample) : s.Proves d args sample := by
  intro o ho hc second hrun
  obtain ⟨-, fw, hm, hleak, hne⟩ := (s.runs_pass ho hc).mp hrun
  have matched4 : s.Grew false → s.Matched := s.matched_of_grew rfl s.target_false
  by_cases h4 : totalHits (s.snapshot false false).2 (s.snapshot true false).2 = 0
  · rw [hits, h4, UInt64.zero_add] at hne
    have huse : usesV6 (some fw) (d.stateText "ipv6_mode") = true := by
      by_contra huse
      exact hne (if_neg huse)
    rw [if_pos huse] at hne
    rcases h ⟨o, fw, hm, fun _ => huse⟩ with h | h | ⟨hblock, hnormal⟩
    · exact matched4 h
    · exact absurd (d.leaks_iff.mpr h) (by rw [hleak]; exact Bool.false_ne_true)
    · exact s.matched_of_hits6 hne hblock hnormal
  · rw [s.totalHits_v4] at h4
    exact matched4 (s.exists_increase rfl h4)

/-- A run passes on hits of IPv6 rules alone, whether they normalise and have counted or not. -/
theorem not_proves (hc : d.Compares args true) (h4 : ¬ s.Grew false)
    (hleak : ¬ Leaks d.ownTtls (d.seen args sample))
    (h6 : totalHits (s.snapshot false true).2 (s.snapshot true true).2 ≠ 0)
    (hgrew : s.mode = .normalize → ¬ s.Grew true) : ¬ s.Proves d args sample := by
  obtain ⟨o, fw, hmeasures, huse⟩ := hc
  have hzero : (s.links.pairs.map (s.increase false)).sum = 0 :=
    List.sum_eq_zero (List.forall_mem_map.mpr fun p hp => s.increase_zero rfl fun hlt => h4 ⟨p, hp, hlt⟩)
  have hhits : s.hits (usesV6 (some fw) (d.stateText "ipv6_mode")) ≠ 0 := by
    rw [hits, if_pos (huse rfl), s.totalHits_v4, hzero, UInt64.zero_add]
    exact h6
  have hleaks : d.leaks (d.seen args sample) = false := by
    rw [← Bool.not_eq_true, d.leaks_iff]
    exact hleak
  intro h
  obtain ⟨v6, -, ⟨t, ht, opts, hopts⟩, hcount⟩ := h o hmeasures.options hmeasures.counted true
    ((s.runs_pass hmeasures.options hmeasures.counted).mpr ⟨rfl, fw, hmeasures, hleaks, hhits⟩)
  cases v6 with
  | false => exact h4 hcount
  | true =>
    by_cases hn : s.mode = .normalize
    · exact hgrew hn hcount
    have hdropped : s.action true = .jump "DROP" [] := by simp [action, Firewall.target6, hn]
    cases hdropped.symm.trans hopts
    exact absurd ht (by decide)

/-- A pass means that a rule that normalises has counted a packet, exactly when the hits
of IPv6 rules are accounted for. -/
theorem pass_normalised_iff (s : Setup) (d : Device) (args : List (List Char)) (sample : List Packet) :
    s.Proves d args sample ↔ s.Accounted d args sample := by
  refine ⟨fun h hc => ?_, proves_of_accounted s⟩
  by_contra hnone
  rw [not_or, not_or] at hnone
  obtain ⟨h4, hleak, h6⟩ := hnone
  refine h6 ⟨fun hm hb => ?_, fun hn hb => ?_⟩
  · by_contra hsum
    have hi : s.installed true = true := by simp [installed, hm, V6Mode.isPass]
    refine not_proves s hc h4 hleak ?_ (fun hn => by cases hm.symm.trans hn) h
    rw [s.totalHits_snapshot hi fun h => absurd (hb.symm.trans h) Bool.false_ne_true]
    exact hsum
  · by_contra hnot
    rw [not_or] at hnot
    have hi : s.installed true = true := by simp [installed, hn, V6Mode.isPass]
    refine not_proves s hc h4 hleak ?_ (fun _ => hnot.1) h
    rw [s.totalHits_snapshot hi fun _ => hn]
    exact hnot.2

end Setup

/-- The phone, with ip6tables and its rules as `mode` says. -/
def phone6 (mode : String) : Device :=
  { phone with
    firewall := some ⟨some "ip6tables"⟩
    state := fun name =>
      if name = "phase" then some "active".toList
      else if name = "ipv6_mode" then some mode.toList
      else none }

/-- Seven packets are dropped, and no other rule counts any. -/
def dropping : Setup where
  config := {}
  default := ["rmnet0"]
  addrs := ["wlan2"]
  live := ["rmnet0", "wlan2"]
  kernel := true
  workers := 1
  ttl := 64
  mode := .block
  hl := 64
  active := fun _ => false
  pkts := fun second v6 _ => if second && v6 then 7 else 0
  blank := false

/-- The rules of two downstreams have counted before, and no rule counts any more. -/
def sharing : Setup where
  config := {}
  default := ["rmnet0"]
  addrs := ["wlan2", "rndis0"]
  live := ["rmnet0", "wlan2", "rndis0"]
  kernel := true
  workers := 1
  ttl := 64
  mode := .normalize
  hl := 64
  active := fun _ => false
  pkts := fun _ v6 p => if v6 then if p.1 = "rndis0" then 3 else 8 else 0
  blank := true

/-- Seven dropped packets where a word stands in the opt column, five old ones where it is blank. -/
theorem pass_normalised_dropped :
    ¬ dropping.Proves (phone6 "block") [] [] ∧ ¬ sharing.Proves (phone6 "normalize") [] [] := by
  have hcompares : ∀ mode, usesV6 (some ⟨some "ip6tables"⟩) ((phone6 mode).stateText "ipv6_mode") = true →
      (phone6 mode).Compares [] true := fun mode huse =>
    ⟨{}, ⟨some "ip6tables"⟩, ⟨rfl, rfl, ⟨[], rfl, by decide⟩, rfl, rfl⟩, fun _ => huse⟩
  refine ⟨?_, ?_⟩
  · refine dropping.not_proves (hcompares _ (by decide)) ?_ (by decide) (by decide) nofun
    intro ⟨p, _, hlt⟩
    exact absurd hlt (UInt64.lt_irrefl 0)
  · refine sharing.not_proves (hcompares _ (by decide)) ?_ (by decide) (by decide) ?_
    · intro ⟨p, _, hlt⟩
      exact absurd hlt (UInt64.lt_irrefl 0)
    · intro _ ⟨p, _, hlt⟩
      exact absurd hlt (UInt64.lt_irrefl _)

end Nfqttl.Verify
