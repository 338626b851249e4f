/-
What `judge` makes of the packets seen on the wire, by the packets themselves: how many
of IPv4 there are, and how many of these have a TTL that is neither the configured one
nor the phone's own.
-/
import Nfqttl.VerifyRun

namespace Nfqttl.Verify

/-! ## A sample -/

/-- The histograms of packets as they were captured. -/
def observed (pkts : List (List UInt8)) : Hist × Hist := pkts.foldl (fun h pkt => observe pkt h) ({}, {})

/-- What `run` hands to `judge`. -/
def evidence (ttl own4 : UInt8) (hits : Option UInt64) (chainChanged : Bool) (pkts : List (List UInt8)) : Evidence :=
  let h4 := (observed pkts).1
  ⟨hits, h4.total, h4.foreign [ttl, own4], chainChanged⟩

/-- The version nibble is 4, and the header is whole. -/
def IsV4 (pkt : List UInt8) : Prop := pkt.head?.map (fun b : UInt8 => b >>> 4) = some 4 ∧ 20 ≤ pkt.length

instance (pkt : List UInt8) : Decidable (IsV4 pkt) := inferInstanceAs (Decidable (_ ∧ _))

/-- It has a TTL that is neither value. -/
def IsForeign (ttl own4 : UInt8) (pkt : List UInt8) : Prop :=
  IsV4 pkt ∧ pkt.getD 8 0 ≠ ttl ∧ pkt.getD 8 0 ≠ own4

instance (ttl own4 : UInt8) (pkt : List UInt8) : Decidable (IsForeign ttl own4 pkt) :=
  inferInstanceAs (Decidable (_ ∧ _))

/-- The packets that are counted. -/
def wire (pkts : List (List UInt8)) : Nat := pkts.countP fun pkt => IsV4 pkt

def foreign (ttl own4 : UInt8) (pkts : List (List UInt8)) : Nat := pkts.countP fun pkt => IsForeign ttl own4 pkt

variable {ttl own4 : UInt8}

theorem wireTtl_eq (pkt : List UInt8) : wireTtl pkt = if IsV4 pkt then some (pkt.getD 8 0) else none := by
  simp only [wireTtl, IsV4, and_comm]

theorem wire_eq (pkts : List (List UInt8)) : (pkts.filterMap wireTtl).length = wire pkts := by
  rw [List.length_filterMap_eq_countP, wire]
  refine List.countP_congr ?_
  intro pkt _
  by_cases h4 : IsV4 pkt <;> simp [wireTtl_eq, h4]

theorem foreign_eq (ttl own4 : UInt8) (pkts : List (List UInt8)) :
    (pkts.filterMap wireTtl).countP (fun v => !([ttl, own4].contains v)) = foreign ttl own4 pkts := by
  rw [List.countP_filterMap, foreign]
  refine List.countP_congr ?_
  intro pkt _
  by_cases h4 : IsV4 pkt <;> simp [wireTtl_eq, IsForeign, h4]

theorem evidence_eq (ttl own4 : UInt8) (hits : Option UInt64) (chainChanged : Bool) (pkts : List (List UInt8)) :
    evidence ttl own4 hits chainChanged pkts = ⟨hits, wire pkts, foreign ttl own4 pkts, chainChanged⟩ := by
  obtain ⟨htotal, hforeign⟩ := foldl_observe [ttl, own4] pkts ({}, {})
  have hzero : ({} : Hist).foreign [ttl, own4] = 0 := by simp [Hist.foreign]
  rw [evidence, observed, htotal, hforeign, hzero, Nat.zero_add, Nat.zero_add, wire_eq, foreign_eq]

/-- The sample of a run is the packets its taps received. -/
theorem evidence_received (d : Device) (hits : UInt64 × Bool) (pkts : List Packet) :
    d.evidence hits pkts = evidence (.ofNat d.cfg.ttl) (.ofNat d.own4) (some hits.1) hits.2 (received pkts) := by
  rw [Device.evidence, drain_eq]
  rfl

theorem leak_iff {e : Evidence} : e.leak = true ↔ 10 ≤ e.foreign4 ∧ e.wire4 < 20 * e.foreign4 := by
  rw [Evidence.leak, Bool.and_eq_true, decide_eq_true_iff, decide_eq_true_iff, leakMinPackets, leakRatioDiv]
  omega

/-! ## The verdict -/

/-- A leak fails, and nothing else does. -/
theorem judge_fail (e : Evidence) : (judge e).1 = .fail ↔ e.leak = true := by
  rw [judge]
  cases hl : e.leak with
  | true =>
    cases e.hits with
    | none => simp
    | some n => by_cases hn : n = 0 <;> simp [hn]
  | false =>
    cases e.hits with
    | none => by_cases hw : e.wire4 ≥ wireOnlyMinPackets <;> simp [hw]
    | some n => by_cases hn : n > 0 <;> cases hch : e.chainChanged <;> simp [hn]

/-- Without counters a pass is a sample that is large enough and shows no leak. -/
theorem judge_wireOnly {e : Evidence} (h : e.hits = none) : (judge e).1 = .pass ↔ e.leak = false ∧ 10 ≤ e.wire4 := by
  rw [judge, h]
  cases hl : e.leak with
  | true => simp
  | false =>
    by_cases hw : e.wire4 ≥ wireOnlyMinPackets
    · simp [hw, show 10 ≤ e.wire4 from hw]
    · simp [hw, show ¬ 10 ≤ e.wire4 from hw]

section verdict
variable {ttl own4 : UInt8} {hits : Option UInt64} {chainChanged : Bool}

theorem fails_iff (pkts : List (List UInt8)) :
    (judge (evidence ttl own4 hits chainChanged pkts)).1 = .fail ↔
      10 ≤ foreign ttl own4 pkts ∧ wire pkts < 20 * foreign ttl own4 pkts := by
  rw [judge_fail, leak_iff, evidence_eq]

/-- A packet more, wherever it was captured. -/
theorem counts_insert (ttl own4 : UInt8) (pre post : List (List UInt8)) (pkt : List UInt8) :
    wire (pre ++ pkt :: post) = wire (pre ++ post) + (if IsV4 pkt then 1 else 0) ∧
      foreign ttl own4 (pre ++ pkt :: post) =
        foreign ttl own4 (pre ++ post) + if IsForeign ttl own4 pkt then 1 else 0 := by
  simp only [wire, foreign, List.countP_append, List.countP_cons, decide_eq_true_eq]
  exact ⟨by omega, by omega⟩

theorem fails_insert_foreign {pre post : List (List UInt8)} {pkt : List UInt8} (hpkt : IsForeign ttl own4 pkt)
    (h : (judge (evidence ttl own4 hits chainChanged (pre ++ post))).1 = .fail) :
    (judge (evidence ttl own4 hits chainChanged (pre ++ pkt :: post))).1 = .fail := by
  rw [fails_iff] at h ⊢
  obtain ⟨hw, hf⟩ := counts_insert ttl own4 pre post pkt
  rw [if_pos hpkt.1] at hw
  rw [if_pos hpkt] at hf
  omega

theorem fails_of_insert {pre post : List (List UInt8)} {pkt : List UInt8} (hpkt : ¬ IsForeign ttl own4 pkt)
    (h : (judge (evidence ttl own4 hits chainChanged (pre ++ pkt :: post))).1 = .fail) :
    (judge (evidence ttl own4 hits chainChanged (pre ++ post))).1 = .fail := by
  rw [fails_iff] at h ⊢
  obtain ⟨hw, hf⟩ := counts_insert ttl own4 pre post pkt
  rw [if_neg hpkt] at hf
  omega

/-- The order in which packets are captured does not matter. -/
theorem evidence_perm {pkts pkts' : List (List UInt8)} (h : pkts.Perm pkts') :
    evidence ttl own4 hits chainChanged pkts = evidence ttl own4 hits chainChanged pkts' := by
  rw [evidence_eq, evidence_eq, wire, wire, foreign, foreign, h.countP_eq, h.countP_eq]

/-- No value that is computed leaves its 64 bits while so many packets cannot be counted. -/
theorem counts_lt {pkts : List (List UInt8)} (h : 20 * pkts.length < 2 ^ 64) :
    wire pkts < 2 ^ 64 ∧ foreign ttl own4 pkts * leakRatioDiv < 2 ^ 64 := by
  have hw : wire pkts ≤ pkts.length := List.countP_le_length
  have hf : foreign ttl own4 pkts ≤ pkts.length := List.countP_le_length
  rw [leakRatioDiv]
  omega

end verdict

/-- The sample fails exactly if at least ten packets have a TTL that is neither value and
these are more than a twentieth of its IPv4 packets. The order of the packets does not
matter, one more such packet does not take a failure back, and any other does not cause one. -/
theorem judge_packets (ttl own4 : UInt8) (hits : Option UInt64) (chainChanged : Bool) (pkts : List (List UInt8)) :
    let verdict := fun pkts => judge (evidence ttl own4 hits chainChanged pkts)
    ((verdict pkts).1 = .fail ↔ 10 ≤ foreign ttl own4 pkts ∧ wire pkts < 20 * foreign ttl own4 pkts) ∧
      (∀ pkts', pkts.Perm pkts' → verdict pkts' = verdict pkts) ∧
      (∀ pre post pkt, pkts = pre ++ post → IsForeign ttl own4 pkt → (verdict pkts).1 = .fail →
        (verdict (pre ++ pkt :: post)).1 = .fail) ∧
      (∀ pre post pkt, pkts = pre ++ post → ¬ IsForeign ttl own4 pkt → (verdict pkts).1 ≠ .fail →
        (verdict (pre ++ pkt :: post)).1 ≠ .fail) ∧
      (20 * pkts.length < 2 ^ 64 → (evidence ttl own4 hits chainChanged pkts).wire4 < 2 ^ 64 ∧
        (evidence ttl own4 hits chainChanged pkts).foreign4 * leakRatioDiv < 2 ^ 64) := by
  intro verdict
  refine ⟨fails_iff pkts, ?_, ?_, ?_, ?_⟩
  · intro pkts' h
    exact congrArg judge (evidence_perm h.symm)
  · intro pre post pkt heq hpkt h
    rw [heq] at h
    exact fails_insert_foreign hpkt h
  · intro pre post pkt heq hpkt h hfail
    rw [heq] at h
    exact h (fails_of_insert hpkt hfail)
  · intro hlen
    rw [evidence_eq]
    exact counts_lt hlen

/-! ### Without counters -/

theorem passes_iff (ttl own4 : UInt8) (chainChanged : Bool) (pkts : List (List UInt8)) :
    (judge (evidence ttl own4 none chainChanged pkts)).1 = .pass ↔
      10 ≤ wire pkts ∧ (foreign ttl own4 pkts < 10 ∨ 20 * foreign ttl own4 pkts ≤ wire pkts) := by
  have hleak := leak_iff (e := evidence ttl own4 none chainChanged pkts)
  rw [judge_wireOnly rfl, ← Bool.not_eq_true, hleak, evidence_eq]
  grind

/-- Without rule counters a sample passes exactly if it has at least ten IPv4 packets and
fewer than ten of them, or at most a twentieth, have a TTL that is neither value. The counts
have room in 64 bits for as many packets as `judge_packets` has. -/
theorem wireOnly_pass (ttl own4 : UInt8) (chainChanged : Bool) (pkts : List (List UInt8)) :
    ((judge (evidence ttl own4 none chainChanged pkts)).1 = .pass ↔
      10 ≤ wire pkts ∧ (foreign ttl own4 pkts < 10 ∨ 20 * foreign ttl own4 pkts ≤ wire pkts)) ∧
    (20 * pkts.length < 2 ^ 64 → (evidence ttl own4 none chainChanged pkts).wire4 < 2 ^ 64 ∧
      (evidence ttl own4 none chainChanged pkts).foreign4 * leakRatioDiv < 2 ^ 64) := by
  refine ⟨passes_iff ttl own4 chainChanged pkts, ?_⟩
  intro hlen
  rw [evidence_eq]
  exact counts_lt hlen

/-- The header of an IPv4 packet. -/
def header (ttl : UInt8) : List UInt8 := [0x45, 0, 0, 20, 0, 0, 0, 0, ttl, 6, 0, 0, 10, 0, 0, 1, 10, 0, 0, 2]

/-- Nine packets in ten may have a TTL that is neither value. -/
theorem wireOnly_pass_foreign :
    ¬ ∀ (ttl own4 : UInt8) (chainChanged : Bool) (pkts : List (List UInt8)),
      (judge (evidence ttl own4 none chainChanged pkts)).1 = .pass → 20 * foreign ttl own4 pkts ≤ wire pkts := by
  intro h
  have hpass : (judge (evidence 64 65 none false (header 64 :: List.replicate 9 (header 128)))).1 = .pass := by
    rw [evidence_eq]
    decide
  exact absurd (h 64 65 false _ hpass) (by decide)

end Nfqttl.Verify
