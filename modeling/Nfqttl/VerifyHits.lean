/-
What `total_hits` counts: the growth of the rules between two snapshots of a chain,
each rule paired with the one of the same interfaces and target.
-/
import Mathlib.Algebra.BigOperators.Ring.Finset
import Mathlib.Algebra.Order.BigOperators.Group.List
import Nfqttl.VerifyRun

namespace Nfqttl.Verify

/-- The packets a snapshot has for the rule of a key, none where it does not have the rule. -/
def countIn (rows : List RuleCount) (k : String × String × String) : Nat :=
  ((rows.filter fun r => r.key = k).map fun r => r.pkts.toNat).sum

/-- What all rules of a snapshot have counted. -/
def countAll (rows : List RuleCount) : Nat := (rows.map fun r => r.pkts.toNat).sum

/-! ## One rule -/

theorem toNat_saturatingSub (a b : UInt64) : (saturatingSub a b).toNat = a.toNat - b.toNat := by
  rw [saturatingSub]
  split
  · next h => exact UInt64.toNat_sub_of_le a b h
  · next h =>
    have hlt : a.toNat < b.toNat := by simpa [UInt64.le_iff_toNat_le] using h
    rw [Nat.sub_eq_zero_of_le hlt.le]
    rfl

/-- The search finds the one rule of the key. -/
theorem toNat_find {before : List RuleCount} (hd : (before.map RuleCount.key).Nodup) (a : RuleCount) :
    (((before.find? a.same).map RuleCount.pkts).getD 0).toNat = countIn before a.key := by
  induction before with
  | nil => rfl
  | cons b before ih =>
    obtain ⟨hb, hd⟩ := List.nodup_cons.mp hd
    by_cases hkey : b.key = a.key
    · have hrest : before.filter (fun r => r.key = a.key) = [] := by
        rw [List.filter_eq_nil_iff]
        intro r hr heq
        exact hb (hkey.trans (of_decide_eq_true heq).symm ▸ List.mem_map_of_mem hr)
      rw [List.find?_cons_of_pos (same_iff.mpr hkey), countIn, List.filter_cons_of_pos (by simpa using hkey), hrest]
      simp
    · have hne : ¬ a.same b = true := fun h => hkey (same_iff.mp h)
      rw [List.find?_cons_of_neg hne, ih hd, countIn, countIn, List.filter_cons_of_neg (by simpa using hkey)]

theorem toNat_hitsOf {before : List RuleCount} (hd : (before.map RuleCount.key).Nodup) (a : RuleCount) :
    (hitsOf before a).toNat = a.pkts.toNat - countIn before a.key := by
  rw [hitsOf, toNat_saturatingSub, toNat_find hd]

theorem hitsOf_le (before : List RuleCount) (a : RuleCount) : (hitsOf before a).toNat ≤ a.pkts.toNat := by
  rw [hitsOf, toNat_saturatingSub]
  exact Nat.sub_le ..

theorem hitsOf_mono (before : List RuleCount) {a a' : RuleCount} (hkey : a'.key = a.key) (h : a.pkts ≤ a'.pkts) :
    (hitsOf before a).toNat ≤ (hitsOf before a').toNat := by
  have hsame : a'.same = a.same := funext fun b => Bool.eq_iff_iff.mpr (by rw [same_iff, same_iff, hkey])
  rw [hitsOf, hitsOf, toNat_saturatingSub, toNat_saturatingSub, hsame]
  exact Nat.sub_le_sub_right (UInt64.le_iff_toNat_le.mp h) _

/-! ## All rules -/

theorem toNat_sum (l : List UInt64) : l.sum.toNat = (l.map UInt64.toNat).sum % 2 ^ 64 := by
  induction l with
  | nil => rfl
  | cons a l ih => rw [List.sum_cons, UInt64.toNat_add, ih, List.map_cons, List.sum_cons, Nat.add_mod_mod]

theorem toNat_totalHits (before after : List RuleCount) :
    (totalHits before after).toNat = (after.map fun a => (hitsOf before a).toNat).sum % 2 ^ 64 := by
  rw [totalHits, toNat_sum, List.map_map]
  rfl

theorem sum_hitsOf_le (before after : List RuleCount) :
    (after.map fun a => (hitsOf before a).toNat).sum ≤ countAll after :=
  List.sum_le_sum fun a _ => hitsOf_le before a

/-- As long as the increases fit a `u64`, nothing wraps. -/
theorem toNat_totalHits_of_lt {before after : List RuleCount}
    (h : (after.map fun a => (hitsOf before a).toNat).sum < 2 ^ 64) :
    (totalHits before after).toNat = (after.map fun a => (hitsOf before a).toNat).sum := by
  rw [toNat_totalHits, Nat.mod_eq_of_lt h]

theorem countIn_perm {before before' : List RuleCount} (h : before.Perm before') (k : String × String × String) :
    countIn before k = countIn before' k := ((h.filter _).map _).sum_nat

theorem countIn_append {extra : List RuleCount} {k : String × String × String} (h : ∀ r ∈ extra, r.key ≠ k)
    (before : List RuleCount) : countIn (before ++ extra) k = countIn before k := by
  have hnone : extra.filter (fun r => r.key = k) = [] := by simpa [List.filter_eq_nil_iff] using h
  rw [countIn, List.filter_append, hnone, List.append_nil, countIn]

/-- Lists of rules that agree but for counts that may have grown. -/
abbrev Grown (rows rows' : List RuleCount) : Prop :=
  List.Forall₂ (fun a a' => a'.key = a.key ∧ a.pkts ≤ a'.pkts) rows rows'

theorem sum_hitsOf_mono (before : List RuleCount) {after after' : List RuleCount} (h : Grown after after') :
    (after.map fun a => (hitsOf before a).toNat).sum ≤ (after'.map fun a => (hitsOf before a).toNat).sum := by
  induction h with
  | nil => exact le_refl _
  | cons h _ ih => exact Nat.add_le_add (hitsOf_mono before h.1 h.2) ih

/-- While no count runs backwards, the hits are the sum of the increases. -/
theorem totalHits_exact {before after : List RuleCount} (hb : (before.map RuleCount.key).Nodup)
    (hmono : ∀ b ∈ before, ∀ a ∈ after, b.key = a.key → b.pkts ≤ a.pkts) {n : ℤ}
    (hn : n = (after.map fun a => (a.pkts.toNat : ℤ) - countIn before a.key).sum) (hfit : n < 2 ^ 64) :
    ((totalHits before after).toNat : ℤ) = n := by
  have hle : ∀ a ∈ after, countIn before a.key ≤ a.pkts.toNat := by
    intro a ha
    rw [← toNat_find hb]
    cases hfind : before.find? a.same with
    | none => exact Nat.zero_le _
    | some b =>
      have hkey : b.key = a.key := same_iff.mp (List.find?_some hfind)
      exact UInt64.le_iff_toNat_le.mp (hmono b (List.mem_of_find?_eq_some hfind) a ha hkey)
  have hsum : ((after.map fun a => (hitsOf before a).toNat).sum : ℤ) = n := by
    rw [hn, Nat.cast_list_sum, List.map_map]
    refine congrArg List.sum (List.map_congr_left ?_)
    intro a ha
    rw [Function.comp_apply, toNat_hitsOf hb, Nat.cast_sub (hle a ha)]
  rw [toNat_totalHits_of_lt (by omega), hsum]

theorem totalHits_perm {before before' after after' : List RuleCount} (hb : (before.map RuleCount.key).Nodup)
    (hbefore : before.Perm before') (hafter : after.Perm after') :
    totalHits before after = totalHits before' after' := by
  have hb' : (before'.map RuleCount.key).Nodup := (hbefore.map _).nodup_iff.mp hb
  have hhits : hitsOf before = hitsOf before' := by
    funext a
    rw [← UInt64.toNat_inj, toNat_hitsOf hb, toNat_hitsOf hb', countIn_perm hbefore]
  rw [totalHits, totalHits, hhits]
  exact (hafter.map _).sum_eq

/-- Rules that are gone do not matter. -/
theorem totalHits_append {before extra after : List RuleCount} (hd : ((before ++ extra).map RuleCount.key).Nodup)
    (hextra : ∀ r ∈ extra, ∀ a ∈ after, r.key ≠ a.key) :
    totalHits (before ++ extra) after = totalHits before after := by
  have hb : (before.map RuleCount.key).Nodup := by
    rw [List.map_append] at hd
    exact hd.of_append_left
  rw [totalHits, totalHits]
  refine congrArg List.sum (List.map_congr_left ?_)
  intro a ha
  rw [← UInt64.toNat_inj, toNat_hitsOf hd, toNat_hitsOf hb, countIn_append fun r hr => hextra r hr a ha]

theorem totalHits_le (before after : List RuleCount) : (totalHits before after).toNat ≤ countAll after := by
  rw [toNat_totalHits]
  exact (Nat.mod_le _ _).trans (sum_hitsOf_le before after)

theorem totalHits_mono (before : List RuleCount) {after after' : List RuleCount}
    (hfit : (after'.map fun a => (hitsOf before a).toNat).sum < 2 ^ 64) (hgrown : Grown after after') :
    totalHits before after ≤ totalHits before after' := by
  have hle := sum_hitsOf_mono before hgrown
  rw [UInt64.le_iff_toNat_le, toNat_totalHits_of_lt hfit, toNat_totalHits_of_lt (Nat.lt_of_le_of_lt hle hfit)]
  exact hle

/-- **Rule hits are exact.** Between snapshots of distinct rules of which none counts backwards, the hits are the sum
of the increases, whatever the order of the two lists and whatever rules only the first has. However the counts
change, the hits are no more than the second snapshot has counted, and no fewer when some of its counts are larger. -/
theorem totalHits_spec :
    (∀ before after : List RuleCount, (before.map RuleCount.key).Nodup → (after.map RuleCount.key).Nodup →
      (∀ b ∈ before, ∀ a ∈ after, b.key = a.key → b.pkts ≤ a.pkts) →
      ∀ n : ℤ, n = (after.map fun a => (a.pkts.toNat : ℤ) - countIn before a.key).sum → n < 2 ^ 64 →
        ((totalHits before after).toNat : ℤ) = n) ∧
    (∀ before before' after after' : List RuleCount, (before.map RuleCount.key).Nodup → before.Perm before' →
      after.Perm after' → totalHits before after = totalHits before' after') ∧
    (∀ before extra after : List RuleCount, ((before ++ extra).map RuleCount.key).Nodup →
      (∀ r ∈ extra, ∀ a ∈ after, r.key ≠ a.key) → totalHits (before ++ extra) after = totalHits before after) ∧
    (∀ before after : List RuleCount, (totalHits before after).toNat ≤ countAll after) ∧
    ∀ before after after' : List RuleCount, (after'.map fun a => (hitsOf before a).toNat).sum < 2 ^ 64 →
      Grown after after' → totalHits before after ≤ totalHits before after' := by
  refine ⟨?_, ?_, ?_, totalHits_le, ?_⟩
  · intro before after hb _ hmono n hn hfit
    exact totalHits_exact hb hmono hn hfit
  · intro before before' after after' hb hbefore hafter
    exact totalHits_perm hb hbefore hafter
  · intro before extra after hd hextra
    exact totalHits_append hd hextra
  · intro before after after' hfit hgrown
    exact totalHits_mono before hfit hgrown

/-- A rule that is gone, one that went on counting and a new one. -/
def rowsBefore : List RuleCount := [⟨"ap0", "wlan0", "TTL", 9⟩, ⟨"ap0", "rmnet0", "TTL", 100⟩]
def rowsAfter : List RuleCount := [⟨"ap0", "rmnet0", "TTL", 150⟩, ⟨"usb0", "rmnet0", "TTL", 7⟩]

theorem totalHits_spec_rows : ((totalHits rowsBefore rowsAfter).toNat : ℤ) = 57 ∧
    totalHits rowsBefore rowsAfter = totalHits rowsBefore.reverse rowsAfter.reverse ∧
    totalHits (rowsBefore ++ [⟨"usb0", "wlan0", "TTL", 5⟩]) rowsAfter = totalHits rowsBefore rowsAfter ∧
    totalHits rowsBefore [⟨"ap0", "rmnet0", "TTL", 4⟩] ≤ totalHits rowsBefore [⟨"ap0", "rmnet0", "TTL", 104⟩] := by
  obtain ⟨hexact, hperm, hextra, -, hmono⟩ := totalHits_spec
  refine ⟨?_, ?_, ?_, ?_⟩
  · exact hexact _ _ (by decide) (by decide) (by decide) 57 (by decide) (by decide)
  · exact hperm _ _ _ _ (by decide) (List.reverse_perm _).symm (List.reverse_perm _).symm
  · exact hextra _ _ _ (by decide) (by decide)
  · exact hmono _ _ _ (by decide) (.cons ⟨rfl, by decide⟩ .nil)

end Nfqttl.Verify
