/-
`net.rs`: which interfaces are downstreams and upstreams. A `BTreeSet` is given by its
elements.
-/
import Mathlib.Data.List.Dedup
import Mathlib.Data.List.Sort
import Mathlib.Data.String.Basic
import Nfqttl.ConfigFile
import Nfqttl.Links

namespace Nfqttl

def allowedUp (s : String) : Bool :=
  ["rmnet", "v4-rmnet", "clat", "ccmni", "pdp", "wwan", "wlan", "eth", "tun", "tap", "wg", "tailscale", "zt"].any
    fun p => p.toList.isPrefixOf s.toList

def allowedDown (s : String) : Bool :=
  ["ap", "wlan", "swlan", "softap", "wifi", "rndis", "usb", "ncm", "bnep", "bt-pan", "bt_pan", "br"].any
    fun p => p.toList.isPrefixOf s.toList

/-- The interfaces of the default routes `ip route` prints: the word after the first `dev` that one follows. -/
def defaults (text : List Char) : List String :=
  (Text.lines text).filterMap fun line =>
    let w := (Text.words line).map String.ofList
    if w.head? ≠ some "default" then none else ((w.zip w.tail).find? fun x => x.1 == "dev").map Prod.snd

/-- `v.sort(); v.dedup()` -/
def sortDedup (v : List String) : List String := (v.insertionSort (· ≤ ·)).dedup

/-- The links, from the interfaces of the default routes, those with an address and those
that are up. -/
def classify (c : Config) (default addrs live : List String) : Links :=
  let up := if c.upstreams.isEmpty then default.filter allowedUp else c.upstreams
  let up := sortDedup (up.filter fun s => validIface s.toList && live.contains s)
  let down := if c.downstreams.isEmpty then addrs.filter allowedDown else c.downstreams
  let down := sortDedup (down.filter fun s => validIface s.toList && live.contains s && !up.contains s)
  ⟨down, up⟩

theorem mem_sortDedup {v : List String} {s : String} : s ∈ sortDedup v ↔ s ∈ v := by
  rw [sortDedup, List.mem_dedup, List.mem_insertionSort]

/-- Sorted, and no name twice. -/
theorem sortDedup_sorted (v : List String) : (sortDedup v).Pairwise (· < ·) := by
  have hle : (sortDedup v).Pairwise (· ≤ ·) :=
    (List.pairwise_insertionSort (· ≤ ·) v).sublist (List.dedup_sublist _)
  exact hle.imp₂ (fun _ _ => lt_of_le_of_ne) (List.nodup_dedup _)

section
variable (c : Config) (default addrs live : List String)

theorem classify_nodup : (classify c default addrs live).up.Nodup ∧ (classify c default addrs live).down.Nodup :=
  ⟨List.nodup_dedup _, List.nodup_dedup _⟩

theorem classify_valid {s : String}
    (h : s ∈ (classify c default addrs live).up ∨ s ∈ (classify c default addrs live).down) :
    validIface s.toList = true := by
  simp only [classify, mem_sortDedup, List.mem_filter, Bool.and_eq_true] at h
  rcases h with ⟨-, hv, -⟩ | ⟨-, ⟨hv, -⟩, -⟩
  · exact hv
  · exact hv

theorem mem_up {s : String} : s ∈ (classify c default addrs live).up ↔
    (if c.upstreams = [] then s ∈ default ∧ allowedUp s = true else s ∈ c.upstreams) ∧
      validIface s.toList = true ∧ s ∈ live := by
  simp only [classify, mem_sortDedup, List.mem_filter, Bool.and_eq_true, List.contains_iff_mem, List.isEmpty_iff]
  split <;> simp only [List.mem_filter]

theorem mem_down {s : String} : s ∈ (classify c default addrs live).down ↔
    (if c.downstreams = [] then s ∈ addrs ∧ allowedDown s = true else s ∈ c.downstreams) ∧
      validIface s.toList = true ∧ s ∈ live ∧ s ∉ (classify c default addrs live).up := by
  have hdown : s ∈ (classify c default addrs live).down ↔
      s ∈ (if c.downstreams.isEmpty then addrs.filter allowedDown else c.downstreams) ∧
        (validIface s.toList && live.contains s && !(classify c default addrs live).up.contains s) = true := by
    rw [classify, mem_sortDedup, List.mem_filter]
  rw [hdown]
  simp only [Bool.and_eq_true, Bool.not_eq_true', List.contains_iff_mem, List.isEmpty_iff, and_assoc,
    ← Bool.not_eq_true]
  split <;> simp only [List.mem_filter]

theorem classify_disjoint : (classify c default addrs live).up.Disjoint (classify c default addrs live).down := by
  intro s hup hdown
  exact ((mem_down c default addrs live).mp hdown).2.2.2 hup

end

namespace Links

theorem mem_pairs {l : Links} {p : String × String} : p ∈ l.pairs ↔ p.1 ∈ l.down ∧ p.2 ∈ l.up ∧ p.1 ≠ p.2 := by
  obtain ⟨i, o⟩ := p
  simp [pairs, and_assoc]

theorem pairs_nodup {l : Links} (hup : l.up.Nodup) (hdown : l.down.Nodup) : l.pairs.Nodup := by
  rw [pairs, List.nodup_flatMap]
  constructor
  · intro i _
    exact (hup.filter _).map fun _ _ h => (Prod.mk.inj h).2
  · refine hdown.imp fun hne => List.disjoint_left.mpr fun p hp hp' => ?_
    obtain ⟨_, _, rfl⟩ := List.mem_map.mp hp
    obtain ⟨_, _, heq⟩ := List.mem_map.mp hp'
    exact hne (Prod.mk.inj heq).1.symm

/-- With no interface in both lists, no pair is skipped. -/
theorem pairs_of_disjoint {l : Links} (h : l.up.Disjoint l.down) : l.pairs = l.down ×ˢ l.up := by
  refine List.flatMap_congr ?_
  intro i hi
  rw [List.filter_eq_self.mpr]
  intro o ho
  rw [bne_iff_ne]
  intro heq
  subst heq
  exact h ho hi

end Links

/-- The pairs of the rules are distinct. -/
theorem classify_pairs_nodup (c : Config) (default addrs live : List String) :
    (classify c default addrs live).pairs.Nodup :=
  Links.pairs_nodup (classify_nodup c default addrs live).1 (classify_nodup c default addrs live).2

end Nfqttl
