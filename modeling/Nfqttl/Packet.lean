/-
`packet.rs`: setting the TTL of an IPv4 packet and the checksum that follows it.
Every access is checked, so an access out of range would be the outcome `panic`.
-/
import Nfqttl.Lib.Bytes

namespace Nfqttl

open Bytes

variable {ε : Type}

/-- `for i in (0..ihl).step_by(2)`, with `n` rounds left from `i` on. -/
def sumWords (packet : List UInt8) : Nat → Nat → Nat → Except (Stop ε) Nat
  | 0, _, sum => pure sum
  | n + 1, i, sum => do
    let word := beNat [← index packet i, ← index packet (i + 1)]
    sumWords packet n (i + 2) (sum + word)

/-- `while sum >> 16 != 0` -/
def foldCarry (sum : Nat) : Nat :=
  if sum >>> 16 ≠ 0 then foldCarry ((sum &&& 0xffff) + (sum >>> 16)) else sum
termination_by sum
decreasing_by
  have hlow : sum &&& 0xffff = sum % 65536 := Nat.and_two_pow_sub_one_eq_mod sum 16
  have : sum >>> 16 = sum / 65536 := Nat.shiftRight_eq_div_pow sum 16
  omega

/-- Whether the packet was changed, and the packet after it. -/
def setIpv4Ttl (packet : List UInt8) (ttl : UInt8) : Except (Stop ε) (Bool × List UInt8) := do
  if packet.length < 20 then return (false, packet)
  let first ← index packet 0
  if first >>> 4 ≠ 4 ∨ ttl = 0 then return (false, packet)
  let ihl := (first &&& 0x0f).toNat * 4
  let total := beNat [← index packet 2, ← index packet 3]
  if ihl < 20 ∨ packet.length < ihl ∨ total < ihl ∨ packet.length < total then return (false, packet)
  if (← index packet 8) = ttl then return (false, packet)
  let packet ← store packet 8 ttl
  let packet ← store packet 10 0
  let packet ← store packet 11 0
  let sum ← sumWords packet ((ihl + 1) / 2) 0 0
  let csum := (~~~UInt16.ofNat (foldCarry sum)).toNat
  let packet ← store packet 10 (UInt8.ofNat (csum / 256))
  let packet ← store packet 11 (UInt8.ofNat csum)
  return (true, packet)

/-- The sum of words within the packet reads nothing out of range. -/
theorem sumWords_ok (packet : List UInt8) : ∀ (n i sum : Nat), i + 2 * n ≤ packet.length →
    ∃ r, sumWords (ε := ε) packet n i sum = .ok r
  | 0, _, sum, _ => ⟨sum, rfl⟩
  | n + 1, i, sum, h => by
    obtain ⟨r, hr⟩ := sumWords_ok packet n (i + 2) (sum + beNat [packet[i], packet[i + 1]]) (by omega)
    refine ⟨r, ?_⟩
    rw [sumWords, index_ok (show i < packet.length by omega), index_ok (show i + 1 < packet.length by omega)]
    exact hr

/-- The same bytes but for the TTL and the header checksum. -/
structure SameButTtl (packet packet' : List UInt8) : Prop where
  length : packet'.length = packet.length
  bytes : ∀ i, i ≠ 8 → i ≠ 10 → i ≠ 11 → packet'[i]? = packet[i]?

theorem SameButTtl.refl (packet : List UInt8) : SameButTtl packet packet := ⟨rfl, fun _ _ _ _ => rfl⟩

theorem SameButTtl.set {packet packet' : List UInt8} (h : SameButTtl packet packet') {i : Nat} (x : UInt8)
    (hi : i = 8 ∨ i = 10 ∨ i = 11) : SameButTtl packet (packet'.set i x) where
  length := by rw [List.length_set, h.length]
  bytes k h8 h10 h11 := by
    rw [List.getElem?_set_ne (by omega), h.bytes k h8 h10 h11]

/-- `set_ipv4_ttl` never panics, and changes at most the TTL and the checksum. -/
theorem setIpv4Ttl_run (packet : List UInt8) (ttl : UInt8) : ∃ changed packet',
    setIpv4Ttl (ε := ε) packet ttl = .ok (changed, packet') ∧ (changed = false → packet' = packet) ∧
      SameButTtl packet packet' := by
  have hkeep : ∃ changed packet', (.ok (false, packet) : Except (Stop ε) _) = .ok (changed, packet') ∧
      (changed = false → packet' = packet) ∧ SameButTtl packet packet' :=
    ⟨false, packet, rfl, fun _ => rfl, .refl packet⟩
  unfold setIpv4Ttl
  by_cases hlen : packet.length < 20
  · rw [if_pos hlen]
    exact hkeep
  rw [if_neg hlen, index_ok (show 0 < packet.length by omega), ok_bind]
  by_cases hver : packet[0] >>> 4 ≠ 4 ∨ ttl = 0
  · rw [if_pos hver]
    exact hkeep
  rw [if_neg hver, index_ok (show 2 < packet.length by omega), index_ok (show 3 < packet.length by omega),
    ok_bind, ok_bind]
  simp only
  split
  · exact hkeep
  next hsize =>
  rw [index_ok (show 8 < packet.length by omega), ok_bind]
  by_cases hsame : packet[8] = ttl
  · rw [if_pos hsame]
    exact hkeep
  -- The header is complete, so the words of the checksum are in range.
  obtain ⟨sum, hsum⟩ := sumWords_ok (ε := ε) (((packet.set 8 ttl).set 10 0).set 11 0)
    (((packet[0] &&& 0x0f).toNat * 4 + 1) / 2) 0 0 (by simp only [List.length_set]; omega)
  rw [if_neg hsame, store_ok _ (show 8 < packet.length by omega), ok_bind, store_ok _ (by simp; omega), ok_bind,
    store_ok _ (by simp; omega), ok_bind, hsum, ok_bind, store_ok _ (by simp; omega), ok_bind,
    store_ok _ (by simp; omega), ok_bind]
  refine ⟨true, _, rfl, by simp, ?_⟩
  exact (((((SameButTtl.refl packet).set _ (.inl rfl)).set _ (by simp)).set _ (by simp)).set _ (by simp)).set _
    (by simp)

end Nfqttl
