/-
What `set_ipv4_ttl` makes of a well-formed packet: the packet with the new TTL,
under the checksum its sender would have written.
-/
import Nfqttl.Lib.OnesSum
import Nfqttl.Packet

namespace Nfqttl

open Bytes OnesSum

variable {ε : Type}

/-- The length of the header, as the first byte gives it. -/
def ihl (packet : List UInt8) : Nat := (packet.getD 0 0 &&& 0x0f).toNat * 4

/-- The length of the packet, as its header gives it. -/
def totalLength (packet : List UInt8) : Nat := beNat (window packet 2 2)

/-- An IPv4 packet whose header is complete, and that is itself. -/
structure WellFormed (packet : List UInt8) : Prop where
  version : packet.getD 0 0 >>> 4 = 4
  header : 20 ≤ ihl packet
  fits : ihl packet ≤ totalLength packet
  complete : totalLength packet ≤ packet.length

/-- The packet with its checksum field zero. -/
def unsealed (packet : List UInt8) : List UInt8 := (packet.set 10 0).set 11 0

/-- The complement of the one's-complement sum of the header, its checksum field taken as zero. -/
def checksum (packet : List UInt8) : Nat :=
  65535 - OnesSum.sum 65535 (words ((unsealed packet).take (ihl packet)))

/-- The packet with the TTL set and the checksum that goes with it. -/
def resealed (ttl : UInt8) (packet : List UInt8) : List UInt8 :=
  let csum := checksum (packet.set 8 ttl)
  (((packet.set 8 ttl).set 10 (UInt8.ofNat (csum / 256))).set 11 (UInt8.ofNat csum))

theorem ihl_mod (packet : List UInt8) : ihl packet % 4 = 0 := Nat.mul_mod_left ..

theorem ihl_set {packet : List UInt8} {i : Nat} (x : UInt8) (hi : i ≠ 0) : ihl (packet.set i x) = ihl packet := by
  simp only [ihl, List.getD_eq_getElem?_getD, List.getElem?_set_ne hi]

/-! ## The loops of the source -/

/-- Folding the carries gives the one's-complement sum. -/
theorem foldCarry_eq (n : Nat) : foldCarry n = norm 65535 n := by
  have hlow : ∀ n : Nat, n &&& 0xffff = n % 65536 := fun n => Nat.and_two_pow_sub_one_eq_mod n 16
  have hhigh : ∀ n : Nat, n >>> 16 = n / 65536 := fun n => Nat.shiftRight_eq_div_pow n 16
  fun_induction foldCarry n with
  | case1 n h ih =>
    rw [hlow, hhigh] at ih
    rw [hhigh] at h
    rw [hlow, hhigh, ih]
    have hsplit : n = n % 65536 + n / 65536 + 65535 * (n / 65536) := by omega
    conv => rhs; rw [hsplit]
    exact (norm_add_mul (by omega) _).symm
  | case2 n h =>
    rw [hhigh] at h
    exact (norm_of_le (by omega)).symm

/-- The sum over the words of the header. -/
theorem sumWords_eq (packet : List UInt8) : ∀ (n i sum : Nat), i + 2 * n ≤ packet.length →
    sumWords (ε := ε) packet n i sum = .ok (sum + (words (window packet i (2 * n))).sum)
  | 0, i, sum, _ => by
    rw [sumWords, Nat.mul_zero, window, List.take_zero]
    rfl
  | n + 1, i, sum, h => by
    have hwin : window packet i (2 * (n + 1)) =
        packet[i] :: packet[i + 1] :: window packet (i + 2) (2 * n) := by
      rw [window, List.drop_eq_getElem_cons (by omega), List.drop_eq_getElem_cons (by omega)]
      rfl
    rw [sumWords, index_ok (show i < packet.length by omega), ok_bind,
      index_ok (show i + 1 < packet.length by omega), ok_bind, sumWords_eq packet n (i + 2) _ (by omega), hwin, words,
      List.sum_cons, Nat.add_assoc]

theorem not_toNat {n : Nat} (h : n ≤ 65535) : (~~~UInt16.ofNat n).toNat = 65535 - n := by
  rw [UInt16.toNat_not, UInt16.toNat_ofNat_of_lt' (by unfold UInt16.size; omega)]
  rfl

/-! ## Well-formed packets -/

section
variable {packet : List UInt8} {ttl : UInt8}

theorem WellFormed.long (h : WellFormed packet) : 20 ≤ packet.length := by
  have := h.header
  have := h.fits
  have := h.complete
  omega

/-- A packet that is not well-formed, or has the TTL already, is left alone, and so is any when the TTL is 0. -/
theorem setIpv4Ttl_keep (h : ¬ (WellFormed packet ∧ ttl ≠ 0 ∧ packet.getD 8 0 ≠ ttl)) :
    setIpv4Ttl (ε := ε) packet ttl = .ok (false, packet) := by
  unfold setIpv4Ttl
  by_cases hlen : packet.length < 20
  · rw [if_pos hlen]
    rfl
  have h0 : packet[0] = packet.getD 0 0 := List.getElem_eq_getD 0
  have h8 : packet[8] = packet.getD 8 0 := List.getElem_eq_getD 0
  have htotal : beNat [packet[2], packet[3]] = totalLength packet := by rw [totalLength, window_two (by omega)]
  have hihl : (packet.getD 0 0 &&& 0x0f).toNat * 4 = ihl packet := rfl
  rw [if_neg hlen, index_ok (show 0 < packet.length by omega), ok_bind, h0]
  by_cases hver : packet.getD 0 0 >>> 4 ≠ 4 ∨ ttl = 0
  · rw [if_pos hver]
    rfl
  rw [if_neg hver, index_ok (show 2 < packet.length by omega), index_ok (show 3 < packet.length by omega), ok_bind,
    ok_bind]
  simp only [htotal, hihl]
  split
  · rfl
  next hsize =>
  rw [index_ok (show 8 < packet.length by omega), ok_bind, h8]
  by_cases hsame : packet.getD 8 0 = ttl
  · rw [if_pos hsame]
    rfl
  · obtain ⟨hver, httl⟩ := not_or.mp hver
    refine absurd ⟨⟨not_not.mp hver, ?_, ?_, ?_⟩, httl, hsame⟩ h
    all_goals omega

/-- Any other packet gets the TTL and the checksum. -/
theorem setIpv4Ttl_resealed (h : WellFormed packet) (httl : ttl ≠ 0) (hne : packet.getD 8 0 ≠ ttl) :
    setIpv4Ttl (ε := ε) packet ttl = .ok (true, resealed ttl packet) := by
  have hlen := h.long
  have hheader := h.header
  have hfits := h.fits
  have hcomplete := h.complete
  have hmod := ihl_mod packet
  have h0 : packet[0] = packet.getD 0 0 := List.getElem_eq_getD 0
  have h8 : packet[8] = packet.getD 8 0 := List.getElem_eq_getD 0
  have htotal : beNat [packet[2], packet[3]] = totalLength packet := by rw [totalLength, window_two (by omega)]
  have hihl : (packet.getD 0 0 &&& 0x0f).toNat * 4 = ihl packet := rfl
  -- The words summed are those of the header with the new TTL and no checksum.
  have hsum : sumWords (ε := ε) (((packet.set 8 ttl).set 10 0).set 11 0) ((ihl packet + 1) / 2) 0 0 =
      .ok (words ((unsealed (packet.set 8 ttl)).take (ihl (packet.set 8 ttl)))).sum := by
    rw [sumWords_eq _ _ _ _ (by simp only [List.length_set]; omega), window, List.drop_zero, Nat.zero_add,
      ihl_set ttl (by decide), show 2 * ((ihl packet + 1) / 2) = ihl packet by omega]
    rfl
  have hcsum : (~~~UInt16.ofNat (foldCarry
      (words ((unsealed (packet.set 8 ttl)).take (ihl (packet.set 8 ttl)))).sum)).toNat =
      checksum (packet.set 8 ttl) := by
    rw [foldCarry_eq, ← sum_eq (by decide) (words_le _), not_toNat (sum_le (by decide) (words_le _)), checksum]
  unfold setIpv4Ttl
  rw [if_neg (by omega), index_ok (show 0 < packet.length by omega), ok_bind, h0,
    if_neg (not_or.mpr ⟨not_not.mpr h.version, httl⟩), index_ok (show 2 < packet.length by omega),
    index_ok (show 3 < packet.length by omega), ok_bind, ok_bind]
  simp only [htotal, hihl]
  rw [if_neg (by omega), index_ok (show 8 < packet.length by omega), ok_bind, h8, if_neg hne,
    store_ok _ (show 8 < packet.length by omega), ok_bind, store_ok _ (by simp; omega), ok_bind,
    store_ok _ (by simp; omega), ok_bind, hsum, ok_bind, hcsum, store_ok _ (by simp; omega), ok_bind,
    store_ok _ (by simp; omega), ok_bind]
  congr 2
  -- The checksum is written over the zeros.
  simp only [resealed]
  rw [List.set_comm 0 _ (show (11 : Nat) ≠ 10 by decide), List.set_set, List.set_set]

instance (packet : List UInt8) : Decidable (WellFormed packet) :=
  decidable_of_iff (packet.getD 0 0 >>> 4 = 4 ∧ 20 ≤ ihl packet ∧ ihl packet ≤ totalLength packet ∧
    totalLength packet ≤ packet.length)
    ⟨fun ⟨h₁, h₂, h₃, h₄⟩ => ⟨h₁, h₂, h₃, h₄⟩, fun h => ⟨h.version, h.header, h.fits, h.complete⟩⟩

/-- What `set_ipv4_ttl` answers, whatever errors its caller may have. -/
theorem setIpv4Ttl_eq (packet : List UInt8) (ttl : UInt8) : setIpv4Ttl (ε := ε) packet ttl =
    .ok (if WellFormed packet ∧ ttl ≠ 0 ∧ packet.getD 8 0 ≠ ttl then (true, resealed ttl packet)
      else (false, packet)) := by
  split
  · next h => exact setIpv4Ttl_resealed h.1 h.2.1 h.2.2
  · next h => exact setIpv4Ttl_keep h

theorem resealed_ttl (ttl : UInt8) (h : 20 ≤ packet.length) : (resealed ttl packet)[8]? = some ttl := by
  simp only [resealed]
  rw [List.getElem?_set_ne (by decide), List.getElem?_set_ne (by decide), List.getElem?_set_self (by omega)]

/-! ## Packets under their checksum -/

/-- A well-formed packet with the checksum of its header. -/
structure Sound (packet : List UInt8) : Prop extends WellFormed packet where
  checksum_eq : beNat (window packet 10 2) = checksum packet

/-- A sound packet with this TTL is what it would be made. -/
theorem Sound.resealed_eq (h : Sound packet) (hsame : packet.getD 8 0 = ttl) : resealed ttl packet = packet := by
  have hlen := h.long
  have h8 : packet.set 8 ttl = packet := by
    rw [← hsame, ← List.getElem_eq_getD (h := show 8 < packet.length by omega) 0, List.set_getElem_self]
  have hcsum : checksum packet = packet[10].toNat * 256 + packet[11].toNat := by
    rw [← h.checksum_eq, window_two (by omega), beNat_pair]
  have h11 := packet[11].toNat_lt
  have hhigh : UInt8.ofNat (checksum packet / 256) = packet[10] := by
    rw [hcsum, show (packet[10].toNat * 256 + packet[11].toNat) / 256 = packet[10].toNat by omega, UInt8.ofNat_toNat]
  have hlow : UInt8.ofNat (checksum packet) = packet[11] := by
    apply UInt8.toNat_inj.mp
    rw [UInt8.toNat_ofNat', hcsum]
    omega
  simp only [resealed, h8, hhigh, hlow, List.set_getElem_self]

/-- What the TTL and the checksum are overwritten with is all that is left of them. -/
theorem SameButTtl.overwritten {packet' : List UInt8} (h : SameButTtl packet packet') (a b c : UInt8) :
    ((packet'.set 8 a).set 10 b).set 11 c = ((packet.set 8 a).set 10 b).set 11 c := by
  apply List.ext_getElem?
  intro i
  have hlen := h.length
  by_cases h8 : i = 8
  · subst h8
    simp only [List.getElem?_set, List.length_set, hlen]
    simp
  by_cases h10 : i = 10
  · subst h10
    simp only [List.getElem?_set, List.length_set, hlen]
    simp
  by_cases h11 : i = 11
  · subst h11
    simp only [List.getElem?_set, List.length_set, hlen]
    simp
  · rw [List.getElem?_set_ne (Ne.symm h11), List.getElem?_set_ne (Ne.symm h10), List.getElem?_set_ne (Ne.symm h8),
      List.getElem?_set_ne (Ne.symm h11), List.getElem?_set_ne (Ne.symm h10), List.getElem?_set_ne (Ne.symm h8),
      h.bytes i h8 h10 h11]

/-- So packets that differ in nothing else are made the same packet. -/
theorem resealed_congr {packet' : List UInt8} (h : SameButTtl packet packet') :
    resealed ttl packet' = resealed ttl packet := by
  have hihl : ihl (packet'.set 8 ttl) = ihl (packet.set 8 ttl) := by
    rw [ihl_set ttl (by decide), ihl_set ttl (by decide)]
    simp only [ihl, List.getD_eq_getElem?_getD, h.bytes 0 (by decide) (by decide) (by decide)]
  have hcsum : checksum (packet'.set 8 ttl) = checksum (packet.set 8 ttl) := by
    rw [checksum, checksum, hihl, unsealed, unsealed, h.overwritten]
  simp only [resealed, hcsum, h.overwritten]

/-! ## The header after the change -/

/-- A checksum written into the header counts in the place of a zero one. -/
theorem words_resealed (packet : List UInt8) (h : 20 ≤ ihl packet) (hlen : ihl packet ≤ packet.length) {c : Nat}
    (hc : c ≤ 65535) :
    (words (((packet.set 10 (UInt8.ofNat (c / 256))).set 11 (UInt8.ofNat c)).take (ihl packet))).sum =
      (words ((unsealed packet).take (ihl packet))).sum + c := by
  have hhead : 2 * 5 + 1 < (packet.take (ihl packet)).length := by
    rw [List.length_take]
    omega
  have hnew := words_sum_set (UInt8.ofNat (c / 256)) (UInt8.ofNat c) 5 _ hhead
  have hzero := words_sum_set 0 0 5 _ hhead
  have hcsum : beNat [UInt8.ofNat (c / 256), UInt8.ofNat c] = c := by
    rw [beNat_pair, UInt8.toNat_ofNat', UInt8.toNat_ofNat']
    omega
  have hnil : beNat [0, 0] = 0 := by decide
  simp only [show 2 * 5 = 10 from rfl, show 10 + 1 = 11 from rfl] at hnew hzero
  simp only [unsealed, List.take_set]
  omega

/-- The words of a header under its checksum fold to the word with every bit set. -/
theorem foldCarry_resealed (h : WellFormed packet) :
    foldCarry (words ((resealed ttl packet).take (ihl packet))).sum = 0xffff := by
  have hfits := h.fits
  have hcomplete := h.complete
  have hihl : ihl (packet.set 8 ttl) = ihl packet := ihl_set ttl (by decide)
  have hle : checksum (packet.set 8 ttl) ≤ 65535 := Nat.sub_le _ _
  have hsum := words_resealed (packet.set 8 ttl) (by rw [hihl]; exact h.header)
    (by rw [hihl, List.length_set]; omega) hle
  rw [hihl] at hsum
  rw [resealed, hsum, foldCarry_eq, checksum, sum_eq (by decide) (words_le _), hihl]
  exact norm_add_compl (by decide) _

theorem sameButTtl_resealed (ttl : UInt8) (packet : List UInt8) : SameButTtl packet (resealed ttl packet) :=
  (((SameButTtl.refl packet).set _ (.inl rfl)).set _ (.inr (.inl rfl))).set _ (.inr (.inr rfl))

/-- `set_ipv4_ttl` on any bytes: no access is out of range, the packet is changed just when its four
lengths agree and the TTL is another, and then its header sums to all ones again. -/
theorem setIpv4Ttl_spec (packet : List UInt8) (ttl : UInt8) : ∃ changed packet',
    setIpv4Ttl (ε := ε) packet ttl = .ok (changed, packet') ∧
      (changed = true ↔ 20 ≤ packet.length ∧ packet.getD 0 0 >>> 4 = 4 ∧ ttl ≠ 0 ∧ 20 ≤ ihl packet ∧
        ihl packet ≤ totalLength packet ∧ totalLength packet ≤ packet.length ∧ packet.getD 8 0 ≠ ttl) ∧
      (changed = true → packet'.length = packet.length ∧ packet'[8]? = some ttl ∧
        foldCarry (words (packet'.take (ihl packet))).sum = 0xffff ∧
        ∀ i, i ≠ 8 → i ≠ 10 → i ≠ 11 → packet'[i]? = packet[i]?) ∧
      (changed = false → packet' = packet) := by
  rw [setIpv4Ttl_eq]
  by_cases h : WellFormed packet ∧ ttl ≠ 0 ∧ packet.getD 8 0 ≠ ttl
  · rw [if_pos h]
    obtain ⟨hwf, httl, hne⟩ := h
    have hlen := hwf.long
    have hsame := sameButTtl_resealed ttl packet
    refine ⟨true, _, rfl, ⟨fun _ => ?_, fun _ => rfl⟩, fun _ => ?_, by simp⟩
    · exact ⟨hlen, hwf.version, httl, hwf.header, hwf.fits, hwf.complete, hne⟩
    · exact ⟨hsame.length, resealed_ttl ttl hlen, foldCarry_resealed hwf, hsame.bytes⟩
  · rw [if_neg h]
    refine ⟨false, packet, rfl, ⟨by simp, ?_⟩, by simp, fun _ => rfl⟩
    intro ⟨_, hver, httl, hheader, hfits, hcomplete, hne⟩
    exact absurd ⟨⟨hver, hheader, hfits, hcomplete⟩, httl, hne⟩ h

end

end Nfqttl
