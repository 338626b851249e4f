/-
The Rust worker refines the C worker it replaces: on the frames both take the same way
they fail together, or send the same verdict, byte for byte.

Where they differ the frame is left out: the C worker gives up at a packet header that is
too short and at a capture length that is not 4 bytes long, which the Rust worker passes
over, and takes a capture length of 0 for none.
-/
import Nfqttl.Lite
import Nfqttl.Checksum
import Nfqttl.Verdict

namespace Nfqttl.Lite

open Bytes Netlink Nfqueue

/-! ## `set_ipv4_ttl` -/

theorem or_eq_beNat (a b : UInt8) : a.toNat <<< 8 ||| b.toNat = beNat [a, b] := by
  have hb := b.toNat_lt
  rw [← Nat.shiftLeft_add_eq_or_of_lt (show b.toNat < 2 ^ 8 by omega), Nat.shiftLeft_eq, beNat_pair]

theorem sumWords_eq (p : List UInt8) : ∀ (n i sum : Nat), sumWords p n i sum = Nfqttl.sumWords p n i sum
  | 0, _, _ => rfl
  | n + 1, i, sum => by
    simp only [sumWords, Nfqttl.sumWords, or_eq_beNat, sumWords_eq p n]

theorem complement_eq {n : Nat} (h : n ≤ 65535) :
    (0xffffffff - n) &&& 65535 = (~~~UInt16.ofNat n).toNat := by
  have hand : (0xffffffff - n) &&& 65535 = (0xffffffff - n) % 65536 := Nat.and_two_pow_sub_one_eq_mod _ 16
  rw [hand, UInt16.toNat_not, UInt16.toNat_ofNat_of_lt' (by unfold UInt16.size; omega)]
  unfold UInt16.size
  omega

theorem foldCarry_le (n : Nat) : foldCarry n ≤ 65535 := by
  rw [foldCarry_eq]
  exact OnesSum.norm_le (by decide) n

/-- The checks come in another order, and what is done is the same. -/
theorem setIpv4Ttl_eq (p : List UInt8) (ttl : UInt8) : setIpv4Ttl p ttl = Nfqttl.setIpv4Ttl p ttl := by
  unfold setIpv4Ttl Nfqttl.setIpv4Ttl
  by_cases hlen : p.length < 20
  · rw [if_pos hlen, if_pos hlen]
  rw [if_neg hlen, if_neg hlen, index_ok (show 0 < p.length by omega), ok_bind, ok_bind]
  by_cases hver : p[0] >>> 4 ≠ 4
  · rw [if_pos hver, if_pos (.inl hver)]
  rw [if_neg hver]
  by_cases httl : ttl = 0
  · rw [if_pos (.inr httl), index_ok (show 2 < p.length by omega), index_ok (show 3 < p.length by omega), ok_bind,
      ok_bind]
    simp only
    rw [if_pos (.inr (.inr (.inr (.inr httl))))]
  rw [if_neg (not_or.mpr ⟨hver, httl⟩), index_ok (show 2 < p.length by omega), index_ok (show 3 < p.length by omega),
    ok_bind, ok_bind, ok_bind, ok_bind]
  simp only [or_eq_beNat]
  simp only [httl, or_false]
  split
  · rfl
  next hsize =>
  rw [index_ok (show 8 < p.length by omega), ok_bind, ok_bind]
  by_cases hsame : p[8] = ttl
  · rw [if_pos hsame, if_pos hsame]
  -- The sums are of the same words, and their complements are the same.
  obtain ⟨sum, hsum⟩ := sumWords_ok (ε := Unit) (((p.set 8 ttl).set 10 0).set 11 0)
    (((p[0] &&& 0x0f).toNat * 4 + 1) / 2) 0 0 (by simp only [List.length_set]; omega)
  have hshift : ∀ n : Nat, n >>> 8 = n / 256 := fun n => Nat.shiftRight_eq_div_pow n 8
  rw [if_neg hsame, if_neg hsame, store_ok _ (show 8 < p.length by omega), ok_bind, ok_bind,
    store_ok _ (by simp; omega), ok_bind, store_ok _ (by simp; omega), ok_bind, store_ok _ (by simp; omega), ok_bind,
    store_ok _ (by simp; omega), ok_bind, sumWords_eq,
    List.set_comm 0 0 (show (11 : Nat) ≠ 10 by decide), hsum, ok_bind, ok_bind, complement_eq (foldCarry_le sum)]
  simp only [hshift]

/-! ## The attribute walk -/

/-- The attributes both workers make the same of. -/
structure Common (x : Attr) : Prop where
  header : x.ty = nfqaPacketHdr → 7 ≤ x.data.length
  cap : x.ty = nfqaCapLen → x.data.length = 4 ∧ x.data ≠ [0, 0, 0, 0]

/-- The two walks have seen the same. -/
structure Alike (c : Seen) (r : Nfqueue.Seen) : Prop where
  haveId : c.haveId = r.id.isSome
  id : ∀ id, r.id = some id → c.id = id
  hook : c.hook = r.hook.toNat
  protocol : c.protocol = r.proto
  payload : c.payload = r.payload
  caplen : c.caplen = r.cap.getD 0
  cap : r.cap ≠ some 0

theorem beNat_ne_zero {d : List UInt8} (hlen : d.length = 4) (hd : d ≠ [0, 0, 0, 0]) : beNat d ≠ 0 := by
  obtain ⟨a, b, c, e, rfl⟩ := List.length_eq_four.mp hlen
  intro h
  simp only [beNat, List.reverse_cons, List.reverse_nil, List.nil_append, List.cons_append, leNat_cons, leNat_nil] at h
  have hzero : ∀ x : UInt8, x.toNat = 0 → x = 0 := fun x hx => UInt8.toNat_inj.mp hx
  refine hd ?_
  rw [hzero a (by omega), hzero b (by omega), hzero c (by omega), hzero e (by omega)]

/-- What the `switch` reads of an attribute is within it. -/
theorem note_run (c : Seen) (off ty : Nat) (d : List UInt8) :
    (∃ c', c.note off ty d = .ok c') ∨ c.note off ty d = fail := by
  unfold Seen.note
  split
  · by_cases hlen : d.length < 7
    · exact .inr (if_pos hlen)
    · rw [if_neg hlen, slice_ok (by omega) (by omega), index_ok (show 6 < d.length by omega),
        index_ok (show 4 < d.length by omega), index_ok (show 5 < d.length by omega)]
      exact .inl ⟨_, rfl⟩
  split
  · exact .inl ⟨_, rfl⟩
  split
  · split
    · exact .inr rfl
    · exact .inl ⟨_, rfl⟩
  · exact .inl ⟨_, rfl⟩

/-- Of an attribute both workers take alike, both see the same. -/
theorem note_alike {c : Seen} {r : Nfqueue.Seen} (h : Alike c r) {off ty : Nat} {d : List UInt8}
    (hx : Common ⟨off + 4, ty, d⟩) : ∃ c', c.note off ty d = .ok c' ∧ Alike c' (r.after [⟨off + 4, ty, d⟩]) := by
  unfold Seen.note
  by_cases hh : ty = nfqaPacketHdr
  · subst hh
    have hlen : 7 ≤ d.length := hx.header rfl
    have hafter : r.after [⟨off + 4, nfqaPacketHdr, d⟩] =
        { r with id := some (d.take 4), proto := beNat (window d 4 2), hook := d.getD 6 0 } := by
      simp [Seen.after, lastOf_cons, isHdr, isPayload, isCap, nfqaPacketHdr, nfqaPayload, nfqaCapLen, hlen]
    rw [if_pos rfl, if_neg (by omega), slice_ok (by omega) (by omega), index_ok (show 6 < d.length by omega),
      index_ok (show 4 < d.length by omega), index_ok (show 5 < d.length by omega), hafter]
    refine ⟨_, rfl, ?_⟩
    refine ⟨rfl, fun id hid => Option.some.inj hid, ?_, ?_, h.payload, h.caplen, h.cap⟩
    · simp only [List.getD_eq_getElem?_getD, List.getElem?_eq_getElem (show 6 < d.length by omega), Option.getD_some]
    · simp only [window_two (show 4 + 2 ≤ d.length by omega)]
  rw [if_neg hh]
  by_cases hp : ty = nfqaPayload
  · subst hp
    rw [if_pos rfl]
    have hafter : r.after [⟨off + 4, nfqaPayload, d⟩] = { r with payload := some (off + 4, d.length) } := by
      simp [Seen.after, lastOf_cons, isHdr, isPayload, isCap, nfqaPacketHdr, nfqaPayload, nfqaCapLen]
    rw [hafter]
    exact ⟨_, rfl, h.haveId, h.id, h.hook, h.protocol, rfl, h.caplen, h.cap⟩
  rw [if_neg hp]
  by_cases hc : ty = nfqaCapLen
  · subst hc
    obtain ⟨hlen, hne⟩ := hx.cap rfl
    have hafter : r.after [⟨off + 4, nfqaCapLen, d⟩] = { r with cap := some (beNat d) } := by
      simp [Seen.after, lastOf_cons, isHdr, isPayload, isCap, nfqaPacketHdr, nfqaPayload, nfqaCapLen, hlen]
    rw [if_pos rfl, if_neg (not_not.mpr hlen), hafter]
    exact ⟨_, rfl, h.haveId, h.id, h.hook, h.protocol, h.payload, rfl,
      fun he => beNat_ne_zero hlen hne (Option.some.inj he)⟩
  · have hafter : r.after [⟨off + 4, ty, d⟩] = r := by
      simp [Seen.after, lastOf_cons, isHdr, isPayload, isCap, hh, hp, hc]
    rw [if_neg hc, hafter]
    exact ⟨_, rfl, h⟩

/-- The walks read the same attributes, or both meet an ill-sized one. -/
theorem walk_alike (msg : List UInt8) (off : Nat) (c : Seen) :
    match attributes msg off with
    | some as => (∀ x ∈ as, Common x) → ∀ r, Alike c r →
      ∃ c', walk msg msg.length off c = .ok c' ∧ Alike c' (r.after as)
    | none => walk msg msg.length off c = fail := by
  fun_induction attributes msg off generalizing c with
  | case1 off hoff len hlen =>
    rename_i ih
    have hstep : walk msg msg.length off c =
        (c.note off (leNat (window msg (off + 2) 2) &&& typeMask) (window msg (off + 4) (len - 4)) >>= fun a =>
          walk msg msg.length (off + align4 len) a) := by
      have hnot : ¬ (len < 4 ∨ len > msg.length - off) := by omega
      rw [walk, if_pos hoff, slice_window (show off + 2 ≤ msg.length by omega), ok_bind,
        slice_window (show off + 2 + 2 ≤ msg.length by omega), ok_bind]
      rw [if_neg hnot, show off + len = off + 4 + (len - 4) by omega, slice_window (by omega), ok_bind]
    rw [hstep]
    cases hrest : attributes msg (off + align4 len) with
    | none =>
      -- A later attribute is ill-sized, and this one may be bad too.
      change _ = fail
      rcases note_run c off (leNat (window msg (off + 2) 2) &&& typeMask) (window msg (off + 4) (len - 4)) with
        ⟨c', hc'⟩ | hfail
      · have hih := ih c'
        rw [hrest] at hih
        rw [hc', ok_bind, hih]
      · rw [hfail]
        rfl
    | some as =>
      simp only [Option.map_some]
      intro hall r hr
      obtain ⟨c', hnote, hc'⟩ := note_alike hr (hall _ (List.mem_cons_self ..))
      have hih := ih c'
      rw [hrest] at hih
      obtain ⟨c'', hwalk, hc''⟩ := hih (fun x hx => hall x (List.mem_cons_of_mem _ hx)) _ hc'
      rw [hnote, ok_bind]
      exact ⟨c'', hwalk, Seen.after_cons r _ as ▸ hc''⟩
  | case2 off hoff len hlen =>
    have hbad : len < 4 ∨ len > msg.length - off := by omega
    rw [walk, if_pos hoff, slice_window (show off + 2 ≤ msg.length by omega), ok_bind,
      slice_window (show off + 2 + 2 ≤ msg.length by omega), ok_bind]
    exact if_pos hbad
  | case3 off hoff =>
    intro _ r hr
    exact ⟨c, by rw [walk, if_neg hoff]; rfl, hr⟩

/-! ## The rewrite -/

/-- A capture length of 0 was never read, so 0 stands for none. -/
theorem Alike.caplen_iff {c : Seen} {as : List Attr} (h : Alike c (({} : Nfqueue.Seen).after as)) (n : Nat) :
    (c.caplen = 0 ∨ c.caplen = n) ↔ ∀ x, lastOf isCap as = some x → beNat x.data = n := by
  have hcaplen := h.caplen
  have hne := h.cap
  simp only [Seen.after, Option.or_none] at hcaplen hne
  rw [hcaplen]
  cases hx : lastOf isCap as with
  | none => simp
  | some x => simpa [hx] using fun h => absurd h (by simpa [hx] using hne)

/-- The C worker rewrites the payload exactly when the Rust worker does, and to the same. -/
theorem rewrite_alike {c : Seen} (ttl : UInt8) {msg : List UInt8} {as : List Attr} {hdr : Attr}
    (has : attributes msg 20 = some as) (hhdr : lastOf isHdr as = some hdr)
    (hc : Alike c (({} : Nfqueue.Seen).after as)) :
    (∀ p d, Rewrites ttl as hdr p d → rewrite c ttl.toNat msg = .ok (true, splice msg p.pos d)) ∧
    ((∀ p d, ¬ Rewrites ttl as hdr p d) → rewrite c ttl.toNat msg = .ok (false, msg)) := by
  have hproto : c.protocol = beNat (window hdr.data 4 2) := by
    rw [hc.protocol]
    simp only [Seen.after, hhdr, Option.elim]
  have hhook : c.hook = (hdr.data.getD 6 0).toNat := by
    rw [hc.hook]
    simp only [Seen.after, hhdr, Option.elim]
  have hpayload : c.payload = (lastOf isPayload as).map fun p => (p.pos, p.data.length) := by
    rw [hc.payload]
    simp only [Seen.after, Option.or_none]
  cases hp : lastOf isPayload as with
  | none =>
    have hkeep : rewrite c ttl.toNat msg = .ok (false, msg) := by
      rw [rewrite, hpayload, hp]
      rfl
    exact ⟨fun p d h => absurd (hp.symm.trans h.payload) (by simp), fun _ => hkeep⟩
  | some p =>
    obtain ⟨hin, hwin, hsize⟩ := attributes_mem has (lastOf_some hp).2
    have hcond : (c.protocol = 0x0800 ∧ c.hook = nfInetForward.toNat ∧
        (c.caplen = 0 ∨ c.caplen = p.data.length) ∧ p.data.length ≤ 65535 - 4) ↔
        beNat (window hdr.data 4 2) = 0x0800 ∧ hdr.data.getD 6 0 = nfInetForward ∧
          ∀ x, lastOf isCap as = some x → beNat x.data = p.data.length := by
      rw [hproto, hhook, hc.caplen_iff, UInt8.toNat_inj, and_iff_left (show p.data.length ≤ 65535 - 4 by omega)]
    rw [rewrite, hpayload, hp, Option.map_some]
    simp only [hcond]
    by_cases hall : beNat (window hdr.data 4 2) = 0x0800 ∧ hdr.data.getD 6 0 = nfInetForward ∧
        ∀ x, lastOf isCap as = some x → beNat x.data = p.data.length
    case neg =>
      rw [if_neg hall]
      refine ⟨fun q d h => absurd ⟨h.ipv4, h.forward, fun x hx => ?_⟩ hall, fun _ => rfl⟩
      rw [h.complete x hx, Option.some.inj (hp.symm.trans h.payload)]
    rw [if_pos hall, slice_window hin, ok_bind, hwin, UInt8.ofNat_toNat, setIpv4Ttl_eq, Nfqttl.setIpv4Ttl_eq, ok_bind]
    by_cases hset : WellFormed p.data ∧ ttl ≠ 0 ∧ p.data.getD 8 0 ≠ ttl
    · rw [if_pos hset]
      have hrew : Rewrites ttl as hdr p (resealed ttl p.data) :=
        ⟨hall.1, hall.2.1, hp, hall.2.2, setIpv4Ttl_resealed hset.1 hset.2.1 hset.2.2⟩
      refine ⟨fun q d h => ?_, fun hno => absurd hrew (hno _ _)⟩
      obtain ⟨rfl, rfl⟩ := h.unique hrew
      rfl
    · rw [if_neg hset]
      refine ⟨fun q d h => ?_, fun _ => ?_⟩
      · obtain rfl : p = q := Option.some.inj (hp.symm.trans h.payload)
        exact absurd (h.rewritten.symm.trans (setIpv4Ttl_keep hset)) (by simp)
      · have hback : splice msg p.pos p.data = msg := by
          conv => lhs; rw [← hwin]
          exact splice_window hin
        simp only [hback]
        rfl

/-! ## The transmit buffer -/

/-- The buffer begins with the message `v`, whose length its header gives. -/
structure Holds (tx : Tx) (v rest : List UInt8) : Prop where
  bytes : tx.bytes = v ++ rest
  length : leNat (window v 0 4) = v.length
  long : 4 ≤ v.length

theorem Holds.nlmsgLen {tx : Tx} {v rest : List UInt8} (h : Holds tx v rest) : tx.nlmsgLen = v.length := by
  rw [Tx.nlmsgLen, h.bytes, window_append_left _ (by simpa using h.long), h.length]

theorem Holds.message {tx : Tx} {v rest : List UInt8} (h : Holds tx v rest) : tx.message = v := by
  rw [Tx.message, h.nlmsgLen, h.bytes, List.take_left' rfl]

theorem begin_holds (tx : Tx) (queue : UInt16) :
    Holds (begin tx nfqnlMsgVerdict 0 0 queue.toNat) (beginInto nfqnlMsgVerdict 0 0 queue) (tx.bytes.drop 20) where
  bytes := by simp [begin, Tx.write, splice, beginInto, toLe, toBe]
  length := by
    rw [length_beginInto]
    rfl
  long := by
    rw [length_beginInto]
    decide

/-- The five writes of `attr` to what comes after the message. -/
theorem splice_tlv (ty : Nat) (data rest : List UInt8) (h : 4 ≤ rest.length) :
    splice (splice (splice (splice rest 2 (toLe 2 ty)) 0 (toLe 2 (4 + data.length))) 4 data) (4 + data.length)
      (List.replicate (align4 (4 + data.length) - (4 + data.length)) 0) =
      tlv ty data ++ rest.drop (align4 (4 + data.length)) := by
  have hle := le_align4 (4 + data.length)
  obtain ⟨a, b, c, d, rest, rfl⟩ : ∃ a b c d rest', rest = a :: b :: c :: d :: rest' := by
    match rest, h with
    | a :: b :: c :: d :: rest, _ => exact ⟨a, b, c, d, rest, rfl⟩
  have hhead : splice (splice (a :: b :: c :: d :: rest) 2 (toLe 2 ty)) 0 (toLe 2 (4 + data.length)) =
      (toLe 2 (4 + data.length) ++ toLe 2 ty) ++ rest := by
    simp [splice, toLe]
  have hlen : (toLe 2 (4 + data.length) ++ toLe 2 ty).length = 4 := by simp
  have hdata : splice rest 0 data = data ++ rest.drop data.length := splice_zero rest data
  rw [hhead, splice_append_right _ _ (le_of_eq hlen), hlen, Nat.sub_self, hdata, ← List.append_assoc,
    splice_append_right _ _ (by rw [List.length_append, hlen]), List.length_append, hlen, Nat.sub_self, splice_zero,
    List.length_replicate, List.drop_drop, tlv, List.append_assoc, List.append_assoc, List.append_assoc]
  have hdrop : List.drop (align4 (4 + data.length)) (a :: b :: c :: d :: rest) =
      rest.drop (data.length + (align4 (4 + data.length) - (4 + data.length))) := by
    obtain ⟨k, hk⟩ : ∃ k, align4 (4 + data.length) = k + 4 := ⟨align4 (4 + data.length) - 4, by omega⟩
    rw [hk, show data.length + (k + 4 - (4 + data.length)) = k by omega]
    rfl
  rw [hdrop]
  simp only [List.append_assoc]

/-- An attribute that fits is appended, and the length brought up to date. -/
theorem attr_holds {tx : Tx} {v rest : List UInt8} (h : Holds tx v rest) (ty : Nat) (data : List UInt8)
    (hal : align4 v.length = v.length) (hdata : 4 + data.length < 65536)
    (hroom : v.length + align4 (4 + data.length) ≤ txSize) :
    ∃ tx' rest', attr tx ty data = .ok tx' ∧ Holds tx' (withLen (v ++ tlv ty data)) rest' := by
  have hle := le_align4 (4 + data.length)
  have hlong := h.long
  have hlen : (v ++ tlv ty data).length = v.length + align4 (4 + data.length) := by simp
  have hrest : 4 ≤ rest.length := by
    have hsize := tx.size
    rw [h.bytes, List.length_append] at hsize
    omega
  unfold attr
  rw [dif_neg (by rw [h.nlmsgLen, hal]; omega)]
  refine ⟨_, rest.drop (align4 (4 + data.length)), rfl, ?_, ?_, ?_⟩
  · simp only [Tx.write, h.nlmsgLen, hal, h.bytes]
    rw [splice_append_right _ _ (by omega), splice_append_right _ _ (by omega), splice_append_right _ _ (by omega),
      splice_append_right _ _ (by omega), Nat.add_sub_cancel_left, Nat.sub_self, Nat.add_sub_cancel_left,
      Nat.add_sub_cancel_left, splice_tlv _ _ _ hrest, splice_zero, length_toLe, ← List.append_assoc,
      List.drop_append_of_le_length (by omega), withLen, hlen, List.append_assoc]
  · have hlt : (v ++ tlv ty data).length < 256 ^ 4 := by
      unfold txSize at hroom
      omega
    rw [length_withLen (by omega), withLen, window_prefix _ _ (length_toLe ..), leNat_toLe hlt]
  · rw [length_withLen (by omega)]
    omega

/-! ## The packet -/

/-- Both workers examine a frame alike: without a packet of the queue the C worker gives up. -/
theorem packet_fail {queue : UInt16} {ttl : Nat} {f : List UInt8} (hf : IsFrame f)
    (hcommon : ∀ as, attributes f 20 = some as → ∀ x ∈ as, Common x)
    (hno : ∀ as hdr, ¬ Examined queue f as hdr) (tx : Tx) : packet queue.toNat ttl f tx = fail := by
  have hlong := hf.1
  unfold packet
  rw [slice_window (show 0 + 4 ≤ f.length by omega), ok_bind, hf.2]
  by_cases hlen : f.length < 20
  · rw [if_pos hlen]
  rw [if_neg hlen, slice_window (show 18 + 2 ≤ f.length by omega), ok_bind]
  by_cases hqueue : beNat (window f 18 2) ≠ queue.toNat
  · rw [if_pos hqueue]
  rw [if_neg hqueue]
  have hwalk := walk_alike f 20 {}
  cases has : attributes f 20 with
  | none =>
    rw [has] at hwalk
    rw [hwalk]
    rfl
  | some as =>
    rw [has] at hwalk
    obtain ⟨c, hc, halike⟩ := hwalk (hcommon as has) {} ⟨rfl, nofun, rfl, rfl, rfl, rfl, nofun⟩
    have hnone : lastOf isHdr as = none := by
      cases hhdr : lastOf isHdr as with
      | none => rfl
      | some hdr => exact absurd ⟨by omega, not_not.mp hqueue, has, hhdr⟩ (hno as hdr)
    have hid : c.haveId = false := by
      rw [halike.haveId]
      simp [Seen.after, hnone]
    rw [hc, ok_bind, hid]
    rfl

/-- With one it goes on to the rewrite, and to the verdict. -/
theorem packet_run {queue : UInt16} (ttl : Nat) {f : List UInt8} (hf : IsFrame f)
    (hcommon : ∀ as, attributes f 20 = some as → ∀ x ∈ as, Common x) {as : List Attr} {hdr : Attr}
    (hex : Examined queue f as hdr) (tx : Tx) : ∃ c, Alike c (({} : Nfqueue.Seen).after as) ∧
      packet queue.toNat ttl f tx = (do
        let (changed, msg) ← rewrite c ttl f
        let tx ← attr (begin tx nfqnlMsgVerdict 0 0 queue.toNat) nfqaVerdictHdr (toBe 4 nfAccept ++ hdr.data.take 4)
        let tx ← if changed then attach tx c msg else pure tx
        return (msg, tx)) := by
  have hlong := hex.long
  have hwalk := walk_alike f 20 {}
  rw [hex.attrs] at hwalk
  obtain ⟨c, hc, halike⟩ := hwalk (hcommon as hex.attrs) {} ⟨rfl, nofun, rfl, rfl, rfl, rfl, nofun⟩
  have hafter : (({} : Nfqueue.Seen).after as).id = some (hdr.data.take 4) := by simp [Seen.after, hex.header]
  have hid : c.id = hdr.data.take 4 := halike.id _ hafter
  have hhave : c.haveId = true := by rw [halike.haveId, hafter, Option.isSome_some]
  refine ⟨c, halike, ?_⟩
  unfold packet
  rw [slice_window (show 0 + 4 ≤ f.length by omega), ok_bind, hf.2, if_neg (by omega),
    slice_window (show 18 + 2 ≤ f.length by omega), ok_bind, if_neg (not_not.mpr hex.queue), hc, ok_bind, hhave, hid]
  rfl

/-- The verdict header is the same in both messages. -/
theorem header_holds (tx : Tx) (queue : UInt16) {id : List UInt8} (hid : id.length = 4) :
    ∃ tx' rest, attr (begin tx nfqnlMsgVerdict 0 0 queue.toNat) nfqaVerdictHdr (toBe 4 nfAccept ++ id) = .ok tx' ∧
      Holds tx' (withLen (beginInto nfqnlMsgVerdict 0 0 queue ++ body id none)) rest := by
  have hbody : body id none = tlv nfqaVerdictHdr (toBe 4 nfAccept ++ id) := by simp [body]
  rw [hbody]
  exact attr_holds (begin_holds tx queue) _ _ (by rw [length_beginInto]; rfl) (by simp [hid])
    (by simp [hid, align4, txSize])

/-- The payload is attached after the 32 bytes there are. -/
theorem attach_holds {tx : Tx} {queue : UInt16} {id rest : List UInt8} (hid : id.length = 4)
    (h : Holds tx (withLen (beginInto nfqnlMsgVerdict 0 0 queue ++ body id none)) rest) {c : Seen} {f d : List UInt8}
    {pos : Nat} (hpay : c.payload = some (pos, d.length)) (hin : pos + d.length ≤ f.length)
    (hsize : 4 + d.length < 65536) : ∃ tx' rest', attach tx c (splice f pos d) = .ok tx' ∧
      Holds tx' (withLen (beginInto nfqnlMsgVerdict 0 0 queue ++ body id (some d))) rest' := by
  have hread : slice (ε := Unit) (splice f pos d) pos (pos + d.length) = .ok d := by
    rw [slice_window (by rw [length_splice hin]; exact hin), window_splice d (by omega)]
  have hlen : (withLen (beginInto nfqnlMsgVerdict 0 0 queue ++ body id none)).length = 32 := by
    rw [length_withLen (by rw [List.length_append, length_beginInto]; omega), List.length_append, length_beginInto]
    simp [body, hid, align4]
  have hbody : body id (some d) = body id none ++ tlv nfqaPayload d := by simp [body]
  have hlt := align4_lt (4 + d.length)
  have hattr := attr_holds h nfqaPayload d (by rw [hlen]; rfl) hsize (by rw [hlen]; unfold txSize; omega)
  rw [withLen_append (by rw [List.length_append, length_beginInto]; omega), List.append_assoc, ← hbody] at hattr
  simpa only [attach, hpay, hread, ok_bind] using hattr

/-- **The Rust worker refines the C worker.** On a frame whose packet headers are long enough
and whose capture lengths have four bytes that are not all zero, whatever else it holds,
`verdict` fails exactly when `packet` gives up before it sends; else both have made the
same verdict message, and the same of the frame. -/
theorem lite_refined (queue : UInt16) (ttl : UInt8) {f : List UInt8} (hf : IsFrame f)
    (hcommon : ∀ as, attributes f 20 = some as → ∀ x ∈ as, Common x) (v : List UInt8) (stats : PacketStats) (tx : Tx) :
    match verdict queue ttl ⟨f, v, stats⟩, packet queue.toNat ttl.toNat f tx with
    | .error (.err _) _, .error (.err _) => True
    | .ok _ w', .ok (f', tx') => tx'.message = w'.v ∧ f' = w'.msg
    | _, _ => False := by
  rcases verdict_run queue ttl ⟨f, v, stats⟩ with ⟨e, he, hrun⟩ | ⟨w', as, hdr, sent, t, hrun, ha⟩
  · have hno : ∀ as hdr, ¬ Examined queue f as hdr := by
      intro as hdr hex
      cases hex.run.symm.trans he
    rw [hrun, packet_fail hf hcommon hno]
    trivial
  obtain ⟨c, halike, hpacket⟩ := packet_run ttl.toNat hf hcommon ha.examined tx
  obtain ⟨hyes, hkeep⟩ := rewrite_alike ttl ha.examined.attrs ha.examined.header halike
  have hid := ha.examined.length_id
  obtain ⟨tx₁, rest, hattr, hholds⟩ := header_holds tx queue hid
  rw [hrun, hpacket]
  cases sent with
  | none =>
    have hno : ∀ p d, ¬ Rewrites ttl as hdr p d := fun p d h => by cases (ha.rewrites p d).mpr h
    rw [hkeep hno, ok_bind, hattr]
    exact ⟨by rw [hholds.message, ha.v, withLen_beginInto]; rfl, ha.msg.symm⟩
  | some sent =>
    obtain ⟨p, d⟩ := sent
    have hrew := (ha.rewrites p d).mp rfl
    have hdlen : d.length = p.data.length := ha.replaced.payload.length
    obtain ⟨hin, -, hsize⟩ := attributes_mem ha.examined.attrs (lastOf_some hrew.payload).2
    have hpay : c.payload = some (p.pos, d.length) := by
      rw [halike.payload, hdlen]
      simp [Seen.after, hrew.payload]
    obtain ⟨tx₂, rest₂, hattach, hholds₂⟩ := attach_holds hid hholds hpay (hdlen ▸ hin) (by omega)
    rw [hyes p d hrew, ok_bind, hattr]
    simp only [ok_bind, if_true, hattach]
    exact ⟨by rw [hholds₂.message, ha.v, withLen_beginInto]; rfl, ha.msg.symm⟩

theorem lite_refined_queued : ∃ f' tx',
    packet (6464 : UInt16).toNat (64 : UInt8).toNat (queued [40]) .blank = .ok (f', tx') ∧
      tx'.message = (final (verdict 6464 64 ⟨queued [40], [], {}⟩)).v := by
  have hsent : ∀ (f : List UInt8) (tx : Tx), IsFrame f → (∀ as, attributes f 20 = some as → ∀ x ∈ as, Common x) →
      (final (verdict 6464 64 ⟨f, [], {}⟩)).stats.seen = 1 → ∃ f' tx',
      packet (6464 : UInt16).toNat (64 : UInt8).toNat f tx = .ok (f', tx') ∧
        tx'.message = (final (verdict 6464 64 ⟨f, [], {}⟩)).v := by
    intro f tx hframe hcommon hseen
    have h := lite_refined 6464 64 hframe hcommon [] {} tx
    rcases verdict_run 6464 64 ⟨f, [], {}⟩ with ⟨e, -, hrun⟩ | ⟨w', as, hdr, sent, t, hrun, -⟩
    · rw [hrun] at hseen
      cases hseen
    rw [hrun] at h ⊢
    cases hpacket : packet (6464 : UInt16).toNat (64 : UInt8).toNat f tx with
    | error e =>
      rw [hpacket] at h
      exact h.elim
    | ok r =>
      rw [hpacket] at h
      exact ⟨r.1, r.2, rfl, h.1⟩
  have hattrs : attributes (queued [40]) 20 = some ((attributes (queued [40]) 20).getD []) := by decide +kernel
  have hall : ∀ x ∈ (attributes (queued [40]) 20).getD [], (x.ty = nfqaPacketHdr → 7 ≤ x.data.length) ∧
      (x.ty = nfqaCapLen → x.data.length = 4 ∧ x.data ≠ [0, 0, 0, 0]) := by decide +kernel
  refine hsent _ _ ⟨by decide +kernel, by decide +kernel⟩ (fun as has x hx => ?_) (by decide +kernel)
  rw [Option.some.inj (has.symm.trans hattrs)] at hx
  exact ⟨(hall x hx).1, (hall x hx).2⟩

end Nfqttl.Lite
