/-
What leaves the phone says nothing of the TTL a packet came with: two packets that
differ in their TTL alone, each under its own checksum, leave as the same bytes.

One of them may take the fast path, which leaves a packet with the right TTL as its
sender made it, and the other the path that writes the TTL and sums the header again.
-/
import Nfqttl.Checksum
import Nfqttl.Verdict

namespace Nfqttl.Nfqueue

open Bytes Netlink

/-- The data of the last payload attribute of a message. -/
def payloadOf (b : List UInt8) : Option (List UInt8) :=
  (attributes b 20).bind fun as => (lastOf isPayload as).map (·.data)

/-- The packet that leaves: the payload of the verdict `v`, or else the one received with `msg`. -/
def leaving (msg v : List UInt8) : Option (List UInt8) := (payloadOf v).or (payloadOf msg)

/-- A complete and sound IPv4 packet in `FORWARD`, in the payload `p`. -/
structure Forwarded (msg : List UInt8) (as : List Attr) (hdr p : Attr) : Prop where
  attrs : attributes msg 20 = some as
  header : lastOf isHdr as = some hdr
  ipv4 : beNat (window hdr.data 4 2) = 0x0800
  forward : hdr.data.getD 6 0 = nfInetForward
  payload : lastOf isPayload as = some p
  complete : ∀ c, lastOf isCap as = some c → beNat c.data = p.data.length
  sound : Sound p.data

/-- The messages differ at most in the TTL and the header checksum of the packet in `p`. -/
structure DifferInTtl (p : Attr) (msg msg' : List UInt8) : Prop where
  length : msg'.length = msg.length
  others : ∀ i, i ≠ p.pos + 8 → i ≠ p.pos + 10 → i ≠ p.pos + 11 → msg'[i]? = msg[i]?

theorem payloadOf_verdict {queue : UInt16} {id : List UInt8} {payload : Option (List UInt8)} {v : List UInt8}
    (h : IsVerdict queue id payload v) : payloadOf v = payload := by
  rw [payloadOf, h.attrs, Option.bind_some]
  cases payload with
  | none => rfl
  | some d => rfl

/-- A sound packet in `FORWARD` leaves with the TTL, under the checksum that goes with it. -/
theorem leaving_resealed {queue : UInt16} {ttl : UInt8} (httl : ttl ≠ 0) {w w' : Work}
    (h : verdict queue ttl w = .ok () w') {as : List Attr} {hdr p : Attr} (hf : Forwarded w.msg as hdr p) :
    leaving w.msg w'.v = some (resealed ttl p.data) := by
  rcases verdict_run queue ttl w with ⟨e, -, hrun⟩ | ⟨w₁, as₁, hdr₁, sent, t, hrun, ha⟩
  · cases hrun.symm.trans h
  obtain rfl : w₁ = w' := by
    cases hrun.symm.trans h
    rfl
  obtain rfl : as₁ = as := Option.some.inj (ha.examined.attrs.symm.trans hf.attrs)
  obtain rfl : hdr₁ = hdr := Option.some.inj (ha.examined.header.symm.trans hf.header)
  rw [leaving, payloadOf_verdict ha.isVerdict]
  by_cases hsame : p.data.getD 8 0 = ttl
  · -- The TTL is right: nothing is rewritten, and the packet leaves as received.
    have hnone : sent = none := by
      rcases sent with _ | ⟨q, d⟩
      · rfl
      · have hrew := (ha.rewrites q d).mp rfl
        obtain rfl : q = p := Option.some.inj (hrew.payload.symm.trans hf.payload)
        have heq := hrew.rewritten.symm.trans (setIpv4Ttl_keep fun h => h.2.2 hsame)
        cases heq
    rw [hnone, Option.map_none, Option.none_or, payloadOf, hf.attrs, Option.bind_some, hf.payload, Option.map_some,
      hf.sound.resealed_eq hsame]
  · have hrew : Rewrites ttl as₁ hdr₁ p (resealed ttl p.data) :=
      ⟨hf.ipv4, hf.forward, hf.payload, hf.complete, setIpv4Ttl_resealed hf.sound.toWellFormed httl hsame⟩
    rw [(ha.rewrites _ _).mpr hrew]
    rfl

/-- The same attributes are read of both messages, the packets in `p` alike but for the TTL. -/
theorem DifferInTtl.payload {p : Attr} {msg msg' : List UInt8} (h : DifferInTtl p msg msg') {as as' : List Attr}
    (has : attributes msg 20 = some as) (has' : attributes msg' 20 = some as')
    (hp : lastOf isPayload as = some p) (hlong : 20 ≤ p.data.length) :
    lastOf isPayload as' = some (p.reread msg') ∧ SameButTtl p.data (p.reread msg').data := by
  obtain ⟨hin, hwin, -⟩ := attributes_mem has (lastOf_some hp).2
  -- The bytes that differ are data of `p`, so no attribute header holds one.
  have hhdr : ∀ x ∈ as, ∀ i, x.pos ≤ i + 4 → i < x.pos → msg'[i]? = msg[i]? := by
    intro x hx i hi hi'
    have hne : ∀ k < p.data.length, i ≠ p.pos + k := by
      intro k hk hik
      rcases attributes_apart has hx (lastOf_some hp).2 with rfl | hbefore | hafter
      all_goals omega
    exact h.others i (hne 8 (by omega)) (hne 10 (by omega)) (hne 11 (by omega))
  have heq := attributes_reread h.length has hhdr
  obtain rfl : as' = as.map (Attr.reread msg') := Option.some.inj (has'.symm.trans heq)
  have htype : ∀ x : Attr, isPayload (x.reread msg') = isPayload x := fun _ => rfl
  refine ⟨by rw [lastOf_map htype, hp, Option.map_some], ?_, ?_⟩
  · have := h.length
    rw [Attr.reread, length_window (by omega)]
  · intro i h8 h10 h11
    conv => rhs; rw [← hwin]
    simp only [Attr.reread, window, List.getElem?_take, List.getElem?_drop]
    rw [h.others (p.pos + i) (by omega) (by omega) (by omega)]

/-- **The original TTL is hidden.** Two messages on which `verdict` succeeds and that differ
at most in the TTL and the header checksum of their last payload, a complete IPv4 packet in
`FORWARD` under the checksum of its header: the packets that leave are the same bytes, with
the TTL `verdict` was given. -/
theorem ttl_hidden {queue : UInt16} {ttl : UInt8} (httl : ttl ≠ 0) {w₁ w₁' w₂ w₂' : Work}
    (h₁ : verdict queue ttl w₁ = .ok () w₁') (h₂ : verdict queue ttl w₂ = .ok () w₂')
    {as₁ as₂ : List Attr} {hdr₁ hdr₂ p₁ p₂ : Attr} (hf₁ : Forwarded w₁.msg as₁ hdr₁ p₁)
    (hf₂ : Forwarded w₂.msg as₂ hdr₂ p₂) (hdiff : DifferInTtl p₁ w₁.msg w₂.msg) :
    ∃ packet, leaving w₁.msg w₁'.v = some packet ∧ leaving w₂.msg w₂'.v = some packet ∧ packet[8]? = some ttl := by
  obtain ⟨hp₂, hsame⟩ := hdiff.payload hf₁.attrs hf₂.attrs hf₁.payload hf₁.sound.long
  obtain rfl : p₂ = p₁.reread w₂.msg := Option.some.inj (hf₂.payload.symm.trans hp₂)
  refine ⟨resealed ttl p₁.data, leaving_resealed httl h₁ hf₁, ?_, resealed_ttl ttl hf₁.sound.long⟩
  rw [leaving_resealed httl h₂ hf₂, resealed_congr hsame]

/-- A packet of 40 bytes with this TTL and this header checksum, and the message that announces it. -/
def ipv4 (ttl : UInt8) (csum : Nat) : List UInt8 :=
  [0x45, 0, 0, 40, 0, 0, 0, 0, ttl, 17] ++ toBe 2 csum ++ List.replicate 28 0

def tethered (ttl : UInt8) (csum : Nat) : List UInt8 :=
  withLen (beginInto nfqnlMsgPacket 0 1 6464 ++ tlv nfqaPacketHdr [0, 0, 0, 42, 8, 0, 2] ++
    tlv nfqaPayload (ipv4 ttl csum))

theorem ttl_hidden_tethered :
    leaving (tethered 63 0x7bc6) (final (verdict 6464 64 ⟨tethered 63 0x7bc6, [], {}⟩)).v =
      leaving (tethered 64 0x7ac6) (final (verdict 6464 64 ⟨tethered 64 0x7ac6, [], {}⟩)).v := by
  have hok : ∀ msg : List UInt8, (final (verdict 6464 64 ⟨msg, [], {}⟩)).stats.seen = 1 →
      verdict 6464 64 ⟨msg, [], {}⟩ = .ok () (final (verdict 6464 64 ⟨msg, [], {}⟩)) := by
    intro msg hseen
    rcases verdict_run 6464 64 ⟨msg, [], {}⟩ with ⟨e, -, hrun⟩ | ⟨w', as, hdr, sent, t, hrun, -⟩
    · rw [hrun] at hseen
      cases hseen
    · rw [hrun]
      rfl
  have hf : ∀ (ttl : UInt8) (csum : Nat), attributes (tethered ttl csum) 20 =
      some [⟨24, 1, [0, 0, 0, 42, 8, 0, 2]⟩, ⟨36, 10, ipv4 ttl csum⟩] → Sound (ipv4 ttl csum) →
      Forwarded (tethered ttl csum) [⟨24, 1, [0, 0, 0, 42, 8, 0, 2]⟩, ⟨36, 10, ipv4 ttl csum⟩]
        ⟨24, 1, [0, 0, 0, 42, 8, 0, 2]⟩ ⟨36, 10, ipv4 ttl csum⟩ := by
    intro ttl csum has hs
    exact ⟨has, rfl, rfl, rfl, rfl, fun c hc => (nomatch hc), hs⟩
  have hdiff : DifferInTtl ⟨36, 10, ipv4 63 0x7bc6⟩ (tethered 63 0x7bc6) (tethered 64 0x7ac6) := by
    have hlen : ∀ ttl csum, (tethered ttl csum).length = 76 := by
      intro ttl csum
      have hlong : 4 ≤ 20 + (align4 11 + align4 (4 + (ipv4 ttl csum).length)) := by omega
      rw [tethered, length_withLen (by simpa using hlong)]
      simp [ipv4, align4]
    refine ⟨by rw [hlen, hlen], fun i h8 h10 h11 => ?_⟩
    by_cases hi : i < 76
    · revert h8 h10 h11
      revert i
      decide +kernel
    · rw [List.getElem?_eq_none (by rw [hlen]; omega), List.getElem?_eq_none (by rw [hlen]; omega)]
  have h₁ := hok (tethered 63 0x7bc6) (by decide +kernel)
  have h₂ := hok (tethered 64 0x7ac6) (by decide +kernel)
  have hs₁ : Sound (ipv4 63 0x7bc6) := ⟨⟨by decide, by decide, by decide, by decide⟩, by decide⟩
  have hs₂ : Sound (ipv4 64 0x7ac6) := ⟨⟨by decide, by decide, by decide, by decide⟩, by decide⟩
  obtain ⟨packet, hp₁, hp₂, -⟩ := ttl_hidden (by decide) h₁ h₂ (hf 63 0x7bc6 (by decide +kernel) hs₁)
    (hf 64 0x7ac6 (by decide +kernel) hs₂) hdiff
  exact hp₁.trans hp₂.symm

end Nfqttl.Nfqueue
