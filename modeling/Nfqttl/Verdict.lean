/-
What `verdict` does with a message: it answers the packet the message names, with a
payload when the TTL was rewritten, or fails and has changed nothing.
-/
import Nfqttl.Nfqueue

namespace Nfqttl.Nfqueue

open Bytes Netlink

/-! ## The message sent -/

/-- `v` with its length in its first four bytes. -/
def withLen (v : List UInt8) : List UInt8 := toLe 4 v.length ++ v.drop 4

@[simp] theorem length_withLen {v : List UInt8} (h : 4 ≤ v.length) : (withLen v).length = v.length := by
  simp only [withLen, List.length_append, length_toLe, List.length_drop]
  omega

theorem withLen_append {v : List UInt8} (h : 4 ≤ v.length) (t : List UInt8) :
    withLen (withLen v ++ t) = withLen (v ++ t) := by
  have hdrop : (withLen v ++ t).drop 4 = (v ++ t).drop 4 := by
    rw [withLen, List.append_assoc, List.drop_left' (length_toLe ..), List.drop_append_of_le_length h]
  rw [withLen, hdrop, List.length_append, length_withLen h, ← List.length_append, withLen]

/-- An attribute that fits in 16 bits is appended, and the length brought up to date. -/
theorem attr_run {v : List UInt8} {ty : Nat} {data : List UInt8} (hal : align4 v.length = v.length)
    (hv : 4 ≤ v.length) (hdata : 4 + data.length < 65536) :
    attr ty data v = .ok () (withLen (v ++ tlv ty data)) := by
  have hle := le_align4 (4 + data.length)
  have hpad : padTo (v ++ toLe 2 (4 + data.length) ++ toLe 2 ty ++ data) (v.length + align4 (4 + data.length)) =
      v ++ tlv ty data := by
    have hlen : (v ++ toLe 2 (4 + data.length) ++ toLe 2 ty ++ data).length = v.length + (4 + data.length) := by
      simp only [List.length_append, length_toLe]
      omega
    rw [padTo, hlen, Nat.add_sub_add_left, tlv]
    simp only [List.append_assoc]
  have hfin : finishLen (v ++ tlv ty data) = .ok (withLen (v ++ tlv ty data)) := by
    have hlen : ¬ (v ++ tlv ty data).length < 4 := by
      rw [List.length_append]
      omega
    rw [finishLen, if_neg hlen, withLen, splice, List.take_zero, List.nil_append, length_toLe]
    rfl
  have hself : padTo v v.length = v := by simp [padTo]
  simp only [attr, get_bind, modify_bind, hal, hself, if_neg (show ¬ 4 + data.length > 65535 by omega), hpad, hfin,
    lift_ok_bind]
  rfl

/-- A verdict message on packet `id` of `queue`, perhaps with a payload. -/
structure IsVerdict (queue : UInt16) (id : List UInt8) (payload : Option (List UInt8)) (v : List UInt8) : Prop where
  /-- The length field is the size. -/
  length : leNat (window v 0 4) = v.length
  type : leNat (window v 4 2) = nfnlSubsysQueue <<< 8 ||| nfqnlMsgVerdict
  queue : beNat (window v 18 2) = queue.toNat
  /-- The verdict header accepts the packet, and is followed by the payload or by nothing. -/
  attrs : attributes v 20 = some (⟨24, nfqaVerdictHdr, toBe 4 nfAccept ++ id⟩ ::
    payload.toList.map fun d => ⟨36, nfqaPayload, d⟩)

@[simp] theorem length_beginInto (ty flags seq : Nat) (queue : UInt16) :
    (beginInto ty flags seq queue).length = 20 := by
  simp [beginInto]

/-- The attributes of a verdict message, as they are written. -/
def body (id : List UInt8) (payload : Option (List UInt8)) : List UInt8 :=
  tlv nfqaVerdictHdr (toBe 4 nfAccept ++ id) ++ (payload.toList.map (tlv nfqaPayload)).flatten

theorem length_body_lt {id : List UInt8} (hid : id.length = 4) {payload : Option (List UInt8)}
    (hpay : ∀ d ∈ payload, 4 + d.length < 65536) : (body id payload).length < 65556 := by
  cases payload with
  | none => simp [body, hid, align4]
  | some d =>
    have hlt := align4_lt (4 + d.length)
    have hd := hpay d rfl
    simp only [body, Option.toList_some, List.map_cons, List.map_nil, List.flatten_cons, List.flatten_nil,
      List.append_nil, List.length_append, length_tlv, length_toBe, hid]
    have : align4 (4 + (4 + 4)) = 12 := rfl
    omega

theorem body_eq (id : List UInt8) (payload : Option (List UInt8)) :
    body id payload = tlvs ((nfqaVerdictHdr, toBe 4 nfAccept ++ id) :: payload.toList.map fun d => (nfqaPayload, d)) := by
  cases payload <;> simp [body, tlvs]

/-- The body is read back from any header of 20 bytes. -/
theorem attributes_body {id : List UInt8} (hid : id.length = 4) {payload : Option (List UInt8)}
    (hpay : ∀ d ∈ payload, 4 + d.length < 65536) {h : List UInt8} (hh : h.length = 20) :
    attributes (h ++ body id payload) 20 = some (⟨24, nfqaVerdictHdr, toBe 4 nfAccept ++ id⟩ ::
      payload.toList.map fun d => ⟨36, nfqaPayload, d⟩) := by
  have hvh : (toBe 4 nfAccept ++ id).length = 8 := by simp [hid]
  have hfit : ∀ e ∈ (nfqaVerdictHdr, toBe 4 nfAccept ++ id) :: payload.toList.map fun d => (nfqaPayload, d),
      e.1 ≤ typeMask ∧ 4 + e.2.length < 65536 := by
    have hty : nfqaVerdictHdr ≤ typeMask ∧ nfqaPayload ≤ typeMask := by decide
    refine List.forall_mem_cons.mpr ⟨⟨hty.1, by rw [hvh]; decide⟩, ?_⟩
    intro e he
    obtain ⟨d, hd, rfl⟩ := List.mem_map.mp he
    exact ⟨hty.2, hpay d (Option.mem_toList.mp hd)⟩
  have hread := attributes_tlvs hfit h
  rw [← body_eq, hh] at hread
  rw [hread, placed, hvh]
  -- The payload stands after the 12 bytes of the verdict header.
  cases payload <;> rfl

/-- The header of a verdict message of `n` bytes: what `begin_into` writes, but for the length. -/
def heading (n : Nat) (queue : UInt16) : List UInt8 :=
  toLe 4 n ++ (toLe 2 (nfnlSubsysQueue <<< 8 ||| nfqnlMsgVerdict) ++
    (toLe 2 (nlmFRequest ||| 0) ++ toLe 4 0 ++ toLe 4 0 ++ [afInet, nfnetlinkV0] ++ toBe 2 queue.toNat))

@[simp] theorem length_heading (n : Nat) (queue : UInt16) : (heading n queue).length = 20 := by simp [heading]

theorem withLen_beginInto (queue : UInt16) (b : List UInt8) :
    withLen (beginInto nfqnlMsgVerdict 0 0 queue ++ b) = heading (20 + b.length) queue ++ b := by
  rw [withLen, List.length_append, length_beginInto, beginInto, heading]
  simp only [List.append_assoc]
  rw [List.drop_left' (length_toLe ..)]

theorem heading_isVerdict (queue : UInt16) {id : List UInt8} (hid : id.length = 4) {payload : Option (List UInt8)}
    (hpay : ∀ d ∈ payload, 4 + d.length < 65536) :
    IsVerdict queue id payload (heading (20 + (body id payload).length) queue ++ body id payload) where
  length := by
    have hbody := length_body_lt hid hpay
    rw [List.length_append, length_heading, window_append_left _ (by simp), heading,
      window_prefix _ _ (length_toLe ..), leNat_toLe (by omega)]
  type := by
    rw [window_append_left _ (by simp), heading, window_append_right _ _ (by simp), length_toLe, Nat.sub_self,
      window_prefix _ _ (length_toLe ..)]
    rfl
  queue := by
    have hq := queue.toNat_lt
    have hmid : (toLe 2 (nlmFRequest ||| 0) ++ toLe 4 0 ++ toLe 4 0 ++ [afInet, nfnetlinkV0]).length = 12 := by simp
    rw [window_append_left _ (by simp), heading, window_append_right _ _ (by simp), length_toLe,
      window_append_right _ _ (by simp), length_toLe, window_append_right _ _ (by simp), hmid,
      ← List.append_nil (toBe 2 _), window_prefix _ _ (length_toBe ..), beNat_toBe hq]
  attrs := attributes_body hid hpay (length_heading ..)

/-! ## The attributes read -/

/-- The attributes `verdict` makes something of: packet headers that are long
enough, payloads, and capture lengths of four bytes. -/
def isHdr (x : Attr) : Bool := x.ty == nfqaPacketHdr && decide (7 ≤ x.data.length)
def isPayload (x : Attr) : Bool := x.ty == nfqaPayload
def isCap (x : Attr) : Bool := x.ty == nfqaCapLen && x.data.length == 4

/-- What is seen after the attributes `as`: the last of each kind counts. -/
def Seen.after (a : Seen) (as : List Attr) : Seen where
  id := ((lastOf isHdr as).map fun h => h.data.take 4).or a.id
  proto := (lastOf isHdr as).elim a.proto fun h => beNat (window h.data 4 2)
  hook := (lastOf isHdr as).elim a.hook fun h => h.data.getD 6 0
  cap := ((lastOf isCap as).map fun c => beNat c.data).or a.cap
  payload := ((lastOf isPayload as).map fun p => (p.pos, p.data.length)).or a.payload

theorem Seen.after_cons (a : Seen) (x : Attr) (as : List Attr) : a.after (x :: as) = (a.after [x]).after as := by
  simp only [Seen.after, lastOf_cons, lastOf_nil, Option.none_or]
  congr 1
  · cases lastOf isHdr as <;> rfl
  · cases lastOf isHdr as <;> rfl
  · cases lastOf isHdr as <;> rfl
  · cases lastOf isCap as <;> rfl
  · cases lastOf isPayload as <;> rfl

theorem Seen.note_eq (a : Seen) (off ty : Nat) (d : List UInt8) :
    a.note off ty d = .ok (a.after [⟨off + 4, ty, d⟩]) := by
  unfold Seen.note
  by_cases hh : ty = nfqaPacketHdr ∧ 7 ≤ d.length
  · obtain ⟨rfl, hd⟩ := hh
    rw [if_pos ⟨rfl, hd⟩, slice_ok (by omega) (by omega), index_ok (show 4 < d.length by omega),
      index_ok (show 5 < d.length by omega), index_ok (show 6 < d.length by omega)]
    simp [Seen.after, lastOf_cons, isHdr, isPayload, isCap, nfqaPacketHdr, nfqaPayload, nfqaCapLen, hd,
      window_two (show 4 + 2 ≤ d.length by omega), List.getElem?_eq_getElem (show 6 < d.length by omega)]
  have hno : isHdr ⟨off + 4, ty, d⟩ = false := by simpa [isHdr] using hh
  rw [if_neg hh]
  by_cases hp : ty = nfqaPayload
  · have hcap : isCap ⟨off + 4, ty, d⟩ = false := by simp [isCap, hp, nfqaPayload, nfqaCapLen]
    have hpay : isPayload ⟨off + 4, ty, d⟩ = true := by simp [isPayload, hp]
    rw [if_pos hp]
    simp only [Seen.after, lastOf_cons, lastOf_nil, hno, hcap, hpay]
    rfl
  have hpay : isPayload ⟨off + 4, ty, d⟩ = false := by simpa [isPayload] using hp
  rw [if_neg hp]
  by_cases hc : ty = nfqaCapLen ∧ d.length = 4
  · have hcap : isCap ⟨off + 4, ty, d⟩ = true := by simp [isCap, hc]
    rw [if_pos hc]
    simp only [Seen.after, lastOf_cons, lastOf_nil, hno, hcap, hpay]
    rfl
  · have hcap : isCap ⟨off + 4, ty, d⟩ = false := by simpa [isCap] using hc
    rw [if_neg hc]
    simp only [Seen.after, lastOf_cons, lastOf_nil, hno, hcap, hpay]
    rfl

/-- The walk reads the attributes, or meets an ill-sized one. -/
theorem readAttrs_eq (msg : List UInt8) (off : Nat) (a : Seen) : readAttrs msg off a =
    match attributes msg off with
    | some as => .ok (a.after as)
    | none => .error (.err (.new .invalidData "bad nfqueue attr")) := by
  fun_induction attributes msg off generalizing a with
  | case1 off hoff len hlen =>
    rename_i ih
    rw [readAttrs, if_pos hoff, index_ok (show off < msg.length by omega), ok_bind,
      index_ok (show off + 1 < msg.length by omega), ok_bind, index_ok (show off + 2 < msg.length by omega), ok_bind,
      index_ok (show off + 3 < msg.length by omega), ok_bind]
    have hsize : leNat [msg[off], msg[off + 1]] = len := by
      rw [← window_two (show off + 2 ≤ msg.length by omega)]
    have htype : leNat [msg[off + 2], msg[off + 3]] = leNat (window msg (off + 2) 2) := by
      rw [← window_two (show off + 2 + 2 ≤ msg.length by omega)]
    simp only [hsize, htype]
    rw [if_neg (by omega), show off + len = off + 4 + (len - 4) by omega, slice_window (by omega), ok_bind,
      Seen.note_eq, ok_bind, ih]
    cases attributes msg (off + align4 len) with
    | none => rfl
    | some as => exact congrArg Except.ok (Seen.after_cons a _ as).symm
  | case2 off hoff len hlen =>
    rw [readAttrs, if_pos hoff, index_ok (show off < msg.length by omega), ok_bind,
      index_ok (show off + 1 < msg.length by omega), ok_bind, index_ok (show off + 2 < msg.length by omega), ok_bind,
      index_ok (show off + 3 < msg.length by omega), ok_bind]
    have hsize : leNat [msg[off], msg[off + 1]] = len := by
      rw [← window_two (show off + 2 ≤ msg.length by omega)]
    simp only [hsize]
    rw [if_pos (by omega)]
    rfl
  | case3 off hoff => rw [readAttrs, if_neg hoff]; rfl

/-! ## The verdict -/

/-- A message that names a packet of `queue`: its attributes, and the last packet header. -/
structure Examined (queue : UInt16) (msg : List UInt8) (as : List Attr) (hdr : Attr) : Prop where
  long : 20 ≤ msg.length
  queue : beNat (window msg 18 2) = queue.toNat
  attrs : attributes msg 20 = some as
  header : lastOf isHdr as = some hdr

theorem Examined.length_id {queue : UInt16} {msg : List UInt8} {as : List Attr} {hdr : Attr}
    (h : Examined queue msg as hdr) : (hdr.data.take 4).length = 4 := by
  have hlong := (lastOf_some h.header).1
  simp only [isHdr, Bool.and_eq_true, decide_eq_true_eq] at hlong
  rw [List.length_take]
  omega

theorem Examined.run {queue : UInt16} {msg : List UInt8} {as : List Attr} {hdr : Attr}
    (h : Examined queue msg as hdr) : examine msg queue = .ok (hdr.data.take 4, ({} : Seen).after as) := by
  have hlong := h.long
  have hwin : beNat [msg[18], msg[19]] = beNat (window msg 18 2) := by rw [window_two (by omega)]
  have hid : (({} : Seen).after as).id = some (hdr.data.take 4) := by simp [Seen.after, h.header]
  rw [examine, if_neg (by omega), index_ok (show 18 < msg.length by omega), index_ok (show 19 < msg.length by omega),
    ok_bind, ok_bind, hwin, if_neg (not_not.mpr h.queue), readAttrs_eq, h.attrs]
  simp only [ok_bind, hid]
  rfl

theorem examine_run (msg : List UInt8) (queue : UInt16) :
    (∃ e, examine msg queue = .error (.err e)) ∨ ∃ as hdr, Examined queue msg as hdr := by
  unfold examine
  by_cases hlen : msg.length < 20
  · exact .inl ⟨_, if_pos hlen⟩
  have hwin : beNat [msg[18], msg[19]] = beNat (window msg 18 2) := by rw [window_two (by omega)]
  rw [if_neg hlen, index_ok (show 18 < msg.length by omega), index_ok (show 19 < msg.length by omega), ok_bind, ok_bind,
    hwin]
  by_cases hqueue : beNat (window msg 18 2) ≠ queue.toNat
  · exact .inl ⟨_, if_pos hqueue⟩
  rw [if_neg hqueue, readAttrs_eq]
  cases hattrs : attributes msg 20 with
  | none => exact .inl ⟨_, rfl⟩
  | some as =>
    cases hhdr : lastOf isHdr as with
    | none => exact .inl ⟨_, by simp [Seen.after, hhdr]; rfl⟩
    | some hdr => exact .inr ⟨as, hdr, by omega, not_not.mp hqueue, hattrs, hhdr⟩

/-- The header says IPv4 and `FORWARD`, the last payload is complete as far as the
last capture length says, and `set_ipv4_ttl` turns it into `d`. -/
structure Rewrites (ttl : UInt8) (as : List Attr) (hdr p : Attr) (d : List UInt8) : Prop where
  ipv4 : beNat (window hdr.data 4 2) = 0x0800
  forward : hdr.data.getD 6 0 = nfInetForward
  payload : lastOf isPayload as = some p
  complete : ∀ c, lastOf isCap as = some c → beNat c.data = p.data.length
  rewritten : setIpv4Ttl (ε := IoError) p.data ttl = .ok (true, d)

theorem Rewrites.unique {ttl : UInt8} {as : List Attr} {hdr p q : Attr} {d e : List UInt8}
    (h : Rewrites ttl as hdr p d) (h' : Rewrites ttl as hdr q e) : p = q ∧ d = e := by
  obtain rfl : p = q := Option.some.inj (h.payload.symm.trans h'.payload)
  have heq := h.rewritten.symm.trans h'.rewritten
  simp only [Except.ok.injEq, Prod.mk.injEq, true_and] at heq
  exact ⟨rfl, heq⟩

/-- `rewrite` changes the payload as `Rewrites` says, and nothing when there is no such `d`. -/
theorem rewrite_run (ttl : UInt8) {as : List Attr} {hdr : Attr} {w : Work} (has : attributes w.msg 20 = some as)
    (hhdr : lastOf isHdr as = some hdr) :
    (∃ p d, Rewrites ttl as hdr p d ∧
      rewrite (({} : Seen).after as) ttl w = .ok true { w with msg := splice w.msg p.pos d }) ∨
    ((∀ p d, ¬ Rewrites ttl as hdr p d) ∧ ∃ t, rewrite (({} : Seen).after as) ttl w =
      .ok false { w with stats.truncated := w.stats.truncated + t } ∧ t ≤ 1) := by
  have hsame : ({ w with stats.truncated := w.stats.truncated + 0 } : Work) = w := rfl
  have hproto : (({} : Seen).after as).proto = beNat (window hdr.data 4 2) := by
    simp only [Seen.after, hhdr, Option.elim]
  have hhook : (({} : Seen).after as).hook = hdr.data.getD 6 0 := by simp only [Seen.after, hhdr, Option.elim]
  unfold rewrite
  rw [hproto, hhook]
  by_cases hfwd : beNat (window hdr.data 4 2) = 0x0800 ∧ hdr.data.getD 6 0 = nfInetForward
  case neg =>
    rw [if_neg hfwd]
    exact .inr ⟨fun p d h => hfwd ⟨h.ipv4, h.forward⟩, 0, congrArg _ hsame.symm, by omega⟩
  rw [if_pos hfwd]
  cases hpay : lastOf isPayload as with
  | none =>
    have hp : (({} : Seen).after as).payload = none := by simp [Seen.after, hpay]
    rw [hp]
    exact .inr ⟨fun p d h => by simpa [hpay] using h.payload, 0, congrArg _ hsame.symm, by omega⟩
  | some p =>
    have hp : (({} : Seen).after as).payload = some (p.pos, p.data.length) := by simp [Seen.after, hpay]
    have hcap : ((({} : Seen).after as).cap.all (· = p.data.length)) = true ↔
        ∀ c, lastOf isCap as = some c → beNat c.data = p.data.length := by
      cases hc : lastOf isCap as <;> simp [Seen.after, hc]
    rw [hp]
    simp only
    by_cases hall : ∀ c, lastOf isCap as = some c → beNat c.data = p.data.length
    case neg =>
      rw [if_neg (mt hcap.mp hall)]
      exact .inr ⟨fun q d h => hall (Option.some.inj (hpay.symm.trans h.payload) ▸ h.complete), 1, rfl, le_refl 1⟩
    -- The payload is read whole, and written back changed or as it was.
    obtain ⟨hin, hwin, -⟩ := attributes_mem has (lastOf_some hpay).2
    obtain ⟨changed, d, hrun, hkeep, -⟩ := setIpv4Ttl_run (ε := IoError) p.data ttl
    rw [if_pos (hcap.mpr hall), get_bind, slice_window hin, lift_ok_bind, hwin, hrun, lift_ok_bind, modify_bind]
    cases changed with
    | true => exact .inl ⟨p, d, ⟨hfwd.1, hfwd.2, hpay, hall, hrun⟩, rfl⟩
    | false =>
      obtain rfl := hkeep rfl
      refine .inr ⟨fun q e h => ?_, 0, ?_, by omega⟩
      · obtain rfl : p = q := Option.some.inj (hpay.symm.trans h.payload)
        simpa using hrun.symm.trans h.rewritten
      · have hback : splice w.msg p.pos p.data = w.msg := by
          conv => lhs; rw [← hwin]
          exact splice_window hin
        simp only [hback]
        rfl

/-- The counters after a verdict: rewritten or not, and `t` more found truncated. -/
def PacketStats.count (s : PacketStats) (rewritten : Bool) (t : Nat) : PacketStats where
  seen := s.seen + 1
  rewritten := s.rewritten + rewritten.toNat
  truncated := s.truncated + t
  unchanged := s.unchanged + (!rewritten).toNat

/-- What a successful verdict has done: `sent` is the attribute rewritten, with its new data. -/
structure Answered (queue : UInt16) (ttl : UInt8) (w w' : Work) (as : List Attr) (hdr : Attr)
    (sent : Option (Attr × List UInt8)) (t : Nat) : Prop where
  examined : Examined queue w.msg as hdr
  rewrites : ∀ p d, sent = some (p, d) ↔ Rewrites ttl as hdr p d
  v : w'.v = heading (20 + (body (hdr.data.take 4) (sent.map Prod.snd)).length) queue ++
    body (hdr.data.take 4) (sent.map Prod.snd)
  msg : w'.msg = sent.elim w.msg fun p => splice w.msg p.1.pos p.2
  stats : w'.stats = w.stats.count sent.isSome t
  truncated : t ≤ (!sent.isSome).toNat

theorem onBuffer_run {x : EStateM (Stop IoError) (List UInt8) Unit} {w : Work} {v : List UInt8}
    (h : x w.v = .ok () v) : onBuffer x w = .ok () { w with v := v } := by simp only [onBuffer, h]

/-- The message after the verdict header, and after the payload. -/
theorem attr_header (queue : UInt16) {id : List UInt8} (hid : id.length = 4) :
    attr nfqaVerdictHdr (toBe 4 nfAccept ++ id) (beginInto nfqnlMsgVerdict 0 0 queue) =
      .ok () (withLen (beginInto nfqnlMsgVerdict 0 0 queue ++ body id none)) := by
  rw [attr_run (by rw [length_beginInto]; rfl) (by rw [length_beginInto]; omega) (by simp [hid])]
  simp [body]

theorem attr_payload (queue : UInt16) {id d : List UInt8} (hid : id.length = 4) (hd : 4 + d.length < 65536) :
    attr nfqaPayload d (withLen (beginInto nfqnlMsgVerdict 0 0 queue ++ body id none)) =
      .ok () (withLen (beginInto nfqnlMsgVerdict 0 0 queue ++ body id (some d))) := by
  have hlen : (withLen (beginInto nfqnlMsgVerdict 0 0 queue ++ body id none)).length = 32 := by
    rw [length_withLen (by rw [List.length_append, length_beginInto]; omega), List.length_append, length_beginInto]
    simp [body, hid, align4]
  rw [attr_run (by rw [hlen]; rfl) (by omega) hd,
    withLen_append (by rw [List.length_append, length_beginInto]; omega)]
  simp [body]

/-- `verdict` answers the packet, or fails and changes nothing. -/
theorem verdict_run (queue : UInt16) (ttl : UInt8) (w : Work) :
    (∃ e, examine w.msg queue = .error (.err e) ∧ verdict queue ttl w = .error (.err e) w) ∨
    ∃ w' as hdr sent t, verdict queue ttl w = .ok () w' ∧ Answered queue ttl w w' as hdr sent t := by
  unfold verdict
  rw [get_bind]
  rcases examine_run w.msg queue with ⟨e, he⟩ | ⟨as, hdr, hex⟩
  · exact .inl ⟨e, he, by rw [he, lift_error_bind]⟩
  have hid := hex.length_id
  rw [hex.run, lift_ok_bind]
  simp only [modify_bind]
  right
  rcases rewrite_run (w := { w with stats.seen := w.stats.seen + 1 }) ttl hex.attrs hex.header with
    ⟨p, d, hrew, hrun⟩ | ⟨hno, t, hrun, ht⟩
  · -- The payload is attached as it was written back.
    obtain ⟨hin, hwin, hsize⟩ := attributes_mem hex.attrs (lastOf_some hrew.payload).2
    obtain ⟨changed, d', hset, -, hsame⟩ := setIpv4Ttl_run (ε := IoError) p.data ttl
    obtain rfl : d' = d := by
      have heq := hset.symm.trans hrew.rewritten
      simp only [Except.ok.injEq, Prod.mk.injEq] at heq
      exact heq.2
    have hdlen : p.data.length = d'.length := hsame.length.symm
    have hpay : (({} : Seen).after as).payload = some (p.pos, p.data.length) := by simp [Seen.after, hrew.payload]
    have hread : slice (ε := IoError) (splice w.msg p.pos d') p.pos (p.pos + p.data.length) = .ok d' := by
      rw [slice_window (by rw [length_splice (by omega)]; omega), hdlen, window_splice d' (by omega)]
    rw [bind_ok _ hrun, modify_bind, bind_ok _ (onBuffer_run (attr_header queue hid))]
    simp only [if_true, attach, hpay, get_bind, hread, lift_ok_bind]
    rw [bind_ok _ (onBuffer_run (attr_payload queue hid (hdlen ▸ hsize))), modify_run]
    refine ⟨_, as, hdr, some (p, d'), 0, rfl, hex, fun q e => ⟨fun he => ?_, fun he => ?_⟩, ?_, rfl, rfl, by simp⟩
    · obtain ⟨rfl, rfl⟩ : p = q ∧ d' = e := by simpa using he
      exact hrew
    · obtain ⟨rfl, rfl⟩ := hrew.unique he
      rfl
    · exact withLen_beginInto queue _
  · rw [bind_ok _ hrun, modify_bind, bind_ok _ (onBuffer_run (attr_header queue hid))]
    simp only [Bool.false_eq_true, if_false, modify_run]
    refine ⟨_, as, hdr, none, t, rfl, hex, fun q e => ⟨fun he => ?_, fun he => absurd he (hno q e)⟩, ?_, rfl, rfl, ht⟩
    · cases he
    · exact withLen_beginInto queue _

/-- The counters after `n` calls of `verdict`, whatever messages, queues and buffers they were given. -/
inductive Counted : Nat → PacketStats → Prop
  | start : Counted 0 {}
  | call {n : Nat} (queue : UInt16) (ttl : UInt8) (w : Work) (h : Counted n w.stats) :
    Counted (n + 1) (final (verdict queue ttl w)).stats

/-- Every packet seen is counted once more; the counters stay below the number of calls. -/
theorem Counted.balanced {n : Nat} {s : PacketStats} (h : Counted n s) :
    s.seen = s.rewritten + s.unchanged ∧ s.truncated ≤ s.unchanged ∧ s.seen ≤ n := by
  induction h with
  | start => simp
  | call queue ttl w _ ih =>
    rcases verdict_run queue ttl w with ⟨e, -, hrun⟩ | ⟨w', as, hdr, sent, t, hrun, ha⟩
    · rw [hrun]
      exact ⟨ih.1, ih.2.1, by simp only [final]; omega⟩
    · have ht := ha.truncated
      rw [hrun]
      simp only [final, ha.stats, PacketStats.count]
      cases hsent : sent.isSome <;> simp only [hsent, Bool.not_true, Bool.not_false, Bool.toNat_true, Bool.toNat_false]
        at ht ⊢ <;> omega

/-- What the receive buffer holds after a payload was rewritten. -/
structure Replaced (msg msg' : List UInt8) (p : Attr) (d : List UInt8) : Prop where
  received : window msg p.pos p.data.length = p.data
  size : 4 + d.length < 65536
  payload : SameButTtl p.data d
  written : window msg' p.pos d.length = d
  length : msg'.length = msg.length
  others : ∀ i, i ≠ p.pos + 8 → i ≠ p.pos + 10 → i ≠ p.pos + 11 → msg'[i]? = msg[i]?

theorem Answered.replaced {queue : UInt16} {ttl : UInt8} {w w' : Work} {as : List Attr} {hdr p : Attr}
    {d : List UInt8} {t : Nat} (h : Answered queue ttl w w' as hdr (some (p, d)) t) :
    Replaced w.msg w'.msg p d := by
  have hrew := (h.rewrites p d).mp rfl
  obtain ⟨hin, hwin, hsize⟩ := attributes_mem h.examined.attrs (lastOf_some hrew.payload).2
  obtain ⟨changed, d', hset, -, hsame⟩ := setIpv4Ttl_run (ε := IoError) p.data ttl
  obtain rfl : d' = d := by
    have heq := hset.symm.trans hrew.rewritten
    simp only [Except.ok.injEq, Prod.mk.injEq] at heq
    exact heq.2
  have hlen := hsame.length
  have hmsg : w'.msg = splice w.msg p.pos d' := h.msg
  refine ⟨hwin, by omega, hsame, by rw [hmsg, window_splice d' (by omega)],
    by rw [hmsg, length_splice (by omega)], fun i h8 h10 h11 => ?_⟩
  rw [hmsg]
  by_cases hi : i < p.pos ∨ p.pos + d'.length ≤ i
  · exact getElem?_splice_ne (by omega) hi
  · -- Within the payload the bytes are those of the packet rewritten.
    obtain ⟨k, rfl⟩ : ∃ k, i = p.pos + k := ⟨i - p.pos, by omega⟩
    rw [getElem?_splice (by omega) (by omega), hsame.bytes k (by omega) (by omega) (by omega)]
    conv => lhs; rw [← hwin]
    rw [window, List.getElem?_take_of_lt (by omega), List.getElem?_drop]

theorem Answered.isVerdict {queue : UInt16} {ttl : UInt8} {w w' : Work} {as : List Attr} {hdr : Attr}
    {sent : Option (Attr × List UInt8)} {t : Nat} (h : Answered queue ttl w w' as hdr sent t) :
    IsVerdict queue (hdr.data.take 4) (sent.map Prod.snd) w'.v := by
  rw [h.v]
  refine heading_isVerdict queue h.examined.length_id ?_
  intro d hd
  obtain ⟨⟨p, d⟩, rfl, rfl⟩ := Option.map_eq_some_iff.mp hd
  exact h.replaced.size

/-- **A verdict answers the packet or changes nothing.** `verdict` never panics. If it
fails, the message, the buffer and the counters are as before. If it succeeds, the
message names a packet of the queue, and the buffer holds one verdict that accepts the
packet named by the last packet header; a payload is attached exactly when that header
says IPv4 and `FORWARD`, there is a payload, the last capture length of four bytes is
its length if there is one, and `set_ipv4_ttl` rewrites it. The payload sent is the one
received but for the bytes 8, 10 and 11, and no other byte of the message changes. Over
any sequence of calls every packet seen is counted as rewritten or as unchanged, and the
truncated ones among the unchanged. -/
theorem verdict_correct :
    (∀ (queue : UInt16) (ttl : UInt8) (w : Work),
      match verdict queue ttl w with
      | .error (.err _) w' => w' = w
      | .error .panic _ => False
      | .ok _ w' => ∃ as hdr, Examined queue w.msg as hdr ∧ ∃ sent : Option (Attr × List UInt8),
        (∀ p d, sent = some (p, d) ↔ Rewrites ttl as hdr p d) ∧
        IsVerdict queue (hdr.data.take 4) (sent.map Prod.snd) w'.v ∧
        (∀ p d, sent = some (p, d) → Replaced w.msg w'.msg p d) ∧ (sent = none → w'.msg = w.msg)) ∧
    (∀ n s, Counted n s → s.seen = s.rewritten + s.unchanged ∧ s.truncated ≤ s.unchanged ∧ s.seen ≤ n) := by
  refine ⟨fun queue ttl w => ?_, fun n s h => h.balanced⟩
  rcases verdict_run queue ttl w with ⟨e, -, hrun⟩ | ⟨w', as, hdr, sent, t, hrun, ha⟩
  · rw [hrun]
  rw [hrun]
  refine ⟨as, hdr, ha.examined, sent, ha.rewrites, ha.isVerdict, fun p d hs => ?_, fun hs => ?_⟩
  · subst hs
    exact ha.replaced
  · rw [ha.msg, hs, Option.elim_none]

/-- A packet of 40 bytes in `FORWARD`, announced with the capture lengths `caps` one after the other. -/
def queued (caps : List Nat) : List UInt8 :=
  withLen (beginInto nfqnlMsgPacket 0 1 6464 ++ tlv nfqaPacketHdr [0, 0, 0, 42, 8, 0, 2] ++
    tlv nfqaPayload ([0x45, 0, 0, 40, 0, 0, 0, 0, 63, 17] ++ List.replicate 30 0) ++
    (caps.map fun c => tlv nfqaCapLen (toBe 4 c)).flatten)

theorem verdict_correct_queued :
    (final (verdict 6464 64 ⟨queued [70000], [], {}⟩)).stats.truncated ≤
      (final (verdict 6464 64 ⟨queued [70000], [], {}⟩)).stats.unchanged :=
  (verdict_correct.2 1 _ (.call 6464 64 ⟨queued [70000], [], {}⟩ .start)).2.1

/-- Only the last capture length counts: the payload is replaced though an earlier one
says that the packet was longer. -/
theorem verdict_cap_repeated : ¬ ∀ (queue : UInt16) (ttl : UInt8) (w w' : Work) (as : List Attr) (p : Attr),
    verdict queue ttl w = .ok () w' → attributes w.msg 20 = some as → lastOf isPayload as = some p →
    (∃ x ∈ (attributes w'.v 20).getD [], x.ty = nfqaPayload) →
    ∀ c ∈ as, isCap c = true → beNat c.data = p.data.length := by
  intro h
  rcases verdict_run 6464 64 ⟨queued [70000, 40], [], {}⟩ with ⟨e, -, hrun⟩ | ⟨w', as, hdr, sent, t, hrun, ha⟩
  · have hseen : (final (verdict 6464 64 ⟨queued [70000, 40], [], {}⟩)).stats.seen = 1 := by decide +kernel
    rw [hrun] at hseen
    cases hseen
  · have hsent : ∃ x ∈ (attributes (final (verdict 6464 64 ⟨queued [70000, 40], [], {}⟩)).v 20).getD [],
        x.ty = nfqaPayload := by decide +kernel
    rw [hrun] at hsent
    have has : attributes (queued [70000, 40]) 20 = some ((attributes (queued [70000, 40]) 20).getD []) := by
      decide +kernel
    have hcap := h 6464 64 _ w' _ ⟨36, 10, [0x45, 0, 0, 40, 0, 0, 0, 0, 63, 17] ++ List.replicate 30 0⟩ hrun has
      (by decide +kernel) hsent ⟨80, 13, toBe 4 70000⟩ (by decide +kernel) (by decide +kernel)
    revert hcap
    decide +kernel

end Nfqttl.Nfqueue
