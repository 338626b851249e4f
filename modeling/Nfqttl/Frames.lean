/-
The worker's loop over a datagram: every access is in range, and the messages sent
are the verdicts on its packets, one each and in order.
-/
import Mathlib.Data.List.Forall2
import Nfqttl.Verdict

namespace Nfqttl.Nfqueue

open Bytes Netlink

/-! ## Frames and their answers -/

def frameType (f : List UInt8) : Nat := leNat (window f 4 2)

def isPacket (f : List UInt8) : Bool := frameType f == nfnlSubsysQueue <<< 8 ||| nfqnlMsgPacket
def isError (f : List UInt8) : Bool := frameType f == nlmsgError

/-- The message `verdict` makes of frame `f`, if it succeeds. -/
def reply (queue : UInt16) (ttl : UInt8) (f : List UInt8) : Option (List UInt8) :=
  match verdict queue ttl ⟨f, [], {}⟩ with
  | .ok _ k => some k.v
  | .error _ _ => none

/-- The frame ends the loop: an error of the kernel's, or a packet whose verdict fails. -/
def ends (queue : UInt16) (ttl : UInt8) (f : List UInt8) : Bool :=
  isError f || isPacket f && (reply queue ttl f).isNone

/-- The packets before the first frame that ends the loop. -/
def packets (queue : UInt16) (ttl : UInt8) (fs : List (List UInt8)) : List (List UInt8) :=
  (fs.takeWhile fun f => !ends queue ttl f).filter isPacket

/-- The messages sent of `ms` when the next send is number `i`: those before the first that fails. -/
def delivered (sendOk : Nat → Bool) : Nat → List (List UInt8) → List (List UInt8)
  | _, [] => []
  | i, m :: ms => if sendOk i then m :: delivered sendOk (i + 1) ms else []

theorem delivered_all {sendOk : Nat → Bool} (h : ∀ i, sendOk i = true) : ∀ (i : Nat) (ms : List (List UInt8)),
    delivered sendOk i ms = ms
  | _, [] => rfl
  | i, m :: ms => by rw [delivered, if_pos (h i), delivered_all h]

theorem isPacket_not_error {f : List UInt8} (h : isPacket f = true) : isError f = false := by
  simp only [isPacket, isError, beq_iff_eq] at h ⊢
  rw [h]
  rfl

theorem packets_ends {queue : UInt16} {ttl : UInt8} {f : List UInt8} (h : ends queue ttl f = true)
    (fs : List (List UInt8)) : packets queue ttl (f :: fs) = [] := by
  simp [packets, h]

theorem packets_other {queue : UInt16} {ttl : UInt8} {f : List UInt8} (h : ends queue ttl f = false)
    (hp : isPacket f = false) (fs : List (List UInt8)) : packets queue ttl (f :: fs) = packets queue ttl fs := by
  simp [packets, h, hp]

theorem packets_packet {queue : UInt16} {ttl : UInt8} {f : List UInt8} (h : ends queue ttl f = false)
    (hp : isPacket f = true) (fs : List (List UInt8)) : packets queue ttl (f :: fs) = f :: packets queue ttl fs := by
  simp [packets, h, hp]

/-- Every packet before the end has a verdict. -/
theorem packets_reply (queue : UInt16) (ttl : UInt8) : ∀ fs : List (List UInt8),
    List.Forall₂ (fun f m => reply queue ttl f = some m) (packets queue ttl fs)
      ((packets queue ttl fs).filterMap (reply queue ttl))
  | [] => .nil
  | f :: fs => by
    cases he : ends queue ttl f with
    | true => rw [packets_ends he]; exact .nil
    | false =>
      cases hp : isPacket f with
      | false => rw [packets_other he hp]; exact packets_reply queue ttl fs
      | true =>
        obtain ⟨m, hm⟩ := Option.isSome_iff_exists.mp
          (show (reply queue ttl f).isSome = true by simpa [ends, isPacket_not_error, hp] using he)
        rw [packets_packet he hp, List.filterMap_cons_some hm]
        exact .cons hm (packets_reply queue ttl fs)

/-- The message depends on nothing but the frame. -/
theorem Answered.congr {queue : UInt16} {ttl : UInt8} {w₁ w₂ w₁' w₂' : Work} {as₁ as₂ : List Attr} {hdr₁ hdr₂ : Attr}
    {sent₁ sent₂ : Option (Attr × List UInt8)} {t₁ t₂ : Nat} (h₁ : Answered queue ttl w₁ w₁' as₁ hdr₁ sent₁ t₁)
    (h₂ : Answered queue ttl w₂ w₂' as₂ hdr₂ sent₂ t₂) (hmsg : w₁.msg = w₂.msg) : w₁'.v = w₂'.v := by
  have has := h₁.examined.attrs
  rw [hmsg, h₂.examined.attrs] at has
  obtain rfl := Option.some.inj has
  have hhdr := h₁.examined.header
  rw [h₂.examined.header] at hhdr
  obtain rfl := Option.some.inj hhdr
  have hsent : sent₁ = sent₂ := Option.ext fun ⟨p, d⟩ => (h₁.rewrites p d).trans (h₂.rewrites p d).symm
  rw [h₁.v, h₂.v, hsent]

theorem reply_error {queue : UInt16} {ttl : UInt8} {f : List UInt8} {e : IoError}
    (h : examine f queue = .error (.err e)) : reply queue ttl f = none := by
  rcases verdict_run queue ttl ⟨f, [], {}⟩ with ⟨_, -, hrun⟩ | ⟨_, _, _, _, _, -, ha⟩
  · rw [reply, hrun]
  · rw [show examine f queue = _ from ha.examined.run] at h
    cases h

theorem reply_ok {queue : UInt16} {ttl : UInt8} {w w' : Work} {as : List Attr} {hdr : Attr}
    {sent : Option (Attr × List UInt8)} {t : Nat} (h : Answered queue ttl w w' as hdr sent t) :
    reply queue ttl w.msg = some w'.v := by
  rcases verdict_run queue ttl ⟨w.msg, [], {}⟩ with ⟨_, hex, -⟩ | ⟨_, _, _, _, _, hrun, ha⟩
  · rw [show examine w.msg queue = _ from h.examined.run] at hex
    cases hex
  · rw [reply, hrun]
    exact congrArg some (ha.congr h rfl)

/-- A verdict message names the packet of the frame. -/
theorem reply_isVerdict {queue : UInt16} {ttl : UInt8} {f m : List UInt8} (h : reply queue ttl f = some m) :
    ∃ as hdr payload, attributes f 20 = some as ∧ lastOf isHdr as = some hdr ∧
      IsVerdict queue (hdr.data.take 4) payload m := by
  rcases verdict_run queue ttl ⟨f, [], {}⟩ with ⟨_, -, hrun⟩ | ⟨w', as, hdr, sent, t, hrun, ha⟩
  · rw [reply, hrun] at h
    cases h
  · rw [reply, hrun] at h
    obtain rfl := Option.some.inj h
    exact ⟨as, hdr, _, ha.examined.attrs, ha.examined.header, ha.isVerdict⟩

/-! ## One frame -/

theorem Answered.length_msg {queue : UInt16} {ttl : UInt8} {w w' : Work} {as : List Attr} {hdr : Attr}
    {sent : Option (Attr × List UInt8)} {t : Nat} (h : Answered queue ttl w w' as hdr sent t) :
    w'.msg.length = w.msg.length := by
  cases sent with
  | none => rw [h.msg, Option.elim_none]
  | some p => exact h.replaced.length

/-- The verdict on the frame at `off`: it fails and changes nothing, or it leaves its
message to be sent, and the rest of the buffer as it was. -/
theorem onFrame_verdict (queue : UInt16) (ttl : UInt8) {off len : Nat} {w : Worker} (h : off + len ≤ w.rx.length) :
    (reply queue ttl (window w.rx off len) = none ∧ ∃ e, onFrame off len (verdict queue ttl) w = .error (.err e) w) ∨
    ∃ m d stats, reply queue ttl (window w.rx off len) = some m ∧ d.length = len ∧
      onFrame off len (verdict queue ttl) w = .ok () ⟨splice w.rx off d, m, stats, w.sent⟩ := by
  unfold onFrame
  rw [slice_window h]
  rcases verdict_run queue ttl ⟨window w.rx off len, w.tx, w.stats⟩ with
    ⟨e, hex, hrun⟩ | ⟨w', as, hdr, sent, t, hrun, ha⟩
  · refine .inl ⟨reply_error hex, e, ?_⟩
    simp only [hrun, splice_window h]
  · refine .inr ⟨w'.v, w'.msg, w'.stats, reply_ok ha, ha.length_msg.trans (length_window h), ?_⟩
    simp only [hrun]

/-- What is done with the frame `f` at `off`. -/
theorem frame_run (queue : UInt16) (ttl : UInt8) (sendOk : Nat → Bool) {off len : Nat} {w : Worker}
    (h : off + len ≤ w.rx.length) (hlen : 16 ≤ len) :
    (ends queue ttl (window w.rx off len) = true ∧ ∃ e, frame queue ttl sendOk off len w = .error (.err e) w) ∨
    (ends queue ttl (window w.rx off len) = false ∧ isPacket (window w.rx off len) = false ∧
      frame queue ttl sendOk off len w = .ok () w) ∨
    (ends queue ttl (window w.rx off len) = false ∧ isPacket (window w.rx off len) = true ∧
      ∃ m d stats, reply queue ttl (window w.rx off len) = some m ∧ d.length = len ∧
        frame queue ttl sendOk off len w =
          if sendOk w.sent.length then .ok () ⟨splice w.rx off d, m, stats, w.sent ++ [m]⟩
          else .error (.err .last) ⟨splice w.rx off d, m, stats, w.sent⟩) := by
  have hty : slice (ε := IoError) w.rx (off + 4) (off + 6) = .ok (window w.rx (off + 4) 2) :=
    slice_window (show off + 4 + 2 ≤ w.rx.length by omega)
  have htype : leNat (window w.rx (off + 4) 2) = frameType (window w.rx off len) := by
    rw [frameType, window_window (by omega)]
  unfold frame
  rw [get_bind, hty, lift_ok_bind]
  simp only [htype]
  by_cases hp : frameType (window w.rx off len) = nfnlSubsysQueue <<< 8 ||| nfqnlMsgPacket
  · have hpk : isPacket (window w.rx off len) = true := by simpa [isPacket] using hp
    rw [if_pos hp]
    simp only [ends, isPacket_not_error hpk, hpk, Bool.false_or, Bool.true_and]
    rcases onFrame_verdict queue ttl h with ⟨hnone, e, hrun⟩ | ⟨m, d, stats, hsome, hd, hrun⟩
    · exact .inl ⟨by rw [hnone]; rfl, e, bind_error _ hrun⟩
    · refine .inr (.inr ⟨by rw [hsome]; rfl, trivial, m, d, stats, hsome, hd, ?_⟩)
      rw [bind_ok _ hrun, send, get_bind]
      split <;> rfl
  · have hpk : isPacket (window w.rx off len) = false := by simpa [isPacket] using hp
    rw [if_neg hp]
    simp only [ends, hpk, Bool.false_and, Bool.or_false]
    by_cases he : frameType (window w.rx off len) = nlmsgError
    · exact .inl ⟨by simp [isError, he], _, by rw [if_pos he]; rfl⟩
    · exact .inr (.inl ⟨by simp [isError, he], trivial, by rw [if_neg he]; rfl⟩)

/-! ## The loop -/

section loop
variable {queue : UInt16} {ttl : UInt8} {sendOk : Nat → Bool} {n off : Nat} {w : Worker}

theorem frames_end (h : n < off + 16) : frames queue ttl sendOk n off w = .ok () w := by
  rw [frames, if_neg (by omega)]
  rfl

theorem frames_bad (h : off + 16 ≤ n) (hn : n ≤ w.rx.length)
    (hlen : leNat (window w.rx off 4) < 16 ∨ n < off + leNat (window w.rx off 4)) :
    frames queue ttl sendOk n off w = .error (.err (.new .invalidData "bad netlink frame")) w := by
  rw [frames, if_pos h, get_bind, slice_window (by omega), lift_ok_bind]
  rw [if_pos hlen]
  rfl

theorem frames_next (h : off + 16 ≤ n) (hn : n ≤ w.rx.length)
    (hlen : ¬ (leNat (window w.rx off 4) < 16 ∨ n < off + leNat (window w.rx off 4))) :
    frames queue ttl sendOk n off w = (frame queue ttl sendOk off (leNat (window w.rx off 4)) >>= fun _ =>
      frames queue ttl sendOk n (off + align4 (leNat (window w.rx off 4)))) w := by
  rw [frames, if_pos h, get_bind, slice_window (by omega), lift_ok_bind,
    if_neg hlen]

/-- No access of the loop is out of range, on any datagram. -/
theorem frames_in_range (hn : n ≤ w.rx.length) : ∀ s', frames queue ttl sendOk n off w ≠ .error .panic s' := by
  induction hm : n - off using Nat.strongRecOn generalizing off w with
  | ind m ih =>
    subst hm
    intro s'
    by_cases hoff : off + 16 ≤ n
    case neg => simp [frames_end (show n < off + 16 by omega)]
    by_cases hlen : leNat (window w.rx off 4) < 16 ∨ n < off + leNat (window w.rx off 4)
    · simp [frames_bad hoff hn hlen]
    rw [frames_next hoff hn hlen]
    generalize leNat (window w.rx off 4) = len at hlen
    have hal := le_align4 len
    rcases frame_run queue ttl sendOk (show off + len ≤ w.rx.length by omega) (by omega) with
      ⟨-, e, hrun⟩ | ⟨-, -, hrun⟩ | ⟨-, -, m, d, stats, -, hd, hrun⟩
    · simp [bind_error _ hrun]
    · rw [bind_ok _ hrun]
      exact ih _ (by omega) hn rfl s'
    · by_cases hok : sendOk w.sent.length = true
      · rw [if_pos hok] at hrun
        rw [bind_ok _ hrun]
        exact ih _ (by omega) (by rw [length_splice (by omega)]; exact hn) rfl s'
      · rw [if_neg hok] at hrun
        simp [bind_error _ hrun]

/-- The messages the loop sends for the frames `fs`, if no send fails. -/
def replies (queue : UInt16) (ttl : UInt8) (fs : List (List UInt8)) : List (List UInt8) :=
  (packets queue ttl fs).filterMap (reply queue ttl)

/-- The loop has sent the messages `ms` on top of what `w` had sent. -/
def Sends (queue : UInt16) (ttl : UInt8) (sendOk : Nat → Bool) (n off : Nat) (w : Worker)
    (ms : List (List UInt8)) : Prop :=
  (final (frames queue ttl sendOk n off w)).sent = w.sent ++ delivered sendOk w.sent.length ms

theorem sends_end (h : n < off + 16) : Sends queue ttl sendOk n off w [] := by
  rw [Sends, frames_end h, delivered, List.append_nil]
  rfl

/-- The frame at `off` is answered, and the loop goes on behind it. -/
theorem sends_frame {f rest : List UInt8} (hf : IsFrame f) {fs : List (List UInt8)} (hn : n ≤ w.rx.length)
    (hoff : off ≤ n) (hb : (w.rx.take n).drop off = f ++ rest)
    (hnext : ∀ w' : Worker, n ≤ w'.rx.length → (w'.rx.take n).drop (off + f.length) = rest →
      Sends queue ttl sendOk n (off + align4 f.length) w' (replies queue ttl fs)) :
    Sends queue ttl sendOk n off w (replies queue ttl (f :: fs)) := by
  obtain ⟨hlong, hsize⟩ := hf
  have hlen : off + (f.length + rest.length) = n := by
    have := congrArg List.length hb
    simp only [List.length_drop, List.length_take, List.length_append] at this
    omega
  have hwin : window w.rx off f.length = f := by
    have htake := congrArg (List.take f.length) hb
    rwa [List.drop_take, List.take_take, Nat.min_eq_left (by omega), List.take_left' rfl] at htake
  have hrest : (w.rx.take n).drop (off + f.length) = rest := by
    rw [← List.drop_drop, hb, List.drop_left' rfl]
  have hread : leNat (window w.rx off 4) = f.length := by
    rw [← hsize]
    conv => rhs; rw [← hwin, window_window (by omega), Nat.add_zero]
  have hloop : frames queue ttl sendOk n off w = _ := frames_next (by omega) hn (by rw [hread]; omega)
  rw [hread] at hloop
  unfold Sends replies
  rw [hloop]
  have hcase := frame_run queue ttl sendOk (show off + f.length ≤ w.rx.length by omega) hlong
  rw [hwin] at hcase
  rcases hcase with ⟨hend, e, hrun⟩ | ⟨hend, hpk, hrun⟩ | ⟨hend, hpk, m, d, stats, hm, hd, hrun⟩
  · rw [bind_error _ hrun, packets_ends hend, List.filterMap_nil, delivered, List.append_nil]
    rfl
  · rw [bind_ok _ hrun, packets_other hend hpk]
    exact hnext w hn hrest
  · rw [packets_packet hend hpk, List.filterMap_cons_some hm, delivered]
    by_cases hok : sendOk w.sent.length = true
    · rw [if_pos hok] at hrun
      have hsent := hnext ⟨splice w.rx off d, m, stats, w.sent ++ [m]⟩
        (by rw [length_splice (by omega)]; exact hn)
        (by rw [← hd, List.drop_take, drop_splice d (by omega), ← List.drop_take, hd, hrest])
      rw [bind_ok _ hrun, if_pos hok]
      simpa [Sends, replies] using hsent
    · rw [if_neg hok] at hrun
      rw [bind_error _ hrun, if_neg hok, List.append_nil]
      rfl

/-- What the loop sends for a datagram of frames. -/
theorem sends_packed {fs : List (List UInt8)} {b : List UInt8} (hb : Packed fs b) : ∀ {off : Nat} {w : Worker},
    n ≤ w.rx.length → off ≤ n → (w.rx.take n).drop off = b → Sends queue ttl sendOk n off w (replies queue ttl fs) := by
  induction hb with
  | nil =>
    intro off w hn hoff h
    have hlen := congrArg List.length h
    simp only [List.length_drop, List.length_take, List.length_nil] at hlen
    exact sends_end (by omega)
  | @last f pad hf hpad =>
    intro off w hn hoff h
    have hal := le_align4 f.length
    have hlen := congrArg List.length h
    simp only [List.length_drop, List.length_take, List.length_append] at hlen
    exact sends_frame hf hn hoff h fun w' _ _ => sends_end (by omega)
  | @cons f pad b fs hf hpad _ ih =>
    intro off w hn hoff h
    have hal := le_align4 f.length
    have hlen := congrArg List.length h
    simp only [List.length_drop, List.length_take, List.length_append] at hlen
    rw [List.append_assoc] at h
    refine sends_frame hf hn hoff h fun w' hn' hrest => ih hn' (by omega) ?_
    rw [show off + align4 f.length = off + f.length + pad.length by omega, ← List.drop_drop, hrest,
      List.drop_left' rfl]

end loop

/-- **One verdict a packet.** On any datagram the loop ends without an access out of
range. When the datagram is a sequence of frames, each padded to 4 bytes, the messages
sent are one for each packet before the first frame that is an error or whose verdict
fails, in order, each a verdict on the packet the frame names; a send that fails ends
the loop, so what is sent then is what was before it. -/
theorem frames_verdicts (queue : UInt16) (ttl : UInt8) (sendOk : Nat → Bool) (n : Nat) (w : Worker)
    (hn : n ≤ w.rx.length) :
    (∀ off s', frames queue ttl sendOk n off w ≠ .error .panic s') ∧
    ∀ fs, Packed fs (w.rx.take n) → ∃ msgs,
      List.Forall₂ (fun f m => reply queue ttl f = some m ∧ ∃ as hdr payload, attributes f 20 = some as ∧
        lastOf isHdr as = some hdr ∧ IsVerdict queue (hdr.data.take 4) payload m) (packets queue ttl fs) msgs ∧
      (final (frames queue ttl sendOk n 0 w)).sent = w.sent ++ delivered sendOk w.sent.length msgs ∧
      ((∀ i, sendOk i = true) → (final (frames queue ttl sendOk n 0 w)).sent = w.sent ++ msgs) := by
  refine ⟨fun off => frames_in_range hn, fun fs hfs => ⟨replies queue ttl fs, ?_, ?_, fun hok => ?_⟩⟩
  · exact (packets_reply queue ttl fs).imp fun f m hm => ⟨hm, reply_isVerdict hm⟩
  · exact sends_packed hfs hn (Nat.zero_le n) (List.drop_zero ..)
  · have hsent : Sends queue ttl sendOk n 0 w (replies queue ttl fs) :=
      sends_packed hfs hn (Nat.zero_le n) (List.drop_zero ..)
    rw [Sends, delivered_all hok] at hsent
    exact hsent

/-- Two packets in one datagram. -/
def received : Worker := ⟨queued [40] ++ queued [70000], [], {}, []⟩

theorem frames_verdicts_received :
    (final (frames 6464 64 (fun _ => true) received.rx.length 0 received)).sent.length = 2 := by
  have hpacked : Packed [queued [40], queued [70000]] (received.rx.take received.rx.length) := by
    have hlast : Packed [queued [70000]] (queued [70000] ++ []) :=
    .last ⟨by decide +kernel, by decide +kernel⟩ (by simp)
    have hboth := Packed.cons (f := queued [40]) ⟨by decide +kernel, by decide +kernel⟩
      (show ([] : List UInt8).length = _ by decide +kernel) hlast
    rw [List.take_length]
    simpa [received] using hboth
  obtain ⟨msgs, hmsgs, -, hsent⟩ := (frames_verdicts 6464 64 (fun _ => true) _ received (le_refl _)).2 _ hpacked
  have hcount : (packets 6464 64 [queued [40], queued [70000]]).length = 2 := by decide +kernel
  rw [hsent fun _ => rfl, ← hcount, hmsgs.length_eq]
  rfl

end Nfqttl.Nfqueue
