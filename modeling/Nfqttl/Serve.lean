/-
`nfqueue.rs`: the loop of `worker` over the datagrams of its socket.

What `poll` and `recvfrom` answer is a `Round`; the rounds end when `STOP` is seen. The
worker answers the packets of the kernel's datagrams in the order in which they come,
whatever comes between them: interrupts, overruns of the socket, datagrams of others.
-/
import Nfqttl.Frames

namespace Nfqttl.Nfqueue

open Bytes Netlink

/-! ## The loop -/

inductive Errno
  | eintr | enobufs | other
  deriving DecidableEq, Repr

inductive Polled
  | failed (e : Errno)
  | timeout
  | ready (input : Bool)
  deriving DecidableEq, Repr

inductive Received
  | failed (e : Errno)
  /-- The port of the sender, and the whole datagram (`MSG_TRUNC`). -/
  | datagram (sender : Nat) (b : List UInt8)
  deriving DecidableEq

/-- One pass of the loop. `received` is looked at only when there is input. -/
structure Round where
  polled : Polled
  received : Received
  deriving DecidableEq

structure Service where
  worker : Worker
  overruns : Nat
  deriving DecidableEq

def onWorker (x : EStateM (Stop IoError) Worker Unit) : EStateM (Stop IoError) Service Unit := fun s =>
  match x s.worker with
  | .ok a w => .ok a { s with worker := w }
  | .error e w => .error e { s with worker := w }

section loop
variable (queue : UInt16) (ttl : UInt8) (sendOk : Nat → Bool)

/-- A datagram in the buffer, as much as fits. -/
def receive (sender : Nat) (b : List UInt8) : EStateM (Stop IoError) Worker Unit := do
  modify fun w => { w with rx := splice w.rx 0 (b.take w.rx.length) }
  if (← get).rx.length < b.length then throw (.err (.new .invalidData "truncated netlink datagram"))
  else if sender ≠ 0 then return
  else frames queue ttl sendOk b.length 0

def round (r : Round) : EStateM (Stop IoError) Service Unit :=
  match r.polled with
  | .failed .eintr => return
  | .failed _ => throw (.err .last)
  | .timeout => return
  | .ready false => throw (.err (.new .other "nfqueue poll error"))
  | .ready true =>
    match r.received with
    | .failed .eintr => return
    | .failed .enobufs => modify fun s => { s with overruns := s.overruns + 1 }
    | .failed .other => throw (.err .last)
    | .datagram sender b => onWorker (receive queue ttl sendOk sender b)

def serve : List Round → EStateM (Stop IoError) Service Unit
  | [] => return
  | r :: rs => do
    round queue ttl sendOk r
    serve rs

end loop

/-! ## What there is to answer -/

/-- The frames of a datagram up to the first ill-sized one, and whether there is none. -/
def cut (b : List UInt8) : List (List UInt8) × Bool :=
  if b.length < 16 then ([], true)
  else
    let len := leNat (window b 0 4)
    if len < 16 ∨ b.length < len then ([], false)
    else
      let rest := cut (b.drop (align4 len))
      (window b 0 len :: rest.1, rest.2)
termination_by b.length
decreasing_by
  rename_i hlen
  have := le_align4 len
  change (b.drop (align4 len)).length < _
  rw [List.length_drop]
  omega

section spec
variable (queue : UInt16) (ttl : UInt8)

/-- The loop over the frames comes to the end of the datagram, if no send fails. -/
def passes (b : List UInt8) : Bool := (cut b).2 && (cut b).1.all fun f => !ends queue ttl f

/-- The messages sent for a datagram, if no send fails. -/
def answers (b : List UInt8) : List (List UInt8) := replies queue ttl (cut b).1

/-- The datagram a round is about: the kernel's, and no longer than the buffer. -/
def Round.kernel (size : Nat) (r : Round) : Option (List UInt8) :=
  match r with
  | ⟨.ready true, .datagram 0 b⟩ => if b.length ≤ size then some b else none
  | _ => none

/-- The round ends the worker. -/
def Round.breaks (size : Nat) (r : Round) : Bool :=
  match r with
  | ⟨.failed e, _⟩ => e != .eintr
  | ⟨.timeout, _⟩ => false
  | ⟨.ready false, _⟩ => true
  | ⟨.ready true, .failed e⟩ => e == .other
  | ⟨.ready true, .datagram sender b⟩ => decide (size < b.length) || sender == 0 && !passes queue ttl b

def Round.overrun (r : Round) : Bool := r.polled == .ready true && r.received == .failed .enobufs

/-- The messages of the rounds up to the first that breaks. -/
def dialogue (size : Nat) : List Round → List (List UInt8)
  | [] => []
  | r :: rs => ((r.kernel size).elim [] (answers queue ttl)) ++
      if r.breaks queue ttl size then [] else dialogue size rs

end spec

theorem cut_short {b : List UInt8} (h : b.length < 16) : cut b = ([], true) := by
  rw [cut, if_pos h]

theorem cut_bad {b : List UInt8} (h : 16 ≤ b.length) (hlen : leNat (window b 0 4) < 16 ∨ b.length < leNat (window b 0 4)) :
    cut b = ([], false) := by
  rw [cut, if_neg (by omega), if_pos hlen]

theorem cut_next {b : List UInt8} (h : 16 ≤ b.length)
    (hlen : ¬(leNat (window b 0 4) < 16 ∨ b.length < leNat (window b 0 4))) :
    cut b = (window b 0 (leNat (window b 0 4)) :: (cut (b.drop (align4 (leNat (window b 0 4))))).1,
      (cut (b.drop (align4 (leNat (window b 0 4))))).2) := by
  rw [cut, if_neg (by omega), if_neg hlen]

/-- A datagram of frames is cut into them. -/
theorem cut_packed {fs : List (List UInt8)} {b : List UInt8} (h : Packed fs b) : cut b = (fs, true) := by
  have hframe : ∀ {f : List UInt8} (rest : List UInt8), IsFrame f → 16 ≤ (f ++ rest).length ∧
      leNat (window (f ++ rest) 0 4) = f.length ∧ window (f ++ rest) 0 f.length = f := by
    intro f rest ⟨hlong, hsize⟩
    refine ⟨by rw [List.length_append]; omega, ?_, window_prefix f rest rfl⟩
    rw [window_append_left rest (by omega), hsize]
  induction h with
  | nil => exact cut_short (by simp)
  | @last f pad hf hpad =>
    obtain ⟨hlong, hsize, hwin⟩ := hframe pad hf
    have hal := le_align4 f.length
    rw [cut_next hlong (by rw [hsize, List.length_append]; have := hf.1; omega), hsize, hwin,
      cut_short (by rw [List.length_drop, List.length_append]; omega)]
  | @cons f pad b fs hf hpad _ ih =>
    rw [List.append_assoc]
    obtain ⟨hlong, hsize, hwin⟩ := hframe (pad ++ b) hf
    have hal := le_align4 f.length
    have hdrop : (f ++ (pad ++ b)).drop (align4 f.length) = b := by
      rw [← List.append_assoc, List.drop_left' (by rw [List.length_append]; omega)]
    rw [cut_next hlong (by rw [hsize, List.length_append]; have := hf.1; omega), hsize, hwin, hdrop, ih]

/-! ## Sending -/

theorem delivered_append (sendOk : Nat → Bool) : ∀ (i : Nat) (ms ms' : List (List UInt8)),
    delivered sendOk i (ms ++ ms') =
      if delivered sendOk i ms = ms then ms ++ delivered sendOk (i + ms.length) ms' else delivered sendOk i ms
  | i, [], ms' => by simp [delivered]
  | i, m :: ms, ms' => by
    rw [List.cons_append, delivered, delivered]
    cases sendOk i with
    | false => simp
    | true =>
      rw [if_pos rfl, if_pos rfl, delivered_append sendOk (i + 1) ms ms']
      simp only [List.cons.injEq, true_and, List.length_cons]
      have hplus : i + (ms.length + 1) = i + 1 + ms.length := by omega
      rw [hplus]
      split <;> rfl

theorem delivered_leads (sendOk : Nat → Bool) : ∀ (i : Nat) (ms : List (List UInt8)), delivered sendOk i ms <+: ms
  | _, [] => List.prefix_rfl
  | i, m :: ms => by
    rw [delivered]
    cases sendOk i with
    | false => exact List.nil_prefix
    | true => exact (List.prefix_cons_inj m).mpr (delivered_leads sendOk (i + 1) ms)

def PacketStats.Balanced (s : PacketStats) : Prop := s.seen = s.rewritten + s.unchanged ∧ s.truncated ≤ s.unchanged

theorem PacketStats.Balanced.count {s : PacketStats} (h : s.Balanced) {rewritten : Bool} {t : Nat}
    (ht : t ≤ (!rewritten).toNat) : (s.count rewritten t).Balanced := by
  obtain ⟨hseen, htruncated⟩ := h
  unfold Balanced PacketStats.count
  cases rewritten <;> simp only [Bool.not_true, Bool.not_false, Bool.toNat_true, Bool.toNat_false] at ht ⊢ <;> omega

/-- From `w` to `w'` the worker has sent the messages `ms`, up to the first send that fails; it goes on
(`ok`) when that is none and nothing else stops it (`fine`). -/
structure Serves (sendOk : Nat → Bool) (w : Worker) (ms : List (List UInt8)) (fine ok : Bool) (w' : Worker) : Prop where
  sent : w'.sent = w.sent ++ delivered sendOk w.sent.length ms
  length : w'.rx.length = w.rx.length
  goes : ok = true ↔ fine = true ∧ delivered sendOk w.sent.length ms = ms
  seen : ok = true → w'.stats.seen = w.stats.seen + ms.length
  balanced : w.stats.Balanced → w'.stats.Balanced

section serves
variable {queue : UInt16} {ttl : UInt8} {sendOk : Nat → Bool} {w w₁ w₂ : Worker} {ms ms' : List (List UInt8)}
  {fine fine' ok : Bool}

theorem Serves.same (sendOk : Nat → Bool) (w : Worker) (fine : Bool) : Serves sendOk w [] fine fine w where
  sent := by rw [delivered, List.append_nil]
  length := rfl
  goes := by simp [delivered]
  seen := fun _ => rfl
  balanced := id

theorem Serves.next (h : Serves sendOk w ms fine true w₁) (h' : Serves sendOk w₁ ms' fine' ok w₂) :
    Serves sendOk w (ms ++ if fine then ms' else []) (fine && fine') ok w₂ := by
  obtain ⟨hfine, hall⟩ := h.goes.mp rfl
  rw [hfine, if_pos rfl, Bool.true_and]
  have hsent : w₁.sent = w.sent ++ ms := by rw [h.sent, hall]
  have hlen : w₁.sent.length = w.sent.length + ms.length := by rw [hsent, List.length_append]
  refine ⟨?_, h'.length.trans h.length, ?_, ?_, fun hb => h'.balanced (h.balanced hb)⟩
  · rw [h'.sent, hlen, hsent, delivered_append, if_pos hall, List.append_assoc]
  · rw [h'.goes, hlen, delivered_append, if_pos hall, List.append_cancel_left_eq]
  · intro hok
    rw [h'.seen hok, h.seen rfl, List.length_append]
    omega

theorem Serves.stop (h : Serves sendOk w ms fine false w₁) (ms' : List (List UInt8)) (fine' : Bool) :
    Serves sendOk w (ms ++ if fine then ms' else []) (fine && fine') false w₁ := by
  cases fine with
  | false => simpa using h
  | true =>
    have hnot : delivered sendOk w.sent.length ms ≠ ms := by
      intro hall
      have hgoes := h.goes.mpr ⟨rfl, hall⟩
      cases hgoes
    have hsame : delivered sendOk w.sent.length (ms ++ ms') = delivered sendOk w.sent.length ms := by
      rw [delivered_append, if_neg hnot]
    rw [if_pos rfl]
    refine ⟨?_, h.length, ?_, ?_, h.balanced⟩
    · rw [h.sent, hsame]
    · refine ⟨?_, ?_⟩
      · intro hok
        cases hok
      · intro hboth
        have hmore : ms ++ ms' <+: ms := by
          rw [← hboth.2, hsame]
          exact delivered_leads sendOk _ ms
        have hnil : ms' = [] := by
          have hlen := hmore.length_le
          rw [List.length_append] at hlen
          exact List.eq_nil_of_length_eq_zero (by omega)
        rw [hsame, hnil, List.append_nil] at hboth
        exact absurd hboth.2 hnot
    · intro hok
      cases hok

/-- How a computation ends, without a panic. -/
def Ended {σ : Type} (res : EStateM.Result (Stop IoError) σ Unit) (ok : Bool) (s : σ) : Prop :=
  ok = true ∧ res = .ok () s ∨ ok = false ∧ ∃ e, res = .error (.err e) s

/-! ## One frame -/

/-- The counters after the verdict on a frame. -/
theorem onFrame_stats (queue : UInt16) (ttl : UInt8) {off len : Nat} {w : Worker} (h : off + len ≤ w.rx.length)
    {w' : Worker} (hrun : onFrame off len (verdict queue ttl) w = .ok () w') :
    ∃ rewritten t, t ≤ (!rewritten).toNat ∧ w'.stats = w.stats.count rewritten t := by
  unfold onFrame at hrun
  rw [slice_window h] at hrun
  obtain ⟨e, _, hverdict⟩ | ⟨k, as, hdr, sent, t, hverdict, ha⟩ :=
    verdict_run queue ttl ⟨window w.rx off len, w.tx, w.stats⟩
  · simp only [hverdict] at hrun
    cases hrun
  · simp only [hverdict] at hrun
    cases hrun
    exact ⟨sent.isSome, t, ha.truncated, ha.stats⟩

theorem frame_packet (queue : UInt16) (ttl : UInt8) (sendOk : Nat → Bool) {off len : Nat} {w : Worker}
    (h : off + len ≤ w.rx.length) (hlen : 16 ≤ len) (hp : isPacket (window w.rx off len) = true) :
    frame queue ttl sendOk off len w = (onFrame off len (verdict queue ttl) >>= fun _ => send sendOk) w := by
  have hty : slice (ε := IoError) w.rx (off + 4) (off + 6) = .ok (window w.rx (off + 4) 2) :=
    slice_window (show off + 4 + 2 ≤ w.rx.length by omega)
  have htype : leNat (window w.rx (off + 4) 2) = frameType (window w.rx off len) := by
    rw [frameType, window_window (by omega)]
  have hpacket : frameType (window w.rx off len) = nfnlSubsysQueue <<< 8 ||| nfqnlMsgPacket := by
    simpa [isPacket] using hp
  unfold frame
  rw [get_bind, hty, lift_ok_bind]
  simp only [htype]
  rw [if_pos hpacket]

/-- The message for a frame, if there is one. -/
def answer (queue : UInt16) (ttl : UInt8) (f : List UInt8) : List (List UInt8) :=
  if isPacket f then (reply queue ttl f).toList else []

theorem replies_cons (queue : UInt16) (ttl : UInt8) (f : List UInt8) (fs : List (List UInt8)) :
    replies queue ttl (f :: fs) =
      (if ends queue ttl f then [] else answer queue ttl f) ++ if !ends queue ttl f then replies queue ttl fs else [] := by
  unfold replies answer
  cases hend : ends queue ttl f with
  | true => simp [packets_ends hend]
  | false =>
    cases hp : isPacket f with
    | false => simp [packets_other hend hp]
    | true =>
      rw [packets_packet hend hp]
      cases hr : reply queue ttl f <;> simp [hr]

theorem frame_serves (queue : UInt16) (ttl : UInt8) (sendOk : Nat → Bool) {off len : Nat} {w : Worker}
    (h : off + len ≤ w.rx.length) (hlen : 16 ≤ len) : ∃ ok w', Ended (frame queue ttl sendOk off len w) ok w' ∧
      Serves sendOk w (if ends queue ttl (window w.rx off len) then [] else answer queue ttl (window w.rx off len))
        (!ends queue ttl (window w.rx off len)) ok w' ∧
      w'.rx.drop (off + len) = w.rx.drop (off + len) := by
  obtain ⟨hend, e, hrun⟩ | ⟨hend, hp, hrun⟩ | ⟨hend, hp, _⟩ := frame_run queue ttl sendOk h hlen
  · rw [hend]
    exact ⟨false, w, .inr ⟨rfl, e, hrun⟩, Serves.same sendOk w false, rfl⟩
  · rw [hend, answer, hp]
    exact ⟨true, w, .inl ⟨rfl, hrun⟩, Serves.same sendOk w true, rfl⟩
  · obtain ⟨hnone, _⟩ | ⟨m, d, stats, hm, hd, hrun⟩ := onFrame_verdict queue ttl h
    · rw [ends, isPacket_not_error hp, hp, hnone] at hend
      cases hend
    obtain ⟨rewritten, t, ht, hstats⟩ := onFrame_stats queue ttl h hrun
    dsimp only at hstats
    have hframe := frame_packet queue ttl sendOk h hlen hp
    rw [bind_ok _ hrun, send, get_bind] at hframe
    have hrx : (splice w.rx off d).drop (off + len) = w.rx.drop (off + len) := by
      rw [← hd, drop_splice d (by omega)]
    have hlength : (splice w.rx off d).length = w.rx.length := length_splice (by omega)
    rw [hend, answer, hp, hm, if_neg (by simp), if_pos rfl]
    by_cases hok : sendOk w.sent.length = true
    · rw [if_pos hok] at hframe
      refine ⟨true, _, .inl ⟨rfl, hframe⟩, ⟨?_, hlength, ?_, ?_, ?_⟩, hrx⟩
      · simp [delivered, hok]
      · simp [delivered, hok]
      · simp [hstats, PacketStats.count]
      · intro hb
        change stats.Balanced
        rw [hstats]
        exact hb.count ht
    · rw [if_neg hok] at hframe
      refine ⟨false, _, .inr ⟨rfl, _, hframe⟩, ⟨?_, hlength, ?_, ?_, ?_⟩, hrx⟩
      · simp [delivered, hok]
      · simp [delivered, hok]
      · intro hfalse
        cases hfalse
      · intro hb
        change stats.Balanced
        rw [hstats]
        exact hb.count ht

/-! ## A datagram, a round, all rounds -/

theorem frames_serves (queue : UInt16) (ttl : UInt8) (sendOk : Nat → Bool) {n : Nat} (off : Nat) (w : Worker)
    (hn : n ≤ w.rx.length) : ∃ ok w', Ended (frames queue ttl sendOk n off w) ok w' ∧
      Serves sendOk w (answers queue ttl ((w.rx.take n).drop off)) (passes queue ttl ((w.rx.take n).drop off)) ok w' := by
  induction hm : n - off using Nat.strongRecOn generalizing off w with
  | ind m ih =>
    subst hm
    generalize hb : (w.rx.take n).drop off = b
    have hblen : b.length = n - off := by
      rw [← hb, List.length_drop, List.length_take, Nat.min_eq_left hn]
    unfold answers passes
    by_cases hoff : off + 16 ≤ n
    case neg =>
      rw [cut_short (show b.length < 16 by omega)]
      exact ⟨true, w, .inl ⟨rfl, frames_end (by omega)⟩, Serves.same sendOk w true⟩
    have hwin : ∀ len, off + len ≤ n → window b 0 len = window w.rx off len := by
      intro len hlen
      rw [← hb, window, window, List.drop_zero, List.drop_take, List.take_take, Nat.min_eq_left (by omega)]
    have hread : leNat (window b 0 4) = leNat (window w.rx off 4) := by rw [hwin 4 (by omega)]
    by_cases hlen : leNat (window w.rx off 4) < 16 ∨ n < off + leNat (window w.rx off 4)
    · rw [cut_bad (by omega) (by omega)]
      exact ⟨false, w, .inr ⟨rfl, _, frames_bad hoff hn hlen⟩, Serves.same sendOk w false⟩
    rw [cut_next (by omega) (by omega), hread, frames_next hoff hn hlen]
    generalize leNat (window w.rx off 4) = len at hlen
    have hal := le_align4 len
    rw [hwin len (by omega), replies_cons, List.all_cons]
    obtain ⟨ok, w', hended, hserves, hrest⟩ :=
      frame_serves queue ttl sendOk (show off + len ≤ w.rx.length by omega) (by omega)
    have hdrop : (w'.rx.take n).drop (off + align4 len) = b.drop (align4 len) := by
      have hmore : off + align4 len = off + len + (align4 len - len) := by omega
      have hsame : w'.rx.drop (off + align4 len) = w.rx.drop (off + align4 len) := by
        rw [hmore, ← List.drop_drop, hrest, List.drop_drop]
      rw [← hb, List.drop_drop, List.drop_take, List.drop_take, hsame]
    have hcomm : ((cut (b.drop (align4 len))).2 && (!ends queue ttl (window w.rx off len) &&
        (cut (b.drop (align4 len))).1.all fun f => !ends queue ttl f)) =
        (!ends queue ttl (window w.rx off len) && passes queue ttl (b.drop (align4 len))) := by
      unfold passes
      rw [← Bool.and_assoc, ← Bool.and_assoc, Bool.and_comm (cut _).2]
    rw [hcomm]
    obtain ⟨rfl, hrun⟩ | ⟨rfl, e, hrun⟩ := hended
    · rw [bind_ok _ hrun]
      have hn' : n ≤ w'.rx.length := by rw [hserves.length]; exact hn
      obtain ⟨ok', w'', hended', hserves'⟩ := ih (n - (off + align4 len)) (by omega) (off + align4 len) w' hn' rfl
      rw [hdrop] at hserves'
      exact ⟨ok', w'', hended', hserves.next hserves'⟩
    · rw [bind_error _ hrun]
      exact ⟨false, w', .inr ⟨rfl, e, rfl⟩, hserves.stop _ _⟩

/-- The messages a datagram asks for, by its sender and its length. -/
theorem receive_serves (queue : UInt16) (ttl : UInt8) (sendOk : Nat → Bool) (sender : Nat) (b : List UInt8)
    (w : Worker) : ∃ ok w', Ended (receive queue ttl sendOk sender b w) ok w' ∧
      Serves sendOk w (((Round.mk (.ready true) (.datagram sender b)).kernel w.rx.length).elim [] (answers queue ttl))
        (!(Round.mk (.ready true) (.datagram sender b)).breaks queue ttl w.rx.length) ok w' := by
  have hsize : (splice w.rx 0 (b.take w.rx.length)).length = w.rx.length :=
    length_splice (by rw [List.length_take]; omega)
  have hlift : ∀ {ms fine ok w'}, Serves sendOk { w with rx := splice w.rx 0 (b.take w.rx.length) } ms fine ok w' →
      Serves sendOk w ms fine ok w' := fun h => ⟨h.sent, h.length.trans hsize, h.goes, h.seen, h.balanced⟩
  unfold receive
  rw [modify_bind, get_bind]
  dsimp only
  rw [hsize]
  by_cases hlong : w.rx.length < b.length
  · rw [if_pos hlong]
    have hbreaks : (Round.mk (.ready true) (.datagram sender b)).breaks queue ttl w.rx.length = true := by
      simp [Round.breaks, hlong]
    have hkernel : (Round.mk (.ready true) (.datagram sender b)).kernel w.rx.length = none := by
      unfold Round.kernel
      split
      · next heq =>
        cases heq
        rw [if_neg (by omega)]
      · rfl
    rw [hbreaks, hkernel]
    exact ⟨false, _, .inr ⟨rfl, _, rfl⟩, hlift (Serves.same sendOk _ false)⟩
  rw [if_neg hlong]
  by_cases hsender : sender = 0
  · subst hsender
    rw [if_neg (by simp)]
    have hbreaks : (Round.mk (.ready true) (.datagram 0 b)).breaks queue ttl w.rx.length = !passes queue ttl b := by
      simp [Round.breaks, hlong]
    have hkernel : (Round.mk (.ready true) (.datagram 0 b)).kernel w.rx.length = some b := by
      simp [Round.kernel, show b.length ≤ w.rx.length by omega]
    rw [hbreaks, hkernel, Bool.not_not, Option.elim_some]
    have hb : (splice w.rx 0 (b.take w.rx.length)).take b.length = b := by
      have hall : b.take w.rx.length = b := List.take_of_length_le (by omega)
      rw [hall, splice_zero, List.take_left' rfl]
    have hfits : b.length ≤ (splice w.rx 0 (b.take w.rx.length)).length := by
      rw [hsize]
      omega
    obtain ⟨ok, w', hended, hserves⟩ := frames_serves queue ttl sendOk 0
      { w with rx := splice w.rx 0 (b.take w.rx.length) } hfits
    rw [List.drop_zero, hb] at hserves
    exact ⟨ok, w', hended, hlift hserves⟩
  · rw [if_pos hsender]
    have hbreaks : (Round.mk (.ready true) (.datagram sender b)).breaks queue ttl w.rx.length = false := by
      simp [Round.breaks, hlong, hsender]
    have hkernel : (Round.mk (.ready true) (.datagram sender b)).kernel w.rx.length = none := by
      unfold Round.kernel
      split
      · next heq =>
        cases heq
        exact absurd rfl hsender
      · rfl
    rw [hbreaks, hkernel]
    exact ⟨true, _, .inl ⟨rfl, rfl⟩, hlift (Serves.same sendOk _ true)⟩

theorem round_serves (queue : UInt16) (ttl : UInt8) (sendOk : Nat → Bool) (r : Round) (s : Service) :
    ∃ ok s', Ended (round queue ttl sendOk r s) ok s' ∧
      Serves sendOk s.worker ((r.kernel s.worker.rx.length).elim [] (answers queue ttl))
        (!r.breaks queue ttl s.worker.rx.length) ok s'.worker ∧
      (ok = true → s'.overruns = s.overruns + r.overrun.toNat) := by
  have hsame := fun fine => Serves.same sendOk s.worker fine
  obtain ⟨polled, received⟩ := r
  cases polled with
  | failed e =>
    cases e with
    | eintr => exact ⟨true, s, .inl ⟨rfl, rfl⟩, hsame true, fun _ => rfl⟩
    | enobufs => exact ⟨false, s, .inr ⟨rfl, _, rfl⟩, hsame false, fun h => by cases h⟩
    | other => exact ⟨false, s, .inr ⟨rfl, _, rfl⟩, hsame false, fun h => by cases h⟩
  | timeout => exact ⟨true, s, .inl ⟨rfl, rfl⟩, hsame true, fun _ => rfl⟩
  | ready input =>
    cases input with
    | false => exact ⟨false, s, .inr ⟨rfl, _, rfl⟩, hsame false, fun h => by cases h⟩
    | true =>
      cases received with
      | failed e =>
        cases e with
        | eintr => exact ⟨true, s, .inl ⟨rfl, rfl⟩, hsame true, fun _ => rfl⟩
        | enobufs => exact ⟨true, _, .inl ⟨rfl, rfl⟩, hsame true, fun _ => rfl⟩
        | other => exact ⟨false, s, .inr ⟨rfl, _, rfl⟩, hsame false, fun h => by cases h⟩
      | datagram sender b =>
        obtain ⟨ok, w', hended, hserves⟩ := receive_serves queue ttl sendOk sender b s.worker
        refine ⟨ok, { s with worker := w' }, ?_, hserves, fun _ => rfl⟩
        unfold round onWorker
        obtain ⟨hok, hrun⟩ | ⟨hok, e, hrun⟩ := hended
        · exact .inl ⟨hok, by simp only [hrun]⟩
        · exact .inr ⟨hok, e, by simp only [hrun]⟩

/-- No round breaks. -/
def sound (queue : UInt16) (ttl : UInt8) (size : Nat) (rs : List Round) : Bool := rs.all fun r => !r.breaks queue ttl size

theorem rounds_serve (queue : UInt16) (ttl : UInt8) (sendOk : Nat → Bool) : ∀ (rs : List Round) (s : Service),
    ∃ ok s', Ended (serve queue ttl sendOk rs s) ok s' ∧
      Serves sendOk s.worker (dialogue queue ttl s.worker.rx.length rs) (sound queue ttl s.worker.rx.length rs) ok
        s'.worker ∧
      (ok = true → s'.overruns = s.overruns + rs.countP Round.overrun)
  | [], s => ⟨true, s, .inl ⟨rfl, rfl⟩, Serves.same sendOk s.worker true, fun _ => rfl⟩
  | r :: rs, s => by
    obtain ⟨ok, s₁, hended, hserves, hover⟩ := round_serves queue ttl sendOk r s
    have hdialogue : dialogue queue ttl s.worker.rx.length (r :: rs) =
        ((r.kernel s.worker.rx.length).elim [] (answers queue ttl)) ++
          if !r.breaks queue ttl s.worker.rx.length then dialogue queue ttl s.worker.rx.length rs else [] := by
      rw [dialogue]
      cases r.breaks queue ttl s.worker.rx.length <;> rfl
    rw [hdialogue]
    change ∃ ok s', Ended ((round queue ttl sendOk r >>= fun _ => serve queue ttl sendOk rs) s) ok s' ∧ _
    obtain ⟨rfl, hrun⟩ | ⟨rfl, e, hrun⟩ := hended
    · rw [bind_ok _ hrun]
      obtain ⟨ok', s₂, hended', hserves', hover'⟩ := rounds_serve queue ttl sendOk rs s₁
      rw [hserves.length] at hserves'
      refine ⟨ok', s₂, hended', hserves.next hserves', ?_⟩
      intro hok
      rw [hover' hok, hover rfl, List.countP_cons]
      cases r.overrun with
      | true =>
        simp
        omega
      | false => simp
    · rw [bind_error _ hrun]
      refine ⟨false, s₁, .inr ⟨rfl, e, rfl⟩, hserves.stop _ _, ?_⟩
      intro hok
      cases hok

end serves

/-- **What a worker says.** Whatever `poll` and `recvfrom` answer, over any number of rounds, the worker does not
panic; it sends the verdicts on the packets of the kernel's datagrams, one each and in order, up to the first frame
or round that ends it or send that fails; and it goes on as long as there is none. Its counters then say how many
packets and overruns there were. -/
theorem serve_spec (queue : UInt16) (ttl : UInt8) (sendOk : Nat → Bool) (rs : List Round) (s : Service) :
    ∃ ok s', Ended (serve queue ttl sendOk rs s) ok s' ∧
      s'.worker.sent = s.worker.sent ++
        delivered sendOk s.worker.sent.length (dialogue queue ttl s.worker.rx.length rs) ∧
      (ok = true ↔ (∀ r ∈ rs, r.breaks queue ttl s.worker.rx.length = false) ∧
        delivered sendOk s.worker.sent.length (dialogue queue ttl s.worker.rx.length rs) =
          dialogue queue ttl s.worker.rx.length rs) ∧
      (ok = true → s'.worker.stats.seen = s.worker.stats.seen + (dialogue queue ttl s.worker.rx.length rs).length ∧
        s'.overruns = s.overruns + rs.countP Round.overrun) ∧
      (s.worker.stats.Balanced → s'.worker.stats.Balanced) ∧
      ∀ fs b, Packed fs b → answers queue ttl b = replies queue ttl fs := by
  obtain ⟨ok, s', hended, hserves, hover⟩ := rounds_serve queue ttl sendOk rs s
  refine ⟨ok, s', hended, hserves.sent, ?_, fun hok => ⟨hserves.seen hok, hover hok⟩, hserves.balanced, ?_⟩
  · rw [hserves.goes, sound, List.all_eq_true]
    simp only [Bool.not_eq_true']
  · intro fs b hb
    rw [answers, cut_packed hb]

end Nfqttl.Nfqueue
