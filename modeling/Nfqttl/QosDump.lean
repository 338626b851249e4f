/-
`qos.rs`: `request`, the loop that receives the kernel's answer, and the loop over the
messages of a datagram inside of it.

What the answer is goes by the messages alone, not by how the kernel put them into
datagrams: the first one that decides does so. A run of the loop is given by what its
system calls answer, round after round. `usize` has 64 bits, and a negated `i32` wraps.
-/
import Nfqttl.Configure
import Nfqttl.QosMessage

namespace Nfqttl.Qos

open Bytes Netlink
open Nfqueue.Configure (SockError leInt io)

def afNetlink : Nat := 16
def eintr : Int := 4

/-! ## The messages of a datagram -/

/-- A failed `decode_qdisc` is returned as it is. -/
def lifted {α : Type} : Except (Stop IoError) α → Except (Stop SockError) α
  | .ok a => .ok a
  | .error (.err e) => .error (.err (.io e))
  | .error .panic => .error .panic

/-- `request` returns, or goes on with what comes next. -/
inductive Parsed
  | done (out : List Qdisc)
  | more (out : List Qdisc)
  deriving DecidableEq

/-- One message, with `out` the qdiscs of those before it. -/
def onMessage (dump : Bool) (out : List Qdisc) (ty flags : Nat) (payload : List UInt8) :
    Except (Stop SockError) Parsed :=
  if flags &&& 0x10 ≠ 0 then throw (io .interrupted "qdisc dump interrupted")
  else if ty = 2 ∨ ty = 3 then
    if payload.length < 4 then throw (io .invalidData "netlink result missing errno")
    else do
      let e := leInt (← slice payload 0 4)
      if e < 0 then throw (.err (.os ((-e).bmod (2 ^ 32))))
      else if e > 0 then throw (io .invalidData "invalid netlink errno")
      else if ty = 3 ∨ !dump then return .done out
      else return .more out
  else if ty = 36 then do
    match ← lifted (decodeQdisc payload) with
    | some q => return .more (out ++ [q])
    | none => return .more out
  else if ty = 4 then throw (io .invalidData "netlink overrun")
  else return .more out

/-- `while !b.is_empty()` -/
def parse (dump : Bool) (out : List Qdisc) (b : List UInt8) : Except (Stop SockError) Parsed :=
  if b.isEmpty then .ok (.more out)
  else if b.length < 16 then throw (io .invalidData "short netlink header")
  else do
    let len := leNat (← slice b 0 4)
    if len < 16 ∨ align4 len > b.length then throw (io .invalidData "invalid netlink message length")
    else do
      let seq := leNat (← slice b 8 12)
      if seq ≠ SEQ then throw (io .invalidData "unexpected netlink sequence")
      else do
        let ty := leNat (← slice b 4 6)
        let flags := leNat (← slice b 6 8)
        let payload ← slice b 16 len
        match ← onMessage dump out ty flags payload with
        | .done out => return .done out
        | .more out => parse dump out (b.drop (align4 len))
termination_by b.length
decreasing_by
  rename_i _hsize _ _
  have := le_align4 len
  rw [List.length_drop]
  change b.length - align4 len < b.length
  omega

/-! ## Receiving -/

/-- What `recvfrom` answers: a failure, or a datagram of any size and its sender. -/
inductive Received
  | failed (errno : Int)
  | datagram (b : List UInt8) (family pid : Nat)

/-- What `poll` answers, and `recvfrom` after it. -/
inductive Polled
  | failed (errno : Int)
  | idle
  | ready (r : Received)

/-- One round: the milliseconds left, and what the calls answer. -/
structure Round where
  left : Nat
  polled : Polled

/-- The loop of `request`; without an answer as long as the rounds given do not end it. -/
def receive (dump : Bool) (out : List Qdisc) (total : Nat) :
    List Round → Option (Except (Stop SockError) (List Qdisc))
  | [] => none
  | t :: ts =>
    if t.left = 0 then some (throw (io .timedOut "qdisc netlink timeout"))
    else
      match t.polled with
      | .failed errno => if errno = eintr then receive dump out total ts else some (throw (.err (.io .last)))
      | .idle => receive dump out total ts
      | .ready (.failed errno) => if errno = eintr then receive dump out total ts else some (throw (.err (.io .last)))
      | .ready (.datagram b family pid) =>
        if b.length = 0 ∨ b.length > 65536 ∨ pid ≠ 0 ∨ family ≠ afNetlink then
          some (throw (io .invalidData "invalid/truncated netlink datagram"))
        else if total + b.length > 2 * 1024 * 1024 then some (throw (io .invalidData "oversized qdisc dump"))
        else
          match parse dump out b with
          | .error e => some (.error e)
          | .ok (.done out) => some (.ok out)
          | .ok (.more out) => receive dump out (total + b.length) ts

/-- What the calls before the loop answer. -/
structure Opening where
  socket : Int
  bind : Int
  setsockopt : Int
  sendto : Int

def request (b : List UInt8) (dump : Bool) (o : Opening) (ts : List Round) :
    Option (Except (Stop SockError) (List Qdisc)) :=
  if o.socket < 0 ∨ o.bind < 0 ∨ o.setsockopt < 0 ∨ o.sendto ≠ b.length then some (throw (.err (.io .last)))
  else receive dump [] 0 ts

/-! ## No read is out of range -/

theorem decodeQdisc_ne_panic (b : List UInt8) : decodeQdisc b ≠ .error .panic := by
  have hattrs : ∀ b : List UInt8, attrs b ≠ .error .panic := fun b => (attrsFrom_cases .empty b).1
  unfold decodeQdisc
  split
  · exact err_ne_panic _
  next hlen =>
  have hslice : ∀ i, i + 4 ≤ b.length → slice (ε := IoError) b i (i + 4) ≠ .error .panic := by
    intro i hi
    rw [slice_window hi]
    exact ok_ne_panic _
  have hqdisc : ∀ (kind : String) (o : Options), (do
      let index ← slice b 4 8
      let parent ← slice b 12 16
      let handle ← slice b 8 12
      return some ⟨leNat index, leNat parent, leNat handle, kind, o.erase 1⟩ : Except (Stop IoError) (Option Qdisc)) ≠
        .error .panic := by
    intro kind o
    refine bind_ne_panic (hslice 4 (by omega)) fun _ _ => bind_ne_panic (hslice 12 (by omega)) fun _ _ => ?_
    exact bind_ne_panic (hslice 8 (by omega)) fun _ _ => ok_ne_panic _
  refine bind_ne_panic (hattrs _) fun a _ => ?_
  dsimp only
  cases a.find 1 with
  | none => exact err_ne_panic _
  | some kind =>
    simp only [pure_bind]
    cases String.fromUTF8? ⟨(stripNul kind).toArray⟩ with
    | none => exact err_ne_panic _
    | some kind =>
      simp only
      split
      · cases a.find 2 with
        | none => exact err_ne_panic _
        | some o => exact bind_ne_panic (hattrs o) fun o _ => hqdisc kind o
      · exact hqdisc kind _

theorem lifted_ne_panic {α : Type} {x : Except (Stop IoError) α} (h : x ≠ .error .panic) :
    lifted x ≠ .error .panic := by
  cases x with
  | ok a => exact ok_ne_panic _
  | error e =>
    cases e with
    | err e => exact err_ne_panic _
    | panic => exact absurd rfl h

theorem onMessage_ne_panic (dump : Bool) (out : List Qdisc) (ty flags : Nat) (payload : List UInt8) :
    onMessage dump out ty flags payload ≠ .error .panic := by
  unfold onMessage
  split
  · exact err_ne_panic _
  split
  · split
    · exact err_ne_panic _
    next hlen =>
    rw [slice_window (show 0 + 4 ≤ payload.length by omega), ok_bind]
    dsimp only
    split
    · exact err_ne_panic _
    split
    · exact err_ne_panic _
    split
    · exact ok_ne_panic _
    · exact ok_ne_panic _
  split
  · refine bind_ne_panic (lifted_ne_panic (decodeQdisc_ne_panic payload)) fun q _ => ?_
    cases q with
    | some q => exact ok_ne_panic _
    | none => exact ok_ne_panic _
  split
  · exact err_ne_panic _
  · exact ok_ne_panic _

/-- One round over a datagram, which reads nothing out of range. -/
theorem parse_eq (dump : Bool) (out : List Qdisc) {b : List UInt8} (h : 16 ≤ b.length) : parse dump out b =
    if leNat (window b 0 4) < 16 ∨ align4 (leNat (window b 0 4)) > b.length then
      .error (io .invalidData "invalid netlink message length")
    else if leNat (window b 8 4) ≠ SEQ then .error (io .invalidData "unexpected netlink sequence")
    else (do
      match ← onMessage dump out (leNat (window b 4 2)) (leNat (window b 6 2))
          (window b 16 (leNat (window b 0 4) - 16)) with
      | .done out => return .done out
      | .more out => parse dump out (b.drop (align4 (leNat (window b 0 4))))) := by
  have hne : b.isEmpty = false := by
    rw [← Bool.not_eq_true, List.isEmpty_iff_length_eq_zero]
    omega
  rw [parse, hne, if_neg Bool.false_ne_true, if_neg (by omega), slice_window (show 0 + 4 ≤ _ by omega), ok_bind]
  dsimp only
  by_cases hlen : leNat (window b 0 4) < 16 ∨ align4 (leNat (window b 0 4)) > b.length
  · rw [if_pos hlen, if_pos hlen]
    rfl
  rw [if_neg hlen, if_neg hlen, slice_window (show 8 + 4 ≤ _ by omega), ok_bind]
  by_cases hseq : leNat (window b 8 4) ≠ SEQ
  · rw [if_pos hseq, if_pos hseq]
    rfl
  have hle := le_align4 (leNat (window b 0 4))
  have hpayload := slice_window (ε := SockError) (b := b) (i := 16) (n := leNat (window b 0 4) - 16) (by omega)
  rw [show 16 + (leNat (window b 0 4) - 16) = leNat (window b 0 4) by omega] at hpayload
  rw [if_neg hseq, if_neg hseq, slice_window (show 4 + 2 ≤ _ by omega), ok_bind,
    slice_window (show 6 + 2 ≤ _ by omega), ok_bind, hpayload, ok_bind]

theorem parse_ne_panic (dump : Bool) (out : List Qdisc) (b : List UInt8) : parse dump out b ≠ .error .panic := by
  induction out, b using parse.induct with
  | case1 out b h =>
    rw [parse, if_pos h]
    exact ok_ne_panic _
  | case2 out b h hshort =>
    rw [parse, if_neg h, if_pos hshort]
    exact err_ne_panic _
  | case3 out b h hlong ih =>
    rw [parse_eq dump out (Nat.le_of_not_lt hlong)]
    split
    · exact err_ne_panic _
    next hsize =>
    split
    · exact err_ne_panic _
    next hseq =>
    refine bind_ne_panic (onMessage_ne_panic dump out _ _ _) fun r _ => ?_
    cases r with
    | done out => exact ok_ne_panic _
    | more out => exact ih (window b 0 4) hsize out

/-! ## Messages -/

/-- A message of the kernel's answer, padded to 4 bytes. -/
structure Reply where
  ty : Nat
  flags : Nat
  port : Nat
  payload : List UInt8
  pad : List UInt8
  typed : ty < 65536
  flagged : flags < 65536
  sized : 16 + payload.length < 2 ^ 32
  padded : pad.length = align4 (16 + payload.length) - (16 + payload.length)

namespace Reply

def bytes (m : Reply) : List UInt8 :=
  toLe 4 (16 + m.payload.length) ++
    (toLe 2 m.ty ++ (toLe 2 m.flags ++ (toLe 4 SEQ ++ (toLe 4 m.port ++ (m.payload ++ m.pad)))))

@[simp] theorem length_bytes (m : Reply) : m.bytes.length = align4 (16 + m.payload.length) := by
  have hle := le_align4 (16 + m.payload.length)
  simp only [bytes, List.length_append, length_toLe, m.padded]
  omega

/-- The errno of an error or of the end of a dump, if it is there. -/
def errno (m : Reply) : Option Int := if m.payload.length < 4 then none else some (leInt (m.payload.take 4))

/-- The dump was interrupted or overrun, failed, or has a qdisc that is not understood. -/
def Fatal (m : Reply) : Prop :=
  m.flags &&& 0x10 ≠ 0 ∨ (m.ty = 2 ∨ m.ty = 3) ∧ m.errno ≠ some 0 ∨
    m.ty = 36 ∧ (∃ e, decodeQdisc m.payload = .error e) ∨ m.ty = 4

/-- The dump is complete. -/
def Ends (m : Reply) : Prop := ¬ m.Fatal ∧ m.ty = 3

/-- The qdisc of the message, if it is of one. -/
def qdisc (m : Reply) : Option Qdisc := if m.ty = 36 then (decodeQdisc m.payload).toOption.join else none

section
variable {m : Reply} (hflags : m.flags &&& 0x10 = 0) (out : List Qdisc)
include hflags

theorem onMessage_result (hty : m.ty = 2 ∨ m.ty = 3) : onMessage true out m.ty m.flags m.payload =
    match m.errno with
    | none => .error (io .invalidData "netlink result missing errno")
    | some e =>
      if e < 0 then .error (.err (.os ((-e).bmod (2 ^ 32))))
      else if e > 0 then .error (io .invalidData "invalid netlink errno")
      else .ok (if m.ty = 3 then .done out else .more out) := by
  rw [onMessage, if_neg (by simpa using hflags), if_pos hty, errno]
  by_cases hshort : m.payload.length < 4
  · rw [if_pos hshort, if_pos hshort]
    rfl
  · rw [if_neg hshort, if_neg hshort, slice_window (show 0 + 4 ≤ m.payload.length by omega), ok_bind]
    simp only [window, List.drop_zero]
    split
    · rfl
    split
    · rfl
    by_cases hthree : m.ty = 3
    · simp [hthree]
      rfl
    · simp [hthree]
      rfl

theorem onMessage_qdisc (hty : m.ty = 36) : onMessage true out m.ty m.flags m.payload =
    (lifted (decodeQdisc m.payload) >>= fun q => .ok (.more (out ++ q.toList))) := by
  rw [onMessage, if_neg (by simpa using hflags), if_neg (by omega), if_pos hty]
  cases lifted (decodeQdisc m.payload) with
  | error e => rfl
  | ok q =>
    cases q with
    | some q => rfl
    | none =>
      rw [ok_bind, ok_bind, Option.toList_none, List.append_nil]
      rfl

end

variable {m : Reply}

theorem not_fatal (h : ¬ m.Fatal) : m.flags &&& 0x10 = 0 ∧ (m.ty = 2 ∨ m.ty = 3 → m.errno = some 0) ∧
    (m.ty = 36 → ∃ q, decodeQdisc m.payload = .ok q) ∧ m.ty ≠ 4 := by
  obtain ⟨hflags, h⟩ := not_or.mp h
  obtain ⟨hresult, h⟩ := not_or.mp h
  obtain ⟨hqdisc, hoverrun⟩ := not_or.mp h
  refine ⟨not_not.mp hflags, fun hty => not_not.mp fun hne => hresult ⟨hty, hne⟩, fun hty => ?_, hoverrun⟩
  cases hdecode : decodeQdisc m.payload with
  | error e => exact absurd ⟨hty, e, hdecode⟩ hqdisc
  | ok q => exact ⟨q, rfl⟩

/-- A message that decides nothing adds its qdisc. -/
theorem onMessage_more (h : ¬ m.Fatal) (hend : ¬ m.Ends) (out : List Qdisc) :
    onMessage true out m.ty m.flags m.payload = .ok (.more (out ++ m.qdisc.toList)) := by
  have hnot : m.ty ≠ 3 := fun hty => hend ⟨h, hty⟩
  obtain ⟨hflags, hresult, hqdisc, hoverrun⟩ := not_fatal h
  by_cases hty : m.ty = 2 ∨ m.ty = 3
  · have hno : m.qdisc = none := if_neg (by omega)
    rw [onMessage_result hflags out hty, hresult hty, hno, Option.toList_none, List.append_nil]
    exact congrArg Except.ok (if_neg hnot)
  by_cases hq : m.ty = 36
  · obtain ⟨q, hdecode⟩ := hqdisc hq
    have hsome : m.qdisc = q := by
      rw [qdisc, if_pos hq, hdecode]
      rfl
    rw [onMessage_qdisc hflags out hq, hdecode, hsome]
    rfl
  · have hno : m.qdisc = none := if_neg hq
    rw [onMessage, if_neg (by simpa using hflags), if_neg hty, if_neg hq, if_neg hoverrun, hno, Option.toList_none,
      List.append_nil]
    rfl

theorem onMessage_done (h : m.Ends) (out : List Qdisc) :
    onMessage true out m.ty m.flags m.payload = .ok (.done out) := by
  obtain ⟨hfatal, hty⟩ := h
  obtain ⟨hflags, hresult, -⟩ := not_fatal hfatal
  rw [onMessage_result hflags out (.inr hty), hresult (.inr hty)]
  exact congrArg Except.ok (if_pos hty)

/-- The error does not depend on the qdiscs before it. -/
theorem onMessage_fatal (h : m.Fatal) :
    ∃ e, ∀ out, onMessage true out m.ty m.flags m.payload = .error (.err e) := by
  by_cases hflags : m.flags &&& 0x10 = 0
  case neg => exact ⟨_, fun out => if_pos hflags⟩
  rcases h with hno | ⟨hty, herrno⟩ | ⟨hty, e, hdecode⟩ | hty
  · exact absurd hflags hno
  · cases he : m.errno with
    | none => exact ⟨_, fun out => by rw [onMessage_result hflags out hty, he]; rfl⟩
    | some e =>
      have hne : e ≠ 0 := fun h0 => herrno (he.trans (congrArg some h0))
      rcases lt_or_gt_of_ne hne with hneg | hpos
      · exact ⟨_, fun out => by rw [onMessage_result hflags out hty, he]; exact if_pos hneg⟩
      · refine ⟨.io (.new .invalidData "invalid netlink errno"), fun out => ?_⟩
        rw [onMessage_result hflags out hty, he]
        exact (if_neg (by omega)).trans (if_pos hpos)
  · cases e with
    | panic => exact absurd hdecode (decodeQdisc_ne_panic _)
    | err e => exact ⟨_, fun out => by rw [onMessage_qdisc hflags out hty, hdecode]; rfl⟩
  · refine ⟨.io (.new .invalidData "netlink overrun"), fun out => ?_⟩
    rw [onMessage, if_neg (by simpa using hflags), if_neg (by omega), if_neg (by omega), if_pos hty]
    rfl

/-- The first message of a datagram. -/
theorem parse_bytes (m : Reply) (dump : Bool) (out : List Qdisc) (rest : List UInt8) :
    parse dump out (m.bytes ++ rest) = (do
      match ← onMessage dump out m.ty m.flags m.payload with
      | .done out => return .done out
      | .more out => parse dump out rest) := by
  have hsized := m.sized
  have htyped := m.typed
  have hflagged := m.flagged
  have hle := le_align4 (16 + m.payload.length)
  have hlen : (m.bytes ++ rest).length = align4 (16 + m.payload.length) + rest.length := by
    rw [List.length_append, m.length_bytes]
  have hsize : leNat (window (m.bytes ++ rest) 0 4) = 16 + m.payload.length := by
    have hread : window (m.bytes ++ rest) 0 4 = toLe 4 (16 + m.payload.length) := by
      simp only [bytes, List.append_assoc]
      exact window_prefix _ _ (length_toLe ..)
    rw [hread, leNat_toLe (by omega)]
  have hseq : leNat (window (m.bytes ++ rest) 8 4) = SEQ := by
    have hread : window (m.bytes ++ rest) 8 4 = toLe 4 SEQ := by
      simp [bytes, window_append_right, window_prefix]
    rw [hread, leNat_toLe (by decide)]
  have hty : leNat (window (m.bytes ++ rest) 4 2) = m.ty := by
    have hread : window (m.bytes ++ rest) 4 2 = toLe 2 m.ty := by
      simp [bytes, window_append_right, window_prefix]
    rw [hread, leNat_toLe (by omega)]
  have hflags : leNat (window (m.bytes ++ rest) 6 2) = m.flags := by
    have hread : window (m.bytes ++ rest) 6 2 = toLe 2 m.flags := by
      simp [bytes, window_append_right, window_prefix]
    rw [hread, leNat_toLe (by omega)]
  have hpayload : window (m.bytes ++ rest) 16 m.payload.length = m.payload := by
    simp [bytes, window_append_right, window_prefix]
  rw [parse_eq dump out (by omega), hsize, hseq, hty, hflags, if_neg (by omega), if_neg (by simp),
    Nat.add_sub_cancel_left, hpayload, ← m.length_bytes, List.drop_left' rfl]

end Reply

/-! ## Datagrams -/

/-- The bytes of messages one after the other. -/
def packed (ms : List Reply) : List UInt8 := ms.flatMap Reply.bytes

theorem packed_cons (m : Reply) (ms : List Reply) : packed (m :: ms) = m.bytes ++ packed ms := List.flatMap_cons ..

/-- The message ends the dump, one way or the other. -/
def Reply.Decides (m : Reply) : Prop := m.Fatal ∨ m.Ends

/-- Messages that decide nothing add their qdiscs. -/
theorem parse_more {ms : List Reply} (h : ∀ m ∈ ms, ¬ m.Decides) (out : List Qdisc) (rest : List UInt8) :
    parse true out (packed ms ++ rest) = parse true (out ++ ms.filterMap Reply.qdisc) rest := by
  induction ms generalizing out with
  | nil => simp [packed]
  | cons m ms ih =>
    obtain ⟨hfatal, hends⟩ := not_or.mp (h m (List.mem_cons_self ..))
    have hrest : ∀ m' ∈ ms, ¬ m'.Decides := fun m' hm' => h m' (List.mem_cons_of_mem m hm')
    rw [packed_cons, List.append_assoc, Reply.parse_bytes, Reply.onMessage_more hfatal hends, ok_bind]
    simp only
    rw [ih hrest, List.append_assoc]
    congr 2
    cases hq : m.qdisc with
    | none => rw [List.filterMap_cons_none hq, Option.toList_none, List.nil_append]
    | some q => rw [List.filterMap_cons_some hq, Option.toList_some, List.singleton_append]

theorem parse_packed {ms : List Reply} (h : ∀ m ∈ ms, ¬ m.Decides) (out : List Qdisc) :
    parse true out (packed ms) = .ok (.more (out ++ ms.filterMap Reply.qdisc)) := by
  have hall := parse_more h out []
  rw [List.append_nil] at hall
  rw [hall, parse]
  exact if_pos rfl

/-! ## Rounds -/

/-- A round in which nothing is received, and time is left. -/
def Round.Waits (t : Round) : Prop :=
  t.left ≠ 0 ∧ (t.polled = .idle ∨ t.polled = .failed eintr ∨ t.polled = .ready (.failed eintr))

/-- The rounds receive the datagrams in order from the kernel in time, waiting any number of times; whatever comes
after them. -/
inductive Delivers : List (List Reply) → List Round → Prop
  | all (ts : List Round) : Delivers [] ts
  | wait {grams : List (List Reply)} {t : Round} {ts : List Round} (ht : t.Waits) (h : Delivers grams ts) :
    Delivers grams (t :: ts)
  | gram {g : List Reply} {grams : List (List Reply)} {left : Nat} {ts : List Round} (hleft : left ≠ 0)
    (h : Delivers grams ts) : Delivers (g :: grams) (⟨left, .ready (.datagram (packed g) afNetlink 0)⟩ :: ts)

/-- A datagram is not empty and fits the buffer, and all of them fit what is read. -/
structure Fits (grams : List (List Reply)) : Prop where
  gram : ∀ g ∈ grams, g ≠ [] ∧ (packed g).length ≤ 65536
  total : (grams.map fun g => (packed g).length).sum ≤ 2 * 1024 * 1024

variable {dump : Bool} {out : List Qdisc} {total : Nat} {ts : List Round}

theorem receive_wait {t : Round} (h : t.Waits) : receive dump out total (t :: ts) = receive dump out total ts := by
  obtain ⟨hleft, hpolled⟩ := h
  obtain ⟨left, polled⟩ := t
  rw [receive, if_neg hleft]
  rcases hpolled with rfl | rfl | rfl
  · rfl
  · exact if_pos rfl
  · exact if_pos rfl

theorem receive_gram {g : List Reply} {left : Nat} (hleft : left ≠ 0) (hne : g ≠ [])
    (hsize : (packed g).length ≤ 65536) (htotal : total + (packed g).length ≤ 2 * 1024 * 1024) :
    receive dump out total (⟨left, .ready (.datagram (packed g) afNetlink 0)⟩ :: ts) =
      match parse dump out (packed g) with
      | .error e => some (.error e)
      | .ok (.done out) => some (.ok out)
      | .ok (.more out) => receive dump out (total + (packed g).length) ts := by
  have hpos : (packed g).length ≠ 0 := by
    cases g with
    | nil => exact absurd rfl hne
    | cons m ms =>
      have hle := le_align4 (16 + m.payload.length)
      rw [packed_cons, List.length_append, m.length_bytes]
      omega
  have hgood : ¬ ((packed g).length = 0 ∨ (packed g).length > 65536 ∨ 0 ≠ 0 ∨ afNetlink ≠ afNetlink) := by
    simpa [hpos] using hsize
  rw [receive, if_neg hleft]
  exact (if_neg hgood).trans (if_neg (Nat.not_lt.mpr htotal))

/-- What a datagram with the deciding message `m` in it comes to, whatever comes after that message. -/
theorem parse_decided {before : List Reply} (hbefore : ∀ x ∈ before, ¬ x.Decides) (m : Reply) (after : List Reply)
    (out : List Qdisc) :
    (∀ e, (∀ out, onMessage true out m.ty m.flags m.payload = .error (.err e)) →
      parse true out (packed (before ++ m :: after)) = .error (.err e)) ∧
    (m.Ends → parse true out (packed (before ++ m :: after)) = .ok (.done (out ++ before.filterMap Reply.qdisc))) := by
  have hsplit : packed (before ++ m :: after) = packed before ++ (m.bytes ++ packed after) := by simp [packed]
  rw [hsplit, parse_more hbefore, Reply.parse_bytes]
  refine ⟨?_, ?_⟩
  · intro e he
    rw [he]
    rfl
  · intro hends
    rw [Reply.onMessage_done hends]
    rfl

/-- The first deciding message of all is in the first datagram that has one. -/
theorem decided_cons {g before after : List Reply} {grams : List (List Reply)} {m : Reply}
    (h : (g :: grams).flatten = before ++ m :: after) (hbefore : ∀ x ∈ before, ¬ x.Decides) :
    (∃ rest, g = before ++ m :: rest) ∨
      ∃ before', before = g ++ before' ∧ grams.flatten = before' ++ m :: after ∧ ∀ x ∈ g, ¬ x.Decides := by
  rw [List.flatten_cons] at h
  rcases List.append_eq_append_iff.mp h with ⟨before', hb, hrest⟩ | ⟨c, hg, hc⟩
  · exact .inr ⟨before', hb, hrest, fun x hx => hbefore x (hb ▸ List.mem_append_left _ hx)⟩
  · cases c with
    | nil =>
      rw [List.nil_append] at hc
      rw [List.append_nil] at hg
      exact .inr ⟨[], by rw [hg, List.append_nil], hc.symm, fun x hx => hbefore x (hg ▸ hx)⟩
    | cons x c =>
      obtain ⟨rfl, -⟩ := List.cons_eq_cons.mp hc
      exact .inl ⟨c, hg⟩

/-- The loop ends at the first deciding message. -/
theorem receive_decided {grams : List (List Reply)} (hdelivers : Delivers grams ts) {before after : List Reply}
    {m : Reply} (hflat : grams.flatten = before ++ m :: after) (hbefore : ∀ x ∈ before, ¬ x.Decides)
    (hgram : ∀ g ∈ grams, g ≠ [] ∧ (packed g).length ≤ 65536)
    (htotal : total + (grams.map fun g => (packed g).length).sum ≤ 2 * 1024 * 1024) (out : List Qdisc) :
    (∀ e, (∀ out, onMessage true out m.ty m.flags m.payload = .error (.err e)) →
      receive true out total ts = some (.error (.err e))) ∧
    (m.Ends → receive true out total ts = some (.ok (out ++ before.filterMap Reply.qdisc))) := by
  induction hdelivers generalizing before out total with
  | all => simp at hflat
  | wait ht _ ih =>
    rw [receive_wait ht]
    exact ih hflat hbefore hgram htotal out
  | @gram g grams left ts hleft _ ih =>
    obtain ⟨hne, hsize⟩ := hgram g (List.mem_cons_self ..)
    rw [List.map_cons, List.sum_cons] at htotal
    rw [receive_gram hleft hne hsize (by omega)]
    rcases decided_cons hflat hbefore with ⟨rest, rfl⟩ | ⟨before', rfl, hflat', hg⟩
    · obtain ⟨hfatal, hends⟩ := parse_decided hbefore m rest out
      refine ⟨fun e he => by rw [hfatal e he], fun h => by rw [hends h]⟩
    · have hrest : ∀ x ∈ before', ¬ x.Decides := fun x hx => hbefore x (List.mem_append_right _ hx)
      have hgram' : ∀ g ∈ grams, g ≠ [] ∧ (packed g).length ≤ 65536 := fun g hg => hgram g (List.mem_cons_of_mem _ hg)
      rw [parse_packed hg, List.filterMap_append, ← List.append_assoc]
      exact ih hflat' hrest hgram' (by omega) _

/-- **A dump is independent of datagram boundaries.** Let `m` be the first of the messages that decides. Then there is
one answer, an error when `m` is fatal and the qdiscs of all messages before it in order when it ends the dump, that
`request` gives however the messages are split into datagrams that fit, received in time from the kernel. And
whatever is in a datagram, its reader ends and does not read out of range. -/
theorem dump_spec :
    (∀ (before after : List Reply) (m : Reply), m.Decides → (∀ x ∈ before, ¬ x.Decides) →
      ∃ r, (m.Fatal → ∃ e, r = .error (.err e)) ∧ (m.Ends → r = .ok (before.filterMap Reply.qdisc)) ∧
        ∀ (b : List UInt8) (o : Opening) (grams : List (List Reply)) (ts : List Round),
          0 ≤ o.socket → 0 ≤ o.bind → 0 ≤ o.setsockopt → o.sendto = b.length →
          grams.flatten = before ++ m :: after → Fits grams → Delivers grams ts → request b true o ts = some r) ∧
    ∀ (dump : Bool) (out : List Qdisc) (b : List UInt8), parse dump out b ≠ .error .panic := by
  refine ⟨?_, parse_ne_panic⟩
  intro before after m hm hbefore
  have hreceive : ∀ {b : List UInt8} {o : Opening} {ts : List Round}, 0 ≤ o.socket → 0 ≤ o.bind →
      0 ≤ o.setsockopt → o.sendto = b.length → request b true o ts = receive true [] 0 ts := by
    intro b o ts hsocket hbind hsetsockopt hsendto
    refine if_neg ?_
    omega
  rcases hm with hfatal | hends
  · obtain ⟨e, he⟩ := Reply.onMessage_fatal hfatal
    refine ⟨.error (.err e), fun _ => ⟨e, rfl⟩, fun hends => absurd hfatal hends.1, ?_⟩
    intro b o grams ts hsocket hbind hsetsockopt hsendto hflat hfits hdelivers
    rw [hreceive hsocket hbind hsetsockopt hsendto]
    exact (receive_decided hdelivers hflat hbefore hfits.gram (by simpa using hfits.total) []).1 e he
  · refine ⟨.ok (before.filterMap Reply.qdisc), fun hfatal => absurd hfatal hends.1, fun _ => rfl, ?_⟩
    intro b o grams ts hsocket hbind hsetsockopt hsendto hflat hfits hdelivers
    rw [hreceive hsocket hbind hsetsockopt hsendto]
    exact (receive_decided hdelivers hflat hbefore hfits.gram (by simpa using hfits.total) []).2 hends

/-- The module's own qdisc, and the end of the dump. -/
def ownQdisc : Reply where
  ty := 36
  flags := 2
  port := 0
  payload := tcmsg 2 handle root ++ tlvs [(1, cakeNul), (2, tlvs (options 8000 5).entries)]
  pad := []
  typed := by decide
  flagged := by decide
  sized := by decide +kernel
  padded := by decide +kernel

def dumpDone : Reply := ⟨3, 2, 0, [0, 0, 0, 0], [], by decide, by decide, by decide, by decide⟩

/-- The two messages in one datagram, and in two with an interrupted wait between. -/
theorem dump_spec_split :
    request [] true ⟨3, 0, 0, 0⟩ [⟨3000, .ready (.datagram (packed [ownQdisc, dumpDone]) afNetlink 0)⟩] =
      some (.ok [cake 2 (options 8000 5)]) ∧
    request [] true ⟨3, 0, 0, 0⟩ [⟨3000, .ready (.datagram (packed [ownQdisc]) afNetlink 0)⟩, ⟨2999, .failed eintr⟩,
      ⟨2999, .ready (.datagram (packed [dumpDone]) afNetlink 0)⟩] = some (.ok [cake 2 (options 8000 5)]) := by
  have hdecode : decodeQdisc ownQdisc.payload = .ok (some (cake 2 (options 8000 5))) :=
    decodeQdisc_request (.inl rfl) (options_typed 8000 5) (by decide +kernel) (by decide)
  have hends : dumpDone.Ends := by
    refine ⟨?_, rfl⟩
    rintro (h | ⟨-, h⟩ | ⟨h, -⟩ | h) <;> exact absurd h (by decide)
  have hquiet : ∀ x ∈ [ownQdisc], ¬ x.Decides := by
    intro x hx
    obtain rfl := List.mem_singleton.mp hx
    rintro ((h | ⟨h, -⟩ | ⟨-, e, h⟩ | h) | ⟨-, h⟩)
    · exact absurd h (by decide)
    · exact absurd h (by decide)
    · cases hdecode.symm.trans h
    · exact absurd h (by decide)
    · exact absurd h (by decide)
  have hown : ownQdisc.qdisc = some (cake 2 (options 8000 5)) := by
    rw [Reply.qdisc, hdecode]
    rfl
  have hqdisc : [ownQdisc].filterMap Reply.qdisc = [cake 2 (options 8000 5)] := List.filterMap_cons_some hown
  obtain ⟨r, -, hr, hall⟩ := dump_spec.1 [ownQdisc] [] dumpDone (.inr hends) hquiet
  rw [hr hends, hqdisc] at hall
  refine ⟨?_, ?_⟩
  · refine hall [] _ [[ownQdisc, dumpDone]] _ (by decide) (by decide) (by decide) rfl rfl ⟨?_, ?_⟩ ?_
    · decide +kernel
    · decide +kernel
    · exact .gram (by decide) (.all _)
  · refine hall [] _ [[ownQdisc], [dumpDone]] _ (by decide) (by decide) (by decide) rfl rfl ⟨?_, ?_⟩ ?_
    · decide +kernel
    · decide +kernel
    · exact .gram (by decide) (.wait ⟨by decide, .inr (.inl rfl)⟩ (.gram (by decide) (.all _)))

end Nfqttl.Qos
