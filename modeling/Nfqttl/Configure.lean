/-
`nfqueue.rs`: the configuration of a queue, and the socket it shares with the packets.

`ack` reads one datagram for each request. Of a queue that is bound already the kernel
may put packets before an acknowledgement; each one read in its place leaves every later
request with the acknowledgement of an earlier one.
-/
import Mathlib.Logic.Relation
import Nfqttl.Frames
import Nfqttl.Lib.Prog

namespace Nfqttl.Nfqueue

open Bytes Effect Netlink

def nlmFAck : Nat := 4
def nfqnlMsgConfig : Nat := 2
def nfqnlCfgCmdBind : UInt8 := 1
def nfqnlCopyPacket : UInt8 := 2
def nfqaCfgCmd : Nat := 1
def nfqaCfgParams : Nat := 2
def nfqaCfgQueueMaxlen : Nat := 3
def nfqaCfgMask : Nat := 4
def nfqaCfgFlags : Nat := 5
def nfqaCfgFFailOpen : Nat := 1
def nfqaCfgFGso : Nat := 4

namespace Configure

/-! ## What `configure` asks for -/

/-- An error of the program's own or the last one of the system, or one by its number. -/
inductive SockError
  | io (e : IoError)
  | os (code : Int)
  deriving DecidableEq, Repr

inductive SockOp
  | send (v : List UInt8)
  | poll
  | recv
  | eprintln (line : String)

/-- `recv` answers with the bytes received, or with nothing where it fails. -/
@[reducible] def SockSig : Sig where
  Op := SockOp
  Ans := fun
    | .send _ => Int
    | .poll => Int
    | .recv => Option (List UInt8)
    | .eprintln _ => Unit

abbrev SockProg := ExceptT (Stop SockError) (Prog SockSig)

def sendto (v : List UInt8) : SockProg Int := .mk (.op (SockOp.send v) fun n => .ret (.ok n))
def poll : SockProg Int := .mk (.op SockOp.poll fun r => .ret (.ok r))
def recv : SockProg (Option (List UInt8)) := .mk (.op SockOp.recv fun b => .ret (.ok b))
def eprintln (line : String) : SockProg Unit := .mk (.op (SockOp.eprintln line) fun _ => .ret (.ok ()))

/-- A computation without the socket. -/
def pureOf {α : Type} (x : Except (Stop SockError) α) : SockProg α := .mk (.ret x)

/-- `x.is_ok()` -/
def isOk {α : Type} (x : SockProg α) : SockProg Bool :=
  .mk (x.run >>= fun r => .ret (match r with
    | .ok _ => .ok true
    | .error (.err _) => .ok false
    | .error .panic => .error .panic))

/-! ## `ack` -/

def io (kind : ErrorKind) (text : String) : Stop SockError := .err (.io (.new kind text))

def send (v : List UInt8) : SockProg Unit := do
  let n ← sendto v
  if n = v.length then return else throw (.err (.io .last))

/-- An `i32` of four bytes. -/
def leInt (b : List UInt8) : Int := (leNat b : Int).bmod (2 ^ 32)

/-- The loop of `ack` over the bytes received, from `off` on. -/
def scan (seq : Nat) (b : List UInt8) (off : Nat) : Except (Stop SockError) Unit :=
  if off + 16 ≤ b.length then do
    let len := leNat (← slice b off (off + 4))
    if len < 16 ∨ off + len > b.length then throw (io .invalidData "invalid netlink ack")
    else
      let ty := leNat (← slice b (off + 4) (off + 6))
      let s := leNat (← slice b (off + 8) (off + 12))
      if ty = nlmsgError ∧ s = seq ∧ len ≥ 16 + 4 then
        let e := leInt (← slice b (off + 16) (off + 20))
        if e = 0 then return else throw (.err (.os ((-e).bmod (2 ^ 32))))
      else scan seq b (off + align4 len)
  else throw (io .invalidData "invalid netlink ack")
termination_by b.length - off
decreasing_by
  rename_i hlen _ _ _
  have := le_align4 len
  change _ - (off + align4 len) < _
  omega

def ack (v : List UInt8) (seq : Nat) : SockProg Unit := do
  send v
  let r ← poll
  if r ≠ 1 then throw (io .timedOut "netlink ack timeout")
  else
    match ← recv with
    | none => throw (.err (.io .last))
    | some b => pureOf (scan seq b 0)

/-! ## `configure` -/

/-- A message with attributes. -/
def build (ty flags seq : Nat) (queue : UInt16) (attrs : EStateM (Stop IoError) (List UInt8) Unit) :
    Except (Stop SockError) (List UInt8) :=
  match attrs (beginInto ty flags seq queue) with
  | .ok _ v => .ok v
  | .error (.err e) _ => .error (.err (.io e))
  | .error .panic _ => .error .panic

def configureParams (queue : UInt16) (seq : Nat) (queueMaxlen : UInt32) (flags : Nat) : SockProg Unit := do
  let v ← pureOf <| build nfqnlMsgConfig nlmFAck seq queue do
    attr nfqaCfgParams (toBe 4 65531 ++ [nfqnlCopyPacket])
    attr nfqaCfgQueueMaxlen (toBe 4 queueMaxlen.toNat)
    if flags ≠ 0 then
      attr nfqaCfgFlags (toBe 4 flags)
      attr nfqaCfgMask (toBe 4 flags)
  ack v seq

def best (gso : Bool) : Nat := nfqaCfgFFailOpen ||| if gso then nfqaCfgFGso else 0

def configure (queue : UInt16) (queueMaxlen : UInt32) (gso : Bool) : SockProg Nat := do
  let v ← pureOf <| build nfqnlMsgConfig nlmFAck 1 queue do
    attr nfqaCfgCmd [nfqnlCfgCmdBind, 0, 0, afInet]
  ack v 1
  if ← isOk (configureParams queue 2 queueMaxlen (best gso)) then return best gso
  else
    eprintln s!"WARNING queue={queue}: GSO+FAIL_OPEN config rejected; retrying FAIL_OPEN only"
    if ← isOk (configureParams queue 3 queueMaxlen nfqaCfgFFailOpen) then return nfqaCfgFFailOpen
    else
      eprintln s!"WARNING queue={queue}: FAIL_OPEN flag rejected; using basic NFQUEUE mode"
      configureParams queue 4 queueMaxlen 0
      return 0

/-! ## The kernel and the socket -/

/-- A request that binds the queue. -/
def isBind (v : List UInt8) : Bool :=
  frameType v == nfnlSubsysQueue <<< 8 ||| nfqnlMsgConfig &&
    ((attributes v 20).getD []).any fun a => a.ty == nfqaCfgCmd && a.data.head? == some nfqnlCfgCmdBind

/-- The acknowledgement of request `v`: its sequence number, and error 0. -/
structure Acks (v d : List UInt8) : Prop where
  frame : IsFrame d
  type : isError d = true
  seq : window d 8 4 = window v 8 4
  code : 20 ≤ d.length ∧ leNat (window d 16 4) = 0
  fits : d.length ≤ 8192

/-- A datagram with a packet of the queue. -/
structure Queued (d : List UInt8) : Prop where
  frame : IsFrame d
  type : isPacket d = true

/-- A datagram the kernel puts into the socket. -/
inductive Arrival
  | ack (d : List UInt8)
  | packet (d : List UInt8)
  deriving DecidableEq

namespace Arrival

def gram : Arrival → List UInt8
  | .ack d => d
  | .packet d => d

def isAck : Arrival → Bool
  | .ack _ => true
  | .packet _ => false

end Arrival

/-- The requests sent, all datagrams that were put into the socket, in order, and how many
of them have been read. -/
structure Socket where
  sent : List (List UInt8)
  arrived : List Arrival
  read : Nat

namespace Socket

def fresh : Socket := ⟨[], [], 0⟩

def request (s : Socket) (v : List UInt8) : Socket := { s with sent := s.sent ++ [v] }
def arrive (s : Socket) (x : Arrival) : Socket := { s with arrived := s.arrived ++ [x] }
def next (s : Socket) : Socket := { s with read := s.read + 1 }

/-- How many requests have been acknowledged. -/
def acked (s : Socket) : Nat := s.arrived.countP Arrival.isAck

end Socket

/-- The kernel acknowledges the requests in order; packets come at any time once a request
has bound the queue. -/
inductive Arrives : Socket → Socket → Prop
  | ack {s : Socket} {v d : List UInt8} (hv : s.sent[s.acked]? = some v) (hd : Acks v d) :
    Arrives s (s.arrive (.ack d))
  | packet {s : Socket} {d : List UInt8} (hbound : s.sent.any isBind = true) (hd : Queued d) :
    Arrives s (s.arrive (.packet d))

/-- Datagrams may arrive before any operation. A `poll` that ends without one has waited
for all acknowledgements. -/
def kernel : Sem SockSig Socket := fun op =>
  match op with
  | .send v => fun s n s' => ∃ s₁, Relation.ReflTransGen Arrives s s₁ ∧ n = v.length ∧ s' = s₁.request v
  | .poll => fun s r s' => Relation.ReflTransGen Arrives s s' ∧
    (s'.read < s'.arrived.length ∧ r = 1 ∨
      s'.arrived.length ≤ s'.read ∧ s'.acked = s'.sent.length ∧ r = 0)
  | .recv => fun s b s' => ∃ s₁ x, Relation.ReflTransGen Arrives s s₁ ∧ s₁.arrived[s₁.read]? = some x ∧
    b = some (x.gram.take 8192) ∧ s' = s₁.next
  | .eprintln _ => fun s _ s' => s' = s

/-! ## What `ack` makes of a datagram -/

theorem scan_end {seq off : Nat} {b : List UInt8} (h : b.length < off + 16) :
    scan seq b off = .error (io .invalidData "invalid netlink ack") := by
  rw [scan, if_neg (by omega)]
  rfl

/-- A datagram of one frame is the acknowledgement of `seq`, or there is none to be read.
What did not fit the buffer is not read as a frame. -/
theorem scan_frame {seq : Nat} {d : List UInt8} (hd : IsFrame d) (hcode : isError d = true →
    20 ≤ d.length ∧ d.length ≤ 8192 ∧ leNat (window d 16 4) = 0) :
    scan seq (d.take 8192) 0 =
      if isError d = true ∧ leNat (window d 8 4) = seq then .ok ()
      else .error (io .invalidData "invalid netlink ack") := by
  obtain ⟨h16, hlen⟩ := hd
  have htake : (d.take 8192).length = min 8192 d.length := List.length_take ..
  have hstart : slice (ε := SockError) (d.take 8192) 0 (0 + 4) = .ok (window d 0 4) := by
    rw [slice_window (by omega), window_take d (by omega)]
  rw [scan, if_pos (by omega), hstart, ok_bind, hlen]
  by_cases hfit : d.length ≤ 8192
  case neg =>
    have herr : ¬(isError d = true ∧ leNat (window d 8 4) = seq) := fun h => hfit (hcode h.1).2.1
    rw [if_neg herr]
    exact if_pos (by omega)
  have hself : d.take 8192 = d := List.take_of_length_le hfit
  have htype : slice (ε := SockError) d (0 + 4) (0 + 6) = .ok (window d 4 2) := slice_window (n := 2) (by omega)
  have hseq : slice (ε := SockError) d (0 + 8) (0 + 12) = .ok (window d 8 4) := slice_window (n := 4) (by omega)
  simp only [hself, htype, hseq, ok_bind]
  rw [if_neg (by omega)]
  by_cases h : isError d = true ∧ leNat (window d 8 4) = seq
  · obtain ⟨hmin, -, hzero⟩ := hcode h.1
    have hty : leNat (window d 4 2) = nlmsgError := by simpa [isError, frameType] using h.1
    have he : slice (ε := SockError) d (0 + 16) (0 + 20) = .ok (window d 16 4) := slice_window (n := 4) (by omega)
    have hint : leInt (window d 16 4) = 0 := by
      unfold leInt
      rw [hzero]
      simp
    rw [if_pos ⟨hty, h.2, hmin⟩, he, ok_bind, hint, if_pos rfl, if_pos h]
    rfl
  · have hno : ¬(leNat (window d 4 2) = nlmsgError ∧ leNat (window d 8 4) = seq ∧ d.length ≥ 16 + 4) := by
      intro hall
      exact h ⟨by simpa [isError, frameType] using hall.1, hall.2.1⟩
    have hle := le_align4 d.length
    rw [if_neg hno, scan_end (by omega), if_neg h]

/-- A packet is no acknowledgement. -/
theorem scan_queued {d : List UInt8} (h : Queued d) (seq : Nat) :
    scan seq (d.take 8192) 0 = .error (io .invalidData "invalid netlink ack") := by
  have herr : ¬isError d = true := Bool.eq_false_iff.mp (isPacket_not_error h.type)
  rw [scan_frame h.frame fun he => absurd he herr, if_neg fun hboth => herr hboth.1]

/-! ## The requests -/

/-- The message has its sequence number and is aligned. -/
structure Started (seq : Nat) (v : List UInt8) : Prop where
  aligned : align4 v.length = v.length
  header : 12 ≤ v.length
  seq : window v 8 4 = toLe 4 seq

theorem started_beginInto (ty flags seq : Nat) (queue : UInt16) : Started seq (beginInto ty flags seq queue) := by
  refine ⟨by rw [length_beginInto]; rfl, by simp, ?_⟩
  rw [beginInto]
  simp only [List.append_assoc]
  rw [window_append_right _ _ (by simp), window_append_right _ _ (by simp), window_append_right _ _ (by simp),
    length_toLe, length_toLe, length_toLe, window_prefix _ _ (length_toLe ..)]

/-- Of the header only the length is written anew. -/
theorem window_withLen {v : List UInt8} (t : List UInt8) {i n : Nat} (hi : 4 ≤ i) (hn : i + n ≤ v.length) :
    window (withLen (v ++ t)) i n = window v i n := by
  rw [withLen, window_append_right _ _ (by simpa using hi), length_toLe, window, List.drop_drop,
    Nat.add_sub_cancel' hi, ← window_append_left t hn]
  rfl

/-- An attribute changes nothing else of the header. -/
theorem attr_started {seq : Nat} {v : List UInt8} (h : Started seq v) (ty : Nat) {data : List UInt8}
    (hdata : 4 + data.length < 65536) : ∃ v', attr ty data v = .ok () v' ∧ Started seq v' := by
  have h12 := h.header
  have hlen : (v ++ tlv ty data).length = v.length + align4 (4 + data.length) := by
    rw [List.length_append, length_tlv]
  refine ⟨_, attr_run h.aligned (by omega) hdata, ?_, ?_, ?_⟩
  · have hal := h.aligned
    rw [length_withLen (by omega), hlen]
    unfold align4 at *
    omega
  · rw [length_withLen (by omega), hlen]
    omega
  · rw [window_withLen _ (by decide) h12, h.seq]

/-- The first request, which binds the queue. -/
theorem build_bind (queue : UInt16) : ∃ v, build nfqnlMsgConfig nlmFAck 1 queue
    (attr nfqaCfgCmd [nfqnlCfgCmdBind, 0, 0, afInet]) = .ok v ∧ window v 8 4 = toLe 4 1 ∧ isBind v = true := by
  let h := beginInto nfqnlMsgConfig nlmFAck 1 queue
  let cmd := [nfqnlCfgCmdBind, 0, 0, afInet]
  have hlen : h.length = 20 := length_beginInto ..
  have hrun : attr nfqaCfgCmd cmd h = .ok () (withLen (h ++ tlv nfqaCfgCmd cmd)) :=
    attr_run (by rw [hlen]; rfl) (by omega) (by decide)
  refine ⟨_, by rw [build, hrun], ?_, ?_⟩
  · rw [window_withLen _ (by decide) (by omega)]
    exact (started_beginInto nfqnlMsgConfig nlmFAck 1 queue).seq
  have htype : frameType (withLen (h ++ tlv nfqaCfgCmd cmd)) = nfnlSubsysQueue <<< 8 ||| nfqnlMsgConfig := by
    have hwin : window h 4 2 = toLe 2 (nfnlSubsysQueue <<< 8 ||| nfqnlMsgConfig) := by
      simp only [h, beginInto, List.append_assoc]
      rw [window_append_right _ _ (by simp), length_toLe, window_prefix _ _ (length_toLe ..)]
    rw [frameType, window_withLen _ (le_refl 4) (by omega), hwin, leNat_toLe (by decide)]
  have hcmd : cmd.length = 4 := rfl
  have hsize : (tlv nfqaCfgCmd cmd).length = 8 := by
    rw [length_tlv, hcmd]
    rfl
  let a := toLe 4 28 ++ h.drop 4
  have ha : a.length = 20 := by simp [a, hlen]
  have hsplit : withLen (h ++ tlv nfqaCfgCmd cmd) = a ++ (tlv nfqaCfgCmd cmd ++ []) := by
    rw [withLen, List.length_append, hlen, hsize, List.drop_append_of_le_length (by omega), List.append_nil,
      ← List.append_assoc]
  have hattrs : attributes (withLen (h ++ tlv nfqaCfgCmd cmd)) 20 = some [⟨24, nfqaCfgCmd, cmd⟩] := by
    have hend := attributes_end (a ++ (tlv nfqaCfgCmd cmd ++ []))
    have hread := attributes_tlv nfqaCfgCmd cmd (by decide) (by decide) a []
    rw [List.append_nil, List.length_append, ha, hsize] at hend
    rw [List.append_nil, ha, hcmd, show align4 (4 + 4) = 8 from rfl, hend] at hread
    rw [hsplit, List.append_nil, hread]
    rfl
  rw [isBind, htype, hattrs]
  rfl

theorem build_params (queue : UInt16) (seq : Nat) (queueMaxlen : UInt32) (flags : Nat) :
    ∃ v, build nfqnlMsgConfig nlmFAck seq queue (do
      attr nfqaCfgParams (toBe 4 65531 ++ [nfqnlCopyPacket])
      attr nfqaCfgQueueMaxlen (toBe 4 queueMaxlen.toNat)
      if flags ≠ 0 then
        attr nfqaCfgFlags (toBe 4 flags)
        attr nfqaCfgMask (toBe 4 flags)) = .ok v ∧ window v 8 4 = toLe 4 seq := by
  have hfour : ∀ n, 4 + (toBe 4 n).length < 65536 := fun n => by simp
  have hparams : 4 + (toBe 4 65531 ++ [nfqnlCopyPacket]).length < 65536 := by simp
  obtain ⟨v₁, h₁, hs₁⟩ := attr_started (started_beginInto nfqnlMsgConfig nlmFAck seq queue) nfqaCfgParams hparams
  obtain ⟨v₂, h₂, hs₂⟩ := attr_started hs₁ nfqaCfgQueueMaxlen (hfour queueMaxlen.toNat)
  by_cases hflags : flags ≠ 0
  · obtain ⟨v₃, h₃, hs₃⟩ := attr_started hs₂ nfqaCfgFlags (hfour flags)
    obtain ⟨v₄, h₄, hs₄⟩ := attr_started hs₃ nfqaCfgMask (hfour flags)
    refine ⟨v₄, ?_, hs₄.seq⟩
    rw [build, bind_ok _ h₁, bind_ok _ h₂, if_pos hflags, bind_ok _ h₃, h₄]
  · refine ⟨v₂, ?_, hs₂.seq⟩
    rw [build, bind_ok _ h₁, bind_ok _ h₂, if_neg hflags]
    rfl

/-! ## What has arrived -/

namespace Socket

/-- The kernel may send `x` after `j` acknowledgements. -/
def Fits (s : Socket) (j : Nat) : Arrival → Prop
  | .ack d => ∃ v, s.sent[j]? = some v ∧ Acks v d
  | .packet d => Queued d

/-- Every datagram is a packet or the acknowledgement whose turn it was. -/
def InOrder (s : Socket) : Prop :=
  ∀ p x, s.arrived[p]? = some x → s.Fits ((s.arrived.take p).countP Arrival.isAck) x

theorem Fits.request {s : Socket} {j : Nat} {x : Arrival} (h : s.Fits j x) (v : List UInt8) :
    (s.request v).Fits j x := by
  cases x with
  | ack d =>
    obtain ⟨w, hw, hd⟩ := h
    have hj : j < s.sent.length := (List.getElem?_eq_some_iff.mp hw).1
    exact ⟨w, by rw [Socket.request, List.getElem?_append_left hj, hw], hd⟩
  | packet d => exact h

theorem InOrder.arrive {s : Socket} (h : s.InOrder) {x : Arrival} (hx : s.Fits s.acked x) : (s.arrive x).InOrder := by
  intro p y hy
  have hp : p < s.arrived.length + 1 := by
    simpa [Socket.arrive] using (List.getElem?_eq_some_iff.mp hy).1
  rcases Nat.lt_succ_iff_lt_or_eq.mp hp with hp | rfl
  · simp only [Socket.arrive, List.getElem?_append_left hp, List.take_append_of_le_length hp.le] at hy ⊢
    exact h p y hy
  · obtain rfl : x = y := by simpa [Socket.arrive] using hy
    have hcount : ((s.arrive x).arrived.take s.arrived.length).countP Arrival.isAck = s.acked := by
      simp [Socket.arrive, Socket.acked]
    rw [hcount]
    exact hx

/-- Arrivals come behind what has arrived before. -/
structure Later (s s' : Socket) : Prop where
  sent : s'.sent = s.sent
  read : s'.read = s.read
  arrived : s.arrived <+: s'.arrived

theorem later_of_arrivals {s s' : Socket} (h : Relation.ReflTransGen Arrives s s') (hs : s.InOrder) :
    s.Later s' ∧ s'.InOrder := by
  induction h with
  | refl => exact ⟨⟨rfl, rfl, List.prefix_refl _⟩, hs⟩
  | tail _ hstep ih =>
    obtain ⟨hlater, hord⟩ := ih
    cases hstep with
    | ack hv hd =>
      exact ⟨⟨hlater.sent, hlater.read, hlater.arrived.trans (List.prefix_append ..)⟩, hord.arrive ⟨_, hv, hd⟩⟩
    | packet _ hd =>
      exact ⟨⟨hlater.sent, hlater.read, hlater.arrived.trans (List.prefix_append ..)⟩, hord.arrive hd⟩

/-- `k` requests were sent, and as many datagrams read. -/
structure Ready (k : Nat) (s : Socket) : Prop where
  sent : s.sent.length = k
  read : s.read = k
  seqs : ∀ i v, s.sent[i]? = some v → window v 8 4 = toLe 4 (i + 1)
  order : s.InOrder

/-- One more request was sent than datagrams read. -/
structure Asked (k : Nat) (s : Socket) : Prop where
  sent : s.sent.length = k + 1
  read : s.read = k
  seqs : ∀ i v, s.sent[i]? = some v → window v 8 4 = toLe 4 (i + 1)
  order : s.InOrder

theorem Ready.request {k : Nat} {s : Socket} (h : s.Ready k) {v : List UInt8} (hv : window v 8 4 = toLe 4 (k + 1)) :
    (s.request v).Asked k := by
  refine ⟨by simp [Socket.request, h.sent], h.read, ?_, fun p x hp => (h.order p x hp).request v⟩
  intro i w hw
  rw [Socket.request] at hw
  rcases Nat.lt_or_ge i s.sent.length with hi | hi
  · rw [List.getElem?_append_left hi] at hw
    exact h.seqs i w hw
  · obtain ⟨rfl, rfl⟩ : i = k ∧ v = w := by
      rw [List.getElem?_append_right hi, List.getElem?_singleton] at hw
      have := h.sent
      split at hw
      · exact ⟨by omega, Option.some.inj hw⟩
      · cases hw
    exact hv

theorem Ready.later {k : Nat} {s s' : Socket} (h : s.Ready k) (hl : s.Later s') (ho : s'.InOrder) : s'.Ready k :=
  ⟨by rw [hl.sent, h.sent], by rw [hl.read, h.read], fun i v hv => h.seqs i v (hl.sent ▸ hv), ho⟩

theorem Asked.later {k : Nat} {s s' : Socket} (h : s.Asked k) (hl : s.Later s') (ho : s'.InOrder) : s'.Asked k :=
  ⟨by rw [hl.sent, h.sent], by rw [hl.read, h.read], fun i v hv => h.seqs i v (hl.sent ▸ hv), ho⟩

theorem Asked.next {k : Nat} {s : Socket} (h : s.Asked k) : s.next.Ready (k + 1) :=
  ⟨h.sent, congrArg (· + 1) h.read, h.seqs, h.order⟩

/-- A request is acknowledged within the timeout, so one more datagram is there. -/
theorem Asked.unread {k : Nat} {s : Socket} (h : s.Asked k) (hall : s.acked = s.sent.length) :
    s.read < s.arrived.length := by
  have hle : s.acked ≤ s.arrived.length := List.countP_le_length
  have := h.sent
  have := h.read
  omega

/-- The first `n` datagrams are acknowledgements. -/
def Acked (n : Nat) (s : Socket) : Prop := ∀ x ∈ s.arrived.take n, x.isAck = true

theorem Acked.mono {m n : Nat} {s : Socket} (h : s.Acked n) (hmn : m ≤ n) : s.Acked m := fun x hx =>
  h x (List.take_subset_take_left _ hmn hx)

/-- What has arrived before the first `n` datagrams are there does not change them. -/
theorem acked_iff_of_prefix {n : Nat} {s s' : Socket} (hn : n ≤ s.arrived.length) (h : s.arrived <+: s'.arrived) :
    s'.Acked n ↔ s.Acked n := by
  obtain ⟨more, hmore⟩ := h
  rw [Acked, ← hmore, List.take_append_of_le_length hn]
  exact Iff.rfl

/-- One more datagram is an acknowledgement, and it is the one that number says. -/
theorem acked_succ_iff {k : Nat} {s : Socket} {x : Arrival} (hx : s.arrived[k]? = some x) :
    s.Acked (k + 1) ↔ x.isAck = true ∧ (s.arrived.take k).countP Arrival.isAck = k := by
  have hk : k < s.arrived.length := (List.getElem?_eq_some_iff.mp hx).1
  have hlen : (s.arrived.take k).length = k := by
    rw [List.length_take]
    omega
  have hcount : (s.arrived.take k).countP Arrival.isAck = k ↔ s.Acked k := by
    rw [Acked, ← List.countP_eq_length, hlen]
  rw [hcount, Acked, List.take_add_one, hx, List.forall_mem_append, and_comm]
  simp [Acked]

end Socket

/-! ## One request -/

section rules
variable {I : Socket → Prop} {F : Stop SockError → Socket → Prop} {s : Socket}

theorem keeps_pureOf {α : Type} {Q : α → Socket → Prop} {x : Except (Stop SockError) α} {a : α} (h : x = .ok a)
    (hI : I s) (hQ : Q a s) : KeepsE kernel I Q F (pureOf x) s := by
  subst h
  exact ⟨hI, hQ⟩

theorem keeps_pureOf_err {α : Type} {Q : α → Socket → Prop} {x : Except (Stop SockError) α} {e : Stop SockError}
    (h : x = .error e) (hI : I s) (hF : F e s) : KeepsE kernel I Q F (pureOf x) s := by
  subst h
  exact ⟨hI, hF⟩

theorem keeps_eprintln {Q : Unit → Socket → Prop} {line : String} (hI : I s) (hQ : Q () s) :
    KeepsE kernel I Q F (eprintln line) s := by
  refine ⟨hI, ?_⟩
  intro a s' hs
  obtain rfl : s' = s := hs
  exact ⟨hI, hQ⟩

/-- Only a panic is passed on. -/
theorem keeps_isOk {α : Type} {Q : Bool → Socket → Prop} {x : SockProg α}
    (h : KeepsE kernel I (fun _ s' => Q true s') (fun e s' => e ≠ .panic ∧ Q false s') x s) :
    KeepsE kernel I Q F (isOk x) s := by
  refine keeps_bind.mpr (Keeps.post h ?_)
  intro r s' hI hr
  cases r with
  | ok a => exact ⟨hI, hr⟩
  | error e =>
    cases e with
    | err e => exact ⟨hI, hr.2⟩
    | panic => exact absurd rfl hr.1

theorem keeps_send {Q : Unit → Socket → Prop} {v : List UInt8} (hI : ∀ s, I s)
    (hQ : ∀ s₁, Relation.ReflTransGen Arrives s s₁ → Q () (s₁.request v)) : KeepsE kernel I Q F (send v) s := by
  refine keepsE_bind.mpr ⟨hI s, ?_⟩
  intro n s' h
  obtain ⟨s₁, harr, rfl, rfl⟩ := h
  refine ⟨hI _, ?_⟩
  dsimp only
  rw [if_pos rfl]
  exact ⟨hI _, hQ s₁ harr⟩

theorem keeps_poll {Q : Int → Socket → Prop} (hI : ∀ s, I s)
    (hQ : ∀ s', Relation.ReflTransGen Arrives s s' → s'.read < s'.arrived.length → Q 1 s')
    (hnone : ∀ s', Relation.ReflTransGen Arrives s s' → s'.acked = s'.sent.length → s'.read < s'.arrived.length) :
    KeepsE kernel I Q F poll s := by
  refine ⟨hI s, ?_⟩
  intro r s' h
  rcases h with ⟨harr, ⟨hlt, rfl⟩ | ⟨hle, hall, rfl⟩⟩
  · exact ⟨hI s', hQ s' harr hlt⟩
  · exact absurd (hnone s' harr hall) (Nat.not_lt.mpr hle)

theorem keeps_recv {Q : Option (List UInt8) → Socket → Prop} (hI : ∀ s, I s)
    (hQ : ∀ s₁ x, Relation.ReflTransGen Arrives s s₁ → s₁.arrived[s₁.read]? = some x →
      Q (some (x.gram.take 8192)) s₁.next) : KeepsE kernel I Q F recv s := by
  refine ⟨hI s, ?_⟩
  intro b s' h
  obtain ⟨s₁, x, harr, hx, rfl, rfl⟩ := h
  exact ⟨hI _, hQ s₁ x harr hx⟩

end rules

-- From here on the rules alone are used; unfolded, a program would be run at each of them.
attribute [local irreducible] KeepsE

/-- The socket after one more request, of which the datagram was read. -/
structure Went (k : Nat) (s s' : Socket) : Prop where
  ready : s'.Ready (k + 1)
  arrived : s.arrived <+: s'.arrived
  read : k < s'.arrived.length

/-- The datagram read is the acknowledgement of the last request just if all so far were
acknowledgements. -/
theorem scan_asked {k : Nat} {s : Socket} (h : s.Asked k) (hk : k + 1 < 2 ^ 32) {x : Arrival}
    (hx : s.arrived[k]? = some x) : scan (k + 1) (x.gram.take 8192) 0 = .ok () ∧ s.Acked (k + 1) ∨
      (∃ e, scan (k + 1) (x.gram.take 8192) 0 = .error (.err e)) ∧ ¬s.Acked (k + 1) := by
  have hfits := h.order k x hx
  rw [Socket.acked_succ_iff hx]
  cases x with
  | packet d =>
    exact .inr ⟨⟨_, scan_queued hfits _⟩, fun hall => absurd hall.1 Bool.false_ne_true⟩
  | ack d =>
    obtain ⟨v, hv, hd⟩ := hfits
    have hj : (s.arrived.take k).countP Arrival.isAck < k + 1 := by
      have := (List.getElem?_eq_some_iff.mp hv).1
      rwa [h.sent] at this
    have hseq : leNat (window d 8 4) = (s.arrived.take k).countP Arrival.isAck + 1 := by
      rw [hd.seq, h.seqs _ v hv, leNat_toLe (by omega)]
    rw [Arrival.gram, scan_frame hd.frame fun _ => ⟨hd.code.1, hd.fits, hd.code.2⟩, hseq]
    by_cases hlast : (s.arrived.take k).countP Arrival.isAck = k
    · left
      rw [if_pos ⟨hd.type, by rw [hlast]⟩]
      exact ⟨rfl, rfl, hlast⟩
    · right
      rw [if_neg fun hall => hlast (Nat.succ.inj hall.2)]
      exact ⟨⟨_, rfl⟩, fun hall => hlast hall.2⟩

/-- One request: it is acknowledged just if nothing but acknowledgements has arrived before the
datagram that was read. -/
theorem keeps_ack {k : Nat} {s : Socket} {v : List UInt8} (hs : s.Ready k) (hk : k + 1 < 2 ^ 32)
    (hv : window v 8 4 = toLe 4 (k + 1)) :
    KeepsE kernel (fun _ => True) (fun _ s' => Went k s s' ∧ s'.Acked (k + 1))
      (fun e s' => e ≠ .panic ∧ Went k s s' ∧ ¬s'.Acked (k + 1)) (ack v (k + 1)) s := by
  have hany : ∀ s : Socket, True := fun _ => trivial
  refine keepsE_bind.mpr (keeps_send hany ?_)
  intro s₀ harr₀
  obtain ⟨hl₀, ho₀⟩ := Socket.later_of_arrivals harr₀ hs.order
  have h₀ := (hs.later hl₀ ho₀).request hv
  refine keepsE_bind.mpr (keeps_poll hany ?_ ?_)
  case refine_2 =>
    intro s₁ harr₁ hall
    obtain ⟨hl₁, ho₁⟩ := Socket.later_of_arrivals harr₁ h₀.order
    exact (h₀.later hl₁ ho₁).unread hall
  intro s₁ harr₁ _
  obtain ⟨hl₁, ho₁⟩ := Socket.later_of_arrivals harr₁ h₀.order
  have h₁ := h₀.later hl₁ ho₁
  rw [if_neg (not_not.mpr rfl)]
  refine keepsE_bind.mpr (keeps_recv hany ?_)
  intro s₂ x harr₂ hx
  obtain ⟨hl₂, ho₂⟩ := Socket.later_of_arrivals harr₂ h₁.order
  have h₂ := h₁.later hl₂ ho₂
  rw [h₂.read] at hx
  have hwent : Went k s s₂.next :=
    ⟨h₂.next, (hl₀.arrived.trans hl₁.arrived).trans hl₂.arrived, (List.getElem?_eq_some_iff.mp hx).1⟩
  rcases scan_asked h₂ hk hx with ⟨hok, hacked⟩ | ⟨⟨e, herr⟩, hnot⟩
  · exact keeps_pureOf hok trivial ⟨hwent, hacked⟩
  · have hne : Stop.err e ≠ .panic := by
      intro h
      cases h
    exact keeps_pureOf_err herr trivial ⟨hne, hwent, hnot⟩

theorem keeps_configureParams (queue : UInt16) {k : Nat} {s : Socket} (hs : s.Ready k) (hk : k + 1 < 2 ^ 32)
    (queueMaxlen : UInt32) (flags : Nat) :
    KeepsE kernel (fun _ => True) (fun _ s' => Went k s s' ∧ s'.Acked (k + 1))
      (fun e s' => e ≠ .panic ∧ Went k s s' ∧ ¬s'.Acked (k + 1))
      (configureParams queue (k + 1) queueMaxlen flags) s := by
  obtain ⟨v, hbuild, hv⟩ := build_params queue (k + 1) queueMaxlen flags
  exact keepsE_bind.mpr (keeps_pureOf hbuild trivial (keeps_ack hs hk hv))

/-! ## The configuration -/

theorem keeps_configure (queue : UInt16) (queueMaxlen : UInt32) (gso : Bool) :
    KeepsE kernel (fun _ => True) (fun flags s' => flags = best gso ∧ s'.Acked 2) (fun _ s' => ¬s'.Acked 2)
      (configure queue queueMaxlen gso) .fresh := by
  have hfresh : Socket.fresh.Ready 0 := ⟨rfl, rfl, by simp [Socket.fresh], by simp [Socket.InOrder, Socket.fresh]⟩
  obtain ⟨v, hbuild, hv, -⟩ := build_bind queue
  refine keepsE_bind.mpr (keeps_pureOf hbuild trivial ?_)
  refine keepsE_bind.mpr ((keeps_ack hfresh (by decide) hv).mono (fun _ h => h) ?_ ?_)
  case refine_2 =>
    intro e s₁ _ h hall
    exact h.2.2 (hall.mono (by decide))
  intro _ s₁ _ h₁
  refine keepsE_bind.mpr (keeps_isOk ?_)
  refine (keeps_configureParams queue h₁.1.ready (by decide) queueMaxlen (best gso)).mono (fun _ h => h) ?_ ?_
  · intro _ s₂ _ h₂
    rw [if_pos rfl]
    exact keepsE_pure.mpr ⟨trivial, rfl, h₂.2⟩
  intro e s₂ _ h₂
  obtain ⟨he, hwent₂, hnot⟩ := h₂
  refine ⟨he, ?_⟩
  -- From here on no attempt succeeds: each reads an acknowledgement of an earlier one, or a packet.
  have hlost : ∀ {s' : Socket}, s₂.arrived <+: s'.arrived → ¬s'.Acked 2 := fun hp =>
    (Socket.acked_iff_of_prefix hwent₂.read hp).not.mpr hnot
  rw [if_neg Bool.false_ne_true]
  refine keepsE_bind.mpr (keeps_eprintln trivial (keepsE_bind.mpr (keeps_isOk ?_)))
  refine (keeps_configureParams queue hwent₂.ready (by decide) queueMaxlen nfqaCfgFFailOpen).mono (fun _ h => h) ?_ ?_
  · intro _ s₃ _ h₃
    have hall : s₃.Acked 2 := h₃.2.mono (by decide)
    exact absurd hall (hlost h₃.1.arrived)
  intro e s₃ _ h₃
  obtain ⟨he, hwent₃, -⟩ := h₃
  refine ⟨he, ?_⟩
  rw [if_neg Bool.false_ne_true]
  refine keepsE_bind.mpr (keeps_eprintln trivial (keepsE_bind.mpr ?_))
  refine (keeps_configureParams queue hwent₃.ready (by decide) queueMaxlen 0).mono (fun _ h => h) ?_ ?_
  · intro _ s₄ _ h₄
    have hall : s₄.Acked 2 := h₄.2.mono (by decide)
    exact absurd hall (hlost (hwent₃.arrived.trans h₄.1.arrived))
  · intro e s₄ _ h₄
    exact hlost (hwent₃.arrived.trans h₄.2.1.arrived)

/-- **Configuration beside packets.** In every run, the queue is configured with the flags
asked for exactly if the first two datagrams put into the socket are acknowledgements: a
packet before the second one makes every attempt fail, though the kernel accepted it. -/
theorem configure_iff {queue : UInt16} {queueMaxlen : UInt32} {gso : Bool} {r : Except (Stop SockError) Nat}
    {s : Socket} (h : Runs kernel (configure queue queueMaxlen gso).run .fresh r s) :
    r = .ok (best gso) ↔ ∀ x ∈ s.arrived.take 2, x.isAck = true := by
  have hkeeps := keeps_configure queue queueMaxlen gso
  cases r with
  | ok flags =>
    obtain ⟨rfl, hall⟩ := hkeeps.runs_ok h
    exact ⟨fun _ => hall, fun _ => rfl⟩
  | error e =>
    refine ⟨?_, ?_⟩
    · intro heq
      cases heq
    · intro hall
      exact absurd hall (hkeeps.runs_error h)

/-! ## Two runs -/

/-- An acknowledgement with nothing after its error. -/
def ackGram (seq : Nat) : List UInt8 :=
  toLe 4 20 ++ (toLe 2 nlmsgError ++ toLe 2 0) ++ toLe 4 seq ++ toLe 4 0 ++ toLe 4 0

/-- A packet without its attributes. -/
def packetGram : List UInt8 := beginInto nfqnlMsgPacket 0 0 0

theorem acks_ackGram {v : List UInt8} {seq : Nat} (hv : window v 8 4 = toLe 4 seq) : Acks v (ackGram seq) := by
  have hlen : (ackGram seq).length = 20 := rfl
  refine ⟨⟨?_, rfl⟩, rfl, hv.symm, ⟨?_, rfl⟩, ?_⟩ <;> omega

theorem queued_packetGram : Queued packetGram := by
  refine ⟨⟨?_, ?_⟩, ?_⟩ <;> decide

theorem scan_ackGram {seq j : Nat} (hj : j < 256 ^ 4) : scan seq ((ackGram j).take 8192) 0 =
    if j = seq then .ok () else .error (io .invalidData "invalid netlink ack") := by
  have hacks : Acks (ackGram j) (ackGram j) := acks_ackGram rfl
  have hwin : window (ackGram j) 8 4 = toLe 4 j := rfl
  rw [scan_frame hacks.frame fun _ => ⟨hacks.code.1, hacks.fits, hacks.code.2⟩, hacks.type, hwin, leNat_toLe hj]
  simp only [true_and]

theorem runs_ack {s s₁ : Socket} (v : List UInt8) (seq : Nat) {x : Arrival}
    (harr : Relation.ReflTransGen Arrives (s.request v) s₁) (hx : s₁.arrived[s₁.read]? = some x) :
    Runs kernel (ack v seq).run s (scan seq (x.gram.take 8192) 0) s₁.next := by
  have hlt : s₁.read < s₁.arrived.length := (List.getElem?_eq_some_iff.mp hx).1
  have hsend : kernel (.send v) s v.length (s.request v) := ⟨s, .refl, rfl, rfl⟩
  have hpoll : kernel .poll (s.request v) 1 s₁ := ⟨harr, .inl ⟨hlt, rfl⟩⟩
  have hrecv : kernel .recv s₁ (some (x.gram.take 8192)) s₁.next := ⟨s₁, x, .refl, hx, rfl, rfl⟩
  have hsent : Runs kernel (send v).run s (.ok ()) (s.request v) := by
    refine runsE_bind_ok (.op hsend .ret) ?_
    rw [if_pos rfl]
    exact .ret
  refine runsE_bind_ok hsent (runsE_bind_ok (.op hpoll .ret) ?_)
  rw [if_neg (not_not.mpr rfl)]
  exact runsE_bind_ok (.op hrecv .ret) .ret

theorem runs_isOk_ok {α : Type} {x : SockProg α} {s s' : Socket} {a : α} (h : Runs kernel x.run s (.ok a) s') :
    Runs kernel (isOk x).run s (.ok true) s' := runs_bind.mpr ⟨_, _, h, .ret⟩

theorem runs_isOk_err {α : Type} {x : SockProg α} {s s' : Socket} {e : SockError}
    (h : Runs kernel x.run s (.error (.err e)) s') : Runs kernel (isOk x).run s (.ok false) s' :=
  runs_bind.mpr ⟨_, _, h, .ret⟩

theorem runs_eprintln (s : Socket) (line : String) : Runs kernel (eprintln line).run s (.ok ()) s := by
  have hline : kernel (.eprintln line) s () s := rfl
  exact .op hline .ret

theorem runs_pureOf {α : Type} {x : Except (Stop SockError) α} {a : α} (h : x = .ok a) (s : Socket) :
    Runs kernel (pureOf x).run s (.ok a) s := by
  subst h
  exact .ret

/-- A request of `configure_params`, and what comes of it with the datagrams that arrive. -/
theorem exists_params (queue : UInt16) (seq : Nat) (queueMaxlen : UInt32) (flags : Nat) (s : Socket) :
    ∃ v, window v 8 4 = toLe 4 seq ∧ ∀ {s₁ x}, Relation.ReflTransGen Arrives (s.request v) s₁ →
      s₁.arrived[s₁.read]? = some x →
      Runs kernel (configureParams queue seq queueMaxlen flags).run s (scan seq (x.gram.take 8192) 0) s₁.next := by
  obtain ⟨v, hbuild, hv⟩ := build_params queue seq queueMaxlen flags
  refine ⟨v, hv, ?_⟩
  intro s₁ x harr hx
  exact runsE_bind_ok (runs_pureOf hbuild s) (runs_ack v seq harr hx)

/-- Without packets the queue is configured at the first attempt. -/
theorem configure_iff_quiet : ∃ s, Runs kernel (configure 0 1024 true).run .fresh (.ok 5) s ∧
    ∀ x ∈ s.arrived.take 2, x.isAck = true := by
  obtain ⟨v₁, hbuild, hv₁, -⟩ := build_bind 0
  have hack₁ : Arrives (Socket.fresh.request v₁) _ := .ack rfl (acks_ackGram hv₁)
  have h₁ := runs_ack v₁ 1 (.single hack₁) rfl
  obtain ⟨v₂, hv₂, hparams⟩ := exists_params 0 2 1024 (best true) ⟨[v₁], [.ack (ackGram 1)], 1⟩
  have h₂ := hparams (.single (.ack rfl (acks_ackGram hv₂))) rfl
  rw [Arrival.gram, scan_ackGram (by decide), if_pos rfl] at h₁ h₂
  have hrun : Runs kernel (configure 0 1024 true).run .fresh (.ok 5) _ :=
    runsE_bind_ok (runs_pureOf hbuild _) (runsE_bind_ok h₁ (runsE_bind_ok (runs_isOk_ok h₂) .ret))
  exact ⟨_, hrun, (configure_iff hrun).mp rfl⟩

/-- A packet between the first two acknowledgements: the second request reads the packet,
the third the acknowledgement of the second, and the fourth that of the third. -/
theorem configure_rejects : ¬∀ r s, Runs kernel (configure 0 1024 true).run .fresh r s → r = .ok (best true) := by
  intro hall
  obtain ⟨v₁, hbuild, hv₁, hbind⟩ := build_bind 0
  have hack : Arrives (Socket.fresh.request v₁) _ := .ack rfl (acks_ackGram hv₁)
  have hbound : [v₁].any isBind = true := by simp [hbind]
  have hpacket : Arrives ⟨[v₁], [.ack (ackGram 1)], 0⟩ _ := .packet hbound queued_packetGram
  have h₁ := runs_ack v₁ 1 (.tail (.single hack) hpacket) rfl
  obtain ⟨v₂, hv₂, hparams₂⟩ := exists_params 0 2 1024 (best true) ⟨[v₁], [.ack (ackGram 1), .packet packetGram], 1⟩
  have h₂ := hparams₂ (.single (.ack rfl (acks_ackGram hv₂))) rfl
  obtain ⟨v₃, hv₃, hparams₃⟩ := exists_params 0 3 1024 nfqaCfgFFailOpen
    ⟨[v₁, v₂], [.ack (ackGram 1), .packet packetGram, .ack (ackGram 2)], 2⟩
  have h₃ := hparams₃ (.single (.ack rfl (acks_ackGram hv₃))) rfl
  obtain ⟨v₄, hv₄, hparams₄⟩ := exists_params 0 4 1024 0
    ⟨[v₁, v₂, v₃], [.ack (ackGram 1), .packet packetGram, .ack (ackGram 2), .ack (ackGram 3)], 3⟩
  have h₄ := hparams₄ (.single (.ack rfl (acks_ackGram hv₄))) rfl
  rw [Arrival.gram, scan_ackGram (by decide), if_pos rfl] at h₁
  rw [Arrival.gram, scan_queued queued_packetGram] at h₂
  rw [Arrival.gram, scan_ackGram (by decide), if_neg (by decide)] at h₃ h₄
  have hrun := hall _ _ <| runsE_bind_ok (runs_pureOf hbuild _) <| runsE_bind_ok h₁ <|
    runsE_bind_ok (runs_isOk_err h₂) <| runsE_bind_ok (runs_eprintln _ _) <| runsE_bind_ok (runs_isOk_err h₃) <|
    runsE_bind_ok (runs_eprintln _ _) <| runsE_bind_error _ h₄
  cases hrun

end Configure

end Nfqttl.Nfqueue
