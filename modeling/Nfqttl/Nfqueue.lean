/-
`nfqueue.rs`: the netlink messages of the worker, the verdict on a queued packet
and the loop over the frames of a datagram.

Buffers are byte strings, in the byte order of the little-endian targets, and
every slice and index of the source is checked. `usize` has 64 bits, so sums of an
offset and a length read from a message do not wrap.
-/
import Nfqttl.Lib.Netlink
import Nfqttl.Packet
import Nfqttl.Util

namespace Nfqttl

open Bytes Netlink

def nlmFRequest : Nat := 1
def nlmsgError : Nat := 2
def nfnlSubsysQueue : Nat := 3
def nfqnlMsgPacket : Nat := 0
def nfqnlMsgVerdict : Nat := 1
def nfnetlinkV0 : UInt8 := 0
def nfqaPacketHdr : Nat := 1
def nfqaVerdictHdr : Nat := 2
def nfqaPayload : Nat := 10
def nfqaCapLen : Nat := 13
def nfInetForward : UInt8 := 2
def nfAccept : Nat := 1
def afInet : UInt8 := 2

namespace Nfqueue

/-! ## Building messages -/

/-- The netlink and nfnetlink headers of a message without attributes. -/
def beginInto (ty flags seq : Nat) (queue : UInt16) : List UInt8 :=
  toLe 4 (16 + 4) ++ toLe 2 (nfnlSubsysQueue <<< 8 ||| ty) ++ toLe 2 (nlmFRequest ||| flags) ++ toLe 4 seq ++
    toLe 4 0 ++ [afInet, nfnetlinkV0] ++ toBe 2 queue.toNat

/-- `while v.len() < n { v.push(0) }` -/
def padTo (v : List UInt8) (n : Nat) : List UInt8 := v ++ List.replicate (n - v.length) 0

/-- The length field of the header becomes the length of the message. -/
def finishLen (v : List UInt8) : Except (Stop IoError) (List UInt8) :=
  if v.length < 4 then throw .panic else return splice v 0 (toLe 4 v.length)

def attr (ty : Nat) (data : List UInt8) : EStateM (Stop IoError) (List UInt8) Unit := do
  let pos := align4 (← get).length
  modify fun v => padTo v pos
  let size := 4 + data.length
  if size > 65535 then throw (.err (.new .invalidInput "netlink attr too large"))
  else
    modify fun v => padTo (v ++ toLe 2 size ++ toLe 2 ty ++ data) (pos + align4 size)
    set (← lift (finishLen (← get)))

/-! ## The verdict -/

structure PacketStats where
  seen : Nat := 0
  rewritten : Nat := 0
  truncated : Nat := 0
  unchanged : Nat := 0
  deriving DecidableEq, Repr

/-- What `verdict` works on: the frame received, the message to send, the counters. -/
structure Work where
  msg : List UInt8
  v : List UInt8
  stats : PacketStats
  deriving DecidableEq

/-- What the attribute walk of `verdict` has seen so far. -/
structure Seen where
  id : Option (List UInt8) := none
  hook : UInt8 := 255
  proto : Nat := 0
  cap : Option Nat := none
  payload : Option (Nat × Nat) := none
  deriving DecidableEq

/-- The attribute of type `ty` at `off`, with data `d`. -/
def Seen.note (a : Seen) (off ty : Nat) (d : List UInt8) : Except (Stop IoError) Seen :=
  if ty = nfqaPacketHdr ∧ 7 ≤ d.length then do
    let id ← slice d 0 4
    let proto := beNat [← index d 4, ← index d 5]
    let hook ← index d 6
    return { a with id := some id, proto := proto, hook := hook }
  else if ty = nfqaPayload then return { a with payload := some (off + 4, d.length) }
  else if ty = nfqaCapLen ∧ d.length = 4 then return { a with cap := some (beNat d) }
  else return a

/-- The attribute walk of `verdict`. -/
def readAttrs (msg : List UInt8) (off : Nat) (a : Seen) : Except (Stop IoError) Seen :=
  if off + 4 ≤ msg.length then do
    let len := leNat [← index msg off, ← index msg (off + 1)]
    let ty := leNat [← index msg (off + 2), ← index msg (off + 3)] &&& typeMask
    if len < 4 ∨ msg.length < off + len then throw (.err (.new .invalidData "bad nfqueue attr"))
    else
      let d ← slice msg (off + 4) (off + len)
      let a ← a.note off ty d
      readAttrs msg (off + align4 len) a
  else return a
termination_by msg.length - off
decreasing_by
  rename_i hlen
  have := le_align4 len
  change _ - (off + align4 len) < _
  omega

/-- Run on the message to send alone. -/
def onBuffer {α : Type} (x : EStateM (Stop IoError) (List UInt8) α) : EStateM (Stop IoError) Work α := fun w =>
  match x w.v with
  | .ok a v => .ok a { w with v := v }
  | .error e v => .error e { w with v := v }

/-- The rewriting of the payload; answers whether it was changed. -/
def rewrite (a : Seen) (ttl : UInt8) : EStateM (Stop IoError) Work Bool :=
  if a.proto = 0x0800 ∧ a.hook = nfInetForward then
    match a.payload with
    | some (p, l) =>
      if a.cap.all (· = l) then do
        let packet ← lift (slice (← get).msg p (p + l))
        let (changed, packet) ← lift (setIpv4Ttl packet ttl)
        modify fun w => { w with msg := splice w.msg p packet }
        return changed
      else do
        modify fun w => { w with stats.truncated := w.stats.truncated + 1 }
        return false
    | none => return false
  else return false

/-- The first part of `verdict`, which may fail: the message is long enough, for
this queue, and names a packet. -/
def examine (msg : List UInt8) (queue : UInt16) : Except (Stop IoError) (List UInt8 × Seen) :=
  if msg.length < 20 then throw (.err (.new .invalidData "short nfqueue message"))
  else do
    if beNat [← index msg 18, ← index msg 19] ≠ queue.toNat then throw (.err (.new .invalidData "wrong queue"))
    else
      let a ← readAttrs msg 20 {}
      match a.id with
      | some id => return (id, a)
      | none => throw (.err (.new .invalidData "missing packet id"))

/-- The payload as it is now, attached to the message to send. -/
def attach (a : Seen) : EStateM (Stop IoError) Work Unit :=
  match a.payload with
  | some (p, l) => do
    let packet ← lift (slice (← get).msg p (p + l))
    onBuffer (attr nfqaPayload packet)
    modify fun w => { w with stats.rewritten := w.stats.rewritten + 1 }
  | none => throw .panic

def verdict (queue : UInt16) (ttl : UInt8) : EStateM (Stop IoError) Work Unit := do
  let (id, a) ← lift (examine (← get).msg queue)
  modify fun w => { w with stats.seen := w.stats.seen + 1 }
  let changed ← rewrite a ttl
  modify fun w => { w with v := beginInto nfqnlMsgVerdict 0 0 queue }
  onBuffer (attr nfqaVerdictHdr (toBe 4 nfAccept ++ id))
  if changed then attach a
  else modify fun w => { w with stats.unchanged := w.stats.unchanged + 1 }

/-! ## The frames of a datagram -/

/-- What the worker's loop works on, and the messages it has sent. -/
structure Worker where
  rx : List UInt8
  tx : List UInt8
  stats : PacketStats
  sent : List (List UInt8)
  deriving DecidableEq

/-- Send the message; `sendOk` says which sends succeed. -/
def send (sendOk : Nat → Bool) : EStateM (Stop IoError) Worker Unit := do
  let w ← get
  if sendOk w.sent.length then set { w with sent := w.sent ++ [w.tx] } else throw (.err .last)

/-- Run on the frame `rx[off..off + len]`. -/
def onFrame (off len : Nat) (x : EStateM (Stop IoError) Work Unit) : EStateM (Stop IoError) Worker Unit := fun w =>
  match slice w.rx off (off + len) with
  | .error e => .error e w
  | .ok msg =>
    match x ⟨msg, w.tx, w.stats⟩ with
    | .ok a k => .ok a { w with rx := splice w.rx off k.msg, tx := k.v, stats := k.stats }
    | .error e k => .error e { w with rx := splice w.rx off k.msg, tx := k.v, stats := k.stats }

/-- One frame: a packet is answered, an error ends the worker, other frames are passed over. -/
def frame (queue : UInt16) (ttl : UInt8) (sendOk : Nat → Bool) (off len : Nat) :
    EStateM (Stop IoError) Worker Unit := do
  let ty := leNat (← lift (slice (← get).rx (off + 4) (off + 6)))
  if ty = nfnlSubsysQueue <<< 8 ||| nfqnlMsgPacket then
    onFrame off len (verdict queue ttl)
    send sendOk
  else if ty = nlmsgError then throw (.err (.new .other "nfqueue netlink error"))

/-- The loop over the frames of a datagram of `n` bytes, from `off` on. -/
def frames (queue : UInt16) (ttl : UInt8) (sendOk : Nat → Bool) (n off : Nat) :
    EStateM (Stop IoError) Worker Unit :=
  if off + 16 ≤ n then do
    let len := leNat (← lift (slice (← get).rx off (off + 4)))
    if len < 16 ∨ n < off + len then throw (.err (.new .invalidData "bad netlink frame"))
    else
      frame queue ttl sendOk off len
      frames queue ttl sendOk n (off + align4 len)
  else return
termination_by n - off
decreasing_by
  rename_i hlen
  have := le_align4 len
  change _ - (off + align4 len) < _
  omega

end Nfqueue

end Nfqttl
