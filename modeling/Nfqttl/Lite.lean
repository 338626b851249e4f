/-
`nfqttl-lite.c` and `packet.h`: the C worker this one replaces, from the queued packet
to the verdict it sends.

A pointer into the frame is an offset, and every read of the frame is checked; the
frame ends where its header says, so no read passes `nlmsg_len`. The transmit buffer is
static, and a write to it carries the proof that it is in range.
-/
import Nfqttl.Nfqueue

namespace Nfqttl.Lite

open Bytes Netlink

/-- `return -1` -/
abbrev Failed := Stop Unit

def fail {α : Type} : Except Failed α := .error (.err ())

/-! ## Building messages -/

def txSize : Nat := 131072

/-- The static buffer `tx`. -/
structure Tx where
  bytes : List UInt8
  size : bytes.length = txSize

/-- The buffer as the program starts with it. -/
def Tx.blank : Tx := ⟨List.replicate txSize 0, List.length_replicate⟩

def Tx.write (tx : Tx) (i : Nat) (d : List UInt8) (h : i + d.length ≤ txSize) : Tx where
  bytes := splice tx.bytes i d
  size := by rw [length_splice (by rw [tx.size]; exact h), tx.size]

/-- `nlmsg_len` of the message in `tx`. -/
def Tx.nlmsgLen (tx : Tx) : Nat := leNat (window tx.bytes 0 4)

def begin (tx : Tx) (type flags seq queue : Nat) : Tx :=
  ((((((((tx.write 0 (List.replicate 20 0) (by simp [txSize])).write 0 (toLe 4 20) (by simp [txSize])).write
    4 (toLe 2 (nfnlSubsysQueue <<< 8 ||| type)) (by simp [txSize])).write
    6 (toLe 2 (nlmFRequest ||| flags)) (by simp [txSize])).write
    8 (toLe 4 seq) (by simp [txSize])).write
    16 [afInet] (by simp [txSize])).write
    17 [nfnetlinkV0] (by simp [txSize])).write
    18 (toBe 2 queue) (by simp [txSize]))

def attr (tx : Tx) (type : Nat) (data : List UInt8) : Except Failed Tx :=
  let pos := align4 tx.nlmsgLen
  let size := 4 + data.length
  if h : size > 65535 ∨ pos + align4 size > txSize then fail
  else
    have hle := le_align4 size
    let tx := tx.write (pos + 2) (toLe 2 type) (by rw [length_toLe]; omega)
    let tx := tx.write pos (toLe 2 size) (by rw [length_toLe]; omega)
    let tx := tx.write (pos + 4) data (by omega)
    let tx := tx.write (pos + size) (List.replicate (align4 size - size) 0) (by rw [List.length_replicate]; omega)
    return tx.write 0 (toLe 4 (pos + align4 size)) (by rw [length_toLe]; unfold txSize; omega)

/-- The message `send_msg` hands to the kernel. -/
def Tx.message (tx : Tx) : List UInt8 := tx.bytes.take tx.nlmsgLen

/-! ## `packet.h` -/

/-- `for (size_t i = 0; i < ihl; i += 2)`, with `n` rounds left from `i` on. A header has at
most 60 bytes, so 32 bits hold the sum. -/
def sumWords (p : List UInt8) : Nat → Nat → Nat → Except Failed Nat
  | 0, _, sum => pure sum
  | n + 1, i, sum => do
    let word := (← index p i).toNat <<< 8 ||| (← index p (i + 1)).toNat
    sumWords p n (i + 2) (sum + word)

def setIpv4Ttl (p : List UInt8) (ttl : UInt8) : Except Failed (Bool × List UInt8) := do
  if p.length < 20 then return (false, p)
  let first ← index p 0
  if first >>> 4 ≠ 4 then return (false, p)
  let ihl := (first &&& 15).toNat * 4
  let total := (← index p 2).toNat <<< 8 ||| (← index p 3).toNat
  if ihl < 20 ∨ p.length < ihl ∨ total < ihl ∨ p.length < total ∨ ttl = 0 then return (false, p)
  if (← index p 8) = ttl then return (false, p)
  let p ← store p 8 ttl
  let p ← store p 11 0
  let p ← store p 10 0
  let sum ← sumWords p ((ihl + 1) / 2) 0 0
  let sum := (0xffffffff - foldCarry sum) &&& 65535
  let p ← store p 10 (UInt8.ofNat (sum >>> 8))
  let p ← store p 11 (UInt8.ofNat sum)
  return (true, p)

/-! ## The packet -/

/-- What the attribute walk of `packet` has seen so far. A capture length of 0 is none. -/
structure Seen where
  id : List UInt8 := [0, 0, 0, 0]
  caplen : Nat := 0
  hook : Nat := 255
  protocol : Nat := 0
  haveId : Bool := false
  payload : Option (Nat × Nat) := none
  deriving DecidableEq

/-- The `switch` over the attribute of type `type` at `offset`. -/
def Seen.note (a : Seen) (offset type : Nat) (data : List UInt8) : Except Failed Seen :=
  if type = nfqaPacketHdr then
    if data.length < 7 then fail
    else do
      let id ← slice data 0 4
      let hook := (← index data 6).toNat
      let protocol := beNat [← index data 4, ← index data 5]
      return { a with id := id, hook := hook, protocol := protocol, haveId := true }
  else if type = nfqaPayload then return { a with payload := some (offset + 4, data.length) }
  else if type = nfqaCapLen then
    if data.length ≠ 4 then fail else return { a with caplen := beNat data }
  else return a

/-- The attribute walk of `packet`, over a message of `nlmsgLen` bytes. -/
def walk (msg : List UInt8) (nlmsgLen offset : Nat) (a : Seen) : Except Failed Seen :=
  if offset + 4 ≤ nlmsgLen then do
    let nlaLen := leNat (← slice msg offset (offset + 2))
    let nlaType := leNat (← slice msg (offset + 2) (offset + 4)) &&& typeMask
    if nlaLen < 4 ∨ nlaLen > nlmsgLen - offset then fail
    else
      let data ← slice msg (offset + 4) (offset + nlaLen)
      let a ← a.note offset nlaType data
      walk msg nlmsgLen (offset + align4 nlaLen) a
  else return a
termination_by nlmsgLen - offset
decreasing_by
  rename_i hlen
  have := le_align4 nlaLen
  change _ - (offset + align4 nlaLen) < _
  omega

/-- Whether the payload was changed, and the frame after it. -/
def rewrite (a : Seen) (ttl : Nat) (msg : List UInt8) : Except Failed (Bool × List UInt8) :=
  match a.payload with
  | some (p, size) =>
    if a.protocol = 0x0800 ∧ a.hook = nfInetForward.toNat ∧ (a.caplen = 0 ∨ a.caplen = size) ∧
        size ≤ 65535 - 4 then do
      let packet ← slice msg p (p + size)
      let (changed, packet) ← setIpv4Ttl packet (UInt8.ofNat ttl)
      return (changed, splice msg p packet)
    else return (false, msg)
  | none => return (false, msg)

/-- The payload as it is now, attached to the message to send. -/
def attach (tx : Tx) (a : Seen) (msg : List UInt8) : Except Failed Tx :=
  match a.payload with
  | some (p, size) => do attr tx nfqaPayload (← slice msg p (p + size))
  | none => .error .panic

/-- `packet` up to its `send_msg`: the frame and the transmit buffer after it. -/
def packet (queue ttl : Nat) (msg : List UInt8) (tx : Tx) : Except Failed (List UInt8 × Tx) := do
  let nlmsgLen := leNat (← slice msg 0 4)
  if nlmsgLen < 20 then fail
  else do
    if beNat (← slice msg 18 20) ≠ queue then fail
    else
      let a ← walk msg nlmsgLen 20 {}
      if !a.haveId then fail
      else
        let (changed, msg) ← rewrite a ttl msg
        let tx ← attr (begin tx nfqnlMsgVerdict 0 0 queue) nfqaVerdictHdr (toBe 4 nfAccept ++ a.id)
        let tx ← if changed then attach tx a msg else pure tx
        return (msg, tx)

end Nfqttl.Lite
