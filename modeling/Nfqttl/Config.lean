/-
`config.rs`: the settings the daemon runs with.
-/

namespace Nfqttl

inductive Backend
  | auto | kernel | nfqueue
  deriving DecidableEq, Repr

inductive Ipv6Mode
  | auto | normalize | block | pass
  deriving DecidableEq, Repr

/-- The settings, with the defaults of `Config::default()`. -/
structure Config where
  ttl : Nat := 64
  backend : Backend := .auto
  workers : Nat := 1
  downstreams : List String := []
  upstreams : List String := []
  disableOffload : Bool := true
  ipv6Mode : Ipv6Mode := .auto
  ipv6Hl : Nat := 64
  maxFailures : Nat := 6
  cooldown : Nat := 1
  queueMaxlen : Nat := 4096
  rcvbufMb : Nat := 8
  maxBacklog : Nat := 3072
  stallLimit : Nat := 3
  watchdogMs : Int := 500
  idleMs : Int := 10000
  rescanMs : Nat := 10000
  checkMs : Nat := 5000
  gso : Bool := false
  sqmUpKbit : Nat := 0
  sqmDownKbit : Nat := 0
  sqmUpIface : String := ""
  sqmDownIface : String := ""
  deriving Repr

end Nfqttl
