/-
`main.rs`: what a worker takes from its command line, and how it reads the one that
`Workers::start` of `daemon.rs` gives it.

An option counts where it stands first. What the daemon writes comes back as it was, for
the configuration's numbers are in the ranges a worker insists on.
-/
import Nfqttl.ConfigBounds
import Nfqttl.Daemon

namespace Nfqttl.Main

open Text

/-! ## Reading -/

/-- The argument behind the first `name` that has one behind it. -/
def argValue (args : List (List Char)) (name : String) : Option (List Char) :=
  ((args.zip args.tail).find? fun x => x.1 == name.toList).map Prod.snd

/-- `parse_num`, for unsigned integers of `bits` bits. -/
def parseNum (bits : Nat) (args : List (List Char)) (name : String) (default : Nat) : Except IoError Nat :=
  if !args.any (· == name.toList) then .ok default
  else
    match (argValue args name).bind (parseUnsigned bits) with
    | some n => .ok n
    | none => .error (.new .invalidInput ("invalid or missing value for " ++ name))

/-- What `nfqueue::worker` is called with. -/
structure WorkerArgs where
  queue : Nat
  ttl : Nat
  queueMaxlen : Nat
  rcvbufMb : Nat
  gso : Bool
  deriving DecidableEq, Repr

/-- The arguments of the command `worker`. -/
def workerArgs (a : List (List Char)) : Except IoError WorkerArgs := do
  let q ← parseNum 16 a "--queue" 6464
  let ttl ← parseNum 16 a "--ttl" 64
  let qmax ← parseNum 32 a "--queue-maxlen" 4096
  let rcv ← parseNum 32 a "--rcvbuf-mb" 8
  let gso ← parseNum 8 a "--gso" 0
  if gso > 1 ∨ q = 0 ∨ ttl = 0 ∨ ttl > 255 ∨ ¬(256 ≤ qmax ∧ qmax ≤ 32768) ∨ ¬(1 ≤ rcv ∧ rcv ≤ 64) then
    throw (.new .invalidInput "invalid worker arguments")
  return ⟨q, ttl, qmax, rcv, gso == 1⟩

/-! ## Writing -/

/-- The command line of a worker that is started with `args`. -/
def commandLine (exe moduleDir : List Char) (args : List (List Char)) : List (List Char) :=
  exe :: args ++ ["--module-dir".toList, moduleDir]

/-! ## What an option is read as -/

/-- `v` stands behind the first `name`. -/
def Behind (args : List (List Char)) (name v : List Char) : Prop :=
  ∃ pre post, args = pre ++ name :: v :: post ∧ name ∉ pre

theorem argValue_eq_some {name : String} {v : List Char} : ∀ {args : List (List Char)},
    argValue args name = some v ↔ Behind args name.toList v
  | [] => by simp [argValue, Behind]
  | [x] => by
    simp only [argValue, List.tail_cons, List.zip_nil_right, List.find?_nil, Option.map_none, reduceCtorEq, false_iff]
    rintro ⟨pre, post, heq, -⟩
    have hlen := congrArg List.length heq
    simp only [List.length_cons, List.length_nil, List.length_append] at hlen
    omega
  | x :: y :: rest => by
    have hstep : argValue (x :: y :: rest) name = if x = name.toList then some y else argValue (y :: rest) name := by
      simp only [argValue, List.tail_cons, List.zip_cons_cons, List.find?_cons]
      by_cases hx : x = name.toList
      · simp [hx]
      · rw [if_neg hx, beq_false_of_ne hx]
    rw [hstep]
    by_cases hx : x = name.toList
    · rw [if_pos hx, Option.some.injEq]
      refine ⟨fun hy => ⟨[], rest, by rw [hx, hy]; rfl, List.not_mem_nil⟩, ?_⟩
      rintro ⟨pre, post, heq, hnot⟩
      cases pre with
      | nil =>
        simp only [List.nil_append, List.cons.injEq] at heq
        exact heq.2.1
      | cons p pre =>
        simp only [List.cons_append, List.cons.injEq] at heq
        exact absurd (by rw [← hx, heq.1]; exact List.mem_cons_self ..) hnot
    · rw [if_neg hx, argValue_eq_some]
      refine ⟨?_, ?_⟩
      · rintro ⟨pre, post, heq, hnot⟩
        exact ⟨x :: pre, post, by rw [heq]; rfl, by simpa [Ne.symm hx] using hnot⟩
      · rintro ⟨pre, post, heq, hnot⟩
        cases pre with
        | nil =>
          simp only [List.nil_append, List.cons.injEq] at heq
          exact absurd heq.1 hx
        | cons p pre =>
          simp only [List.cons_append, List.cons.injEq] at heq
          exact ⟨pre, post, heq.2, fun hmem => hnot (List.mem_cons_of_mem _ hmem)⟩

/-- The number an option stands for, its default when it is not there. -/
def Reads (bits : Nat) (args : List (List Char)) (name : String) (default n : Nat) : Prop :=
  name.toList ∉ args ∧ n = default ∨ ∃ v, Behind args name.toList v ∧ parseUnsigned bits v = some n

theorem Behind.mem {args : List (List Char)} {name v : List Char} (h : Behind args name v) : name ∈ args := by
  obtain ⟨pre, post, rfl, -⟩ := h
  simp

theorem parseNum_ok {bits n default : Nat} {args : List (List Char)} {name : String} :
    parseNum bits args name default = .ok n ↔ Reads bits args name default n := by
  rw [parseNum, Reads]
  by_cases hmem : name.toList ∈ args
  · have hany : args.any (· == name.toList) = true := by simpa using hmem
    have hread : ((argValue args name).bind (parseUnsigned bits) = some n) ↔
        ∃ v, Behind args name.toList v ∧ parseUnsigned bits v = some n := by
      simp only [Option.bind_eq_some_iff, argValue_eq_some]
    simp only [hany, Bool.not_true, Bool.false_eq_true, if_false, hmem, not_true_eq_false, false_and, false_or,
      ← hread]
    cases (argValue args name).bind (parseUnsigned bits) <;> simp
  · have hany : args.any (· == name.toList) = false := by
      rw [List.any_eq_false]
      intro x hx heq
      exact hmem (beq_iff_eq.mp heq ▸ hx)
    simp only [hany, Bool.not_false, if_true, Except.ok.injEq, hmem, not_false_eq_true, true_and]
    refine ⟨fun h => .inl h.symm, ?_⟩
    rintro (h | ⟨v, hv, -⟩)
    · exact h.symm
    · exact absurd hv.mem hmem

/-- What a worker takes is written there or the default, and in range. -/
structure Takes (a : List (List Char)) (w : WorkerArgs) : Prop where
  queue : Reads 16 a "--queue" 6464 w.queue
  ttl : Reads 16 a "--ttl" 64 w.ttl
  queueMaxlen : Reads 32 a "--queue-maxlen" 4096 w.queueMaxlen
  rcvbufMb : Reads 32 a "--rcvbuf-mb" 8 w.rcvbufMb
  gso : Reads 8 a "--gso" 0 w.gso.toNat
  queue_pos : 0 < w.queue
  ttl_range : 1 ≤ w.ttl ∧ w.ttl ≤ 255
  queueMaxlen_range : 256 ≤ w.queueMaxlen ∧ w.queueMaxlen ≤ 32768
  rcvbufMb_range : 1 ≤ w.rcvbufMb ∧ w.rcvbufMb ≤ 64

theorem workerArgs_ok {a : List (List Char)} {w : WorkerArgs} : workerArgs a = .ok w ↔ Takes a w := by
  unfold workerArgs
  simp only [bind_eq_ok, parseNum_ok]
  refine ⟨?_, ?_⟩
  · rintro ⟨q, hq, ttl, httl, qmax, hqmax, rcv, hrcv, gso, hgso, h⟩
    split at h
    · cases h
    next hrange =>
    cases h
    have hgso' : (gso == 1).toNat = gso := by
      have hle : gso ≤ 1 := by omega
      rcases Nat.le_one_iff_eq_zero_or_eq_one.mp hle with rfl | rfl <;> rfl
    exact ⟨hq, httl, hqmax, hrcv, hgso'.symm ▸ hgso, by dsimp only; omega, by dsimp only; omega, by dsimp only; omega,
      by dsimp only; omega⟩
  · intro h
    obtain ⟨q, ttl, qmax, rcv, gso⟩ := w
    obtain ⟨hq, httl, hqmax, hrcv, hgso, hpos, hr₁, hr₂, hr₃⟩ := h
    refine ⟨q, hq, ttl, httl, qmax, hqmax, rcv, hrcv, gso.toNat, hgso, ?_⟩
    have hle : gso.toNat ≤ 1 := Bool.toNat_le gso
    dsimp only at hpos hr₁ hr₂ hr₃
    rw [if_neg (by omega)]
    cases gso <;> rfl

/-! ## Rules and workers -/

/-- The queues a target hands packets to: the one it names, or all it balances over. -/
def queuesOf : Action → Option (List Nat)
  | .jump "NFQUEUE" ("--queue-num" :: n :: _) => (parseUnsigned 16 n.toList).map fun n => [n]
  | .jump "NFQUEUE" ("--queue-balance" :: r :: _) => do
    let (lo, hi) ← splitOnce ':' r.toList
    let lo ← parseUnsigned 16 lo
    let hi ← parseUnsigned 16 hi
    return List.range' lo (hi + 1 - lo)
  | _ => none

theorem toList_toString (n : Nat) : (toString n).toList = Nat.toDigits 10 n := by
  rw [Nat.toString_eq_repr, Nat.toList_repr]

theorem colon_notMem_toDigits (n : Nat) : ':' ∉ Nat.toDigits 10 n := by
  intro hmem
  exact absurd (Nat.isDigit_of_mem_toDigits (by decide) (by decide) hmem) (by decide)

/-- The rules of `workers` queues name the queues that get a worker. -/
theorem queuesOf_target {workers : Nat} (h : 1 ≤ workers ∧ workers ≤ 255) (ttl : Nat) :
    queuesOf (Firewall.target4 false workers ttl) = some (Daemon.Workers.queues workers) := by
  have hqueues : Daemon.Workers.queues workers = List.range' queueBase workers := by
    rw [Daemon.Workers.queues, List.range_eq_range', List.map_add_range']
    rfl
  have hread : ∀ n, n < 2 ^ 16 → parseUnsigned 16 (toString n).toList = some n := by
    intro n hn
    rw [toList_toString, parseUnsigned_toDigits hn]
  have hbase : queueBase = 6464 := rfl
  rw [hqueues, Firewall.target4, if_neg Bool.false_ne_true]
  by_cases hmany : workers > 1
  · have hsplit : splitOnce ':' (toString queueBase ++ ":" ++ toString (queueBase + workers - 1)).toList =
        some ((toString queueBase).toList, (toString (queueBase + workers - 1)).toList) := by
      rw [String.toList_append, String.toList_append, List.append_assoc, toList_toString]
      exact splitOnce_append (colon_notMem_toDigits _) _
    rw [if_pos hmany]
    simp only [queuesOf, hsplit, Option.bind_eq_bind, Option.bind_some, hread queueBase (by omega),
      hread (queueBase + workers - 1) (by omega), Option.pure_def]
    rw [show queueBase + workers - 1 + 1 - queueBase = workers by omega]
  · obtain rfl : workers = 1 := by omega
    rw [if_neg hmany]
    simp only [queuesOf, hread queueBase (by omega), Option.map_some, List.range'_one]

/-! ## What the daemon writes is read -/

/-- An argument that is no option of a worker. -/
def Operand (w : List Char) : Prop := ∀ name : String, name.toList.head? = some '-' → name.toList ≠ w

theorem operand_toDigits (n : Nat) : Operand (Nat.toDigits 10 n) := by
  intro name hname heq
  rw [heq] at hname
  have hmem : '-' ∈ Nat.toDigits 10 n := List.mem_of_mem_head? hname
  exact absurd (Nat.isDigit_of_mem_toDigits (by decide) (by decide) hmem) (by decide)

theorem operand_path {exe : List Char} (h : exe.head? = some '/') : Operand exe := by
  intro name hname heq
  rw [heq, h] at hname
  exact absurd hname (by decide)

/-- A number behind an option that stands nowhere before. -/
theorem reads_behind {bits n default : Nat} (pre : List (List Char)) {post : List (List Char)} {name : String}
    (hpre : name.toList ∉ pre) (hn : n < 2 ^ bits) :
    Reads bits (pre ++ name.toList :: Nat.toDigits 10 n :: post) name default n :=
  .inr ⟨_, ⟨pre, post, rfl, hpre⟩, parseUnsigned_toDigits hn⟩

section line
variable {exe moduleDir : List Char} {q : Nat}

/-- A worker takes its line as the daemon means it. -/
theorem workerArgs_commandLine (text : Option (List Char)) (hexe : exe.head? = some '/') (hq : 0 < q ∧ q < 2 ^ 16) :
    workerArgs (commandLine exe moduleDir (Daemon.Workers.args (Config.load text) q)) =
      .ok ⟨q, (Config.load text).ttl, (Config.load text).queueMaxlen, (Config.load text).rcvbufMb,
        (Config.load text).gso⟩ := by
  have hheld := Config.load_held text
  generalize Config.load text = c at hheld
  have httl : 1 ≤ c.ttl ∧ c.ttl ≤ 255 := by
    have h := hheld.numbers .ttl rfl 1 255 rfl
    simp only [Setting.number] at h
    omega
  have hmaxlen : 256 ≤ c.queueMaxlen ∧ c.queueMaxlen ≤ 32768 := by
    have h := hheld.numbers .queueMaxlen rfl 256 32768 rfl
    simp only [Setting.number] at h
    omega
  have hrcvbuf : 1 ≤ c.rcvbufMb ∧ c.rcvbufMb ≤ 64 := by
    have h := hheld.numbers .rcvbufMb rfl 1 64 rfl
    simp only [Setting.number] at h
    omega
  have hgso : (if c.gso then ['1'] else ['0']) = Nat.toDigits 10 c.gso.toNat := by
    cases c.gso <;> rfl
  have hpath := operand_path hexe
  have hfront : ∀ (name : String) (pre : List (List Char)), name.toList.head? = some '-' →
      (∀ w ∈ pre, Operand w ∨ w ≠ name.toList) → name.toList ∉ pre := by
    intro name pre hname hall hmem
    rcases hall _ hmem with hw | hne
    · exact hw name hname rfl
    · exact hne rfl
  have hbit := Bool.toNat_le c.gso
  rw [workerArgs_ok, commandLine, Daemon.Workers.args, hgso]
  simp only [List.cons_append, List.nil_append]
  exact
    { queue := reads_behind [exe, _] (hfront _ _ rfl (by simp [hpath])) hq.2
      ttl := reads_behind [exe, _, _, _] (hfront _ _ rfl (by simp [hpath, operand_toDigits])) (by omega)
      queueMaxlen := reads_behind [exe, _, _, _, _, _] (hfront _ _ rfl (by simp [hpath, operand_toDigits])) (by omega)
      rcvbufMb := reads_behind [exe, _, _, _, _, _, _, _] (hfront _ _ rfl (by simp [hpath, operand_toDigits]))
        (by omega)
      gso := reads_behind [exe, _, _, _, _, _, _, _, _, _] (hfront _ _ rfl (by simp [hpath, operand_toDigits]))
        (by omega)
      queue_pos := hq.1
      ttl_range := httl
      queueMaxlen_range := hmaxlen
      rcvbufMb_range := hrcvbuf }

end line

end Nfqttl.Main
