/-
`offload.rs`: the tethering offload settings, which the module turns off and gives back.

A setting is the text its `get` command prints. Two files per setting are the journal:
`before`, the value that was found, and `owned`, the value the module wrote. Writing a
file is two effects, since a crash may come between its truncation and its text.
-/
import Nfqttl.Lib.Prog
import Nfqttl.Lib.Text

namespace Nfqttl.Offload

open Effect

inductive Key
  | hw | bpf | bpfTethering
  deriving DecidableEq, Repr

/-- The loops of `apply` and `restore` go through the keys in this order. -/
def keys : List Key := [.hw, .bpf, .bpfTethering]

inductive Journal
  | before | owned
  deriving DecidableEq, Repr

/-- What a command does to a setting. -/
inductive Command
  | put (value : String)
  | delete
  deriving DecidableEq, Repr

/-! ## What the functions ask for -/

inductive OffloadOp
  | get (key : Key)
  | run (key : Key) (command : Command)
  | ownedExists (key : Key)
  | truncate (file : Journal) (key : Key)
  | fill (file : Journal) (key : Key) (text : String)
  /-- `util::read_trim` -/
  | readTrim (file : Journal) (key : Key)
  | removeFile (file : Journal) (key : Key)
  | warn (key : Key)

@[reducible] def OffloadSig : Sig where
  Op := OffloadOp
  Ans := fun
    | .get _ | .readTrim _ _ => Option String
    | .run _ _ | .ownedExists _ | .truncate _ _ | .fill _ _ _ => Bool
    | .removeFile _ _ | .warn _ => Unit

abbrev OffloadProg := Prog OffloadSig

def read (key : Key) : OffloadProg (Option String) := .op (.get key) .ret

def write (key : Key) (value : String) : OffloadProg Bool :=
  .op (.run key (if value = "null" then .delete else .put value)) .ret

def ownedExists (key : Key) : OffloadProg Bool := .op (.ownedExists key) .ret

/-- `fs::write` -/
def writeFile (file : Journal) (key : Key) (text : String) : OffloadProg Bool :=
  .op (.truncate file key) fun created => if created then .op (.fill file key text) .ret else .ret false

def readTrim (file : Journal) (key : Key) : OffloadProg (Option String) := .op (.readTrim file key) .ret
def removeFile (file : Journal) (key : Key) : OffloadProg Unit := .op (.removeFile file key) .ret
def warn (key : Key) : OffloadProg Unit := .op (.warn key) .ret

/-! ## The functions -/

def valid : Key → String → Bool
  | .hw, v => v = "0" || v = "1" || v = "null"
  | .bpf, v | .bpfTethering, v => v = "true" || v = "false" || v = "null"

/-- The value that turns the offload off. -/
def Key.new : Key → String
  | .hw => "1"
  | .bpf | .bpfTethering => "false"

/-- The commands of `write` and of the check after it. -/
def writeChecked (key : Key) (value : String) : OffloadProg Bool := do
  if ← write key value then return (← read key) == some value
  else return false

/-- A round of `apply`. -/
def applyKey (key : Key) : OffloadProg Unit := do
  let some old ← read key | return
  if !valid key old then return
  if old = key.new then return
  -- Journal ownership before writing the setting to cover daemon crashes.
  if !(← ownedExists key) then
    if !(← writeFile .before key old) then return
  if !(← writeFile .owned key key.new) then return
  if !(← writeChecked key key.new) then warn key

def apply (enabled : Bool) : OffloadProg Unit := if !enabled then pure () else keys.forM applyKey

/-- The end of a round of `restore`. -/
def release (key : Key) : OffloadProg Unit := do
  removeFile .owned key
  removeFile .before key

/-- A round of `restore`. -/
def restoreKey (key : Key) : OffloadProg Unit := do
  let some ours ← readTrim .owned key | return
  let some now ← read key | return
  if now = ours then
    if let some old ← readTrim .before key then
      if !(← writeChecked key old) then return
  release key

def restore : OffloadProg Unit := keys.forM restoreKey

/-! ## Settings and files -/

def trimmed (s : String) : String := String.ofList (Text.trim s.toList)

theorem trimmed_of_valid {key : Key} {v : String} (h : valid key v = true) : trimmed v = v := by
  cases key <;> simp only [valid, Bool.or_eq_true, decide_eq_true_eq] at h <;>
    rcases h with (rfl | rfl) | rfl <;> decide

theorem trimmed_new (key : Key) : trimmed key.new = key.new := by
  cases key <;> decide

/-- A setting and its journal. -/
structure Cell where
  setting : String
  before : Option String
  owned : Option String
  deriving DecidableEq, Repr

def Cell.file (c : Cell) : Journal → Option String
  | .before => c.before
  | .owned => c.owned

def Cell.setFile (c : Cell) (text : Option String) : Journal → Cell
  | .before => { c with before := text }
  | .owned => { c with owned := text }

def Command.value : Command → String
  | put v => v
  | delete => "null"

abbrev World := Key → Cell

def World.set (s : World) (key : Key) (c : Cell) : World := fun k => if k = key then c else s k

@[simp] theorem set_self (s : World) (key : Key) (c : Cell) : (s.set key c) key = c := if_pos rfl
@[simp] theorem set_eq_self (s : World) (key : Key) : s.set key (s key) = s := by
  funext k
  by_cases hk : k = key
  · rw [hk, World.set, if_pos rfl]
  · rw [World.set, if_neg hk]
@[simp] theorem set_set (s : World) (key : Key) (c c' : Cell) : (s.set key c).set key c' = s.set key c' := by
  funext k
  simp only [World.set]
  split <;> rfl
theorem set_ne (s : World) {key k : Key} (c : Cell) (h : k ≠ key) : (s.set key c) k = s k := if_neg h

/-- What each operation does: a setting command may fail without effect where `fails`
allows it, and so may the writing of a file, which is left as far as it came. -/
def system (fails : Bool) : Sem OffloadSig World := fun op s =>
  match op with
  | .get key => fun a s' => s' = s ∧ (a = some (s key).setting ∨ fails = true ∧ a = none)
  | .run key command => fun a s' =>
    a = true ∧ s' = s.set key { s key with setting := command.value } ∨ fails = true ∧ a = false ∧ s' = s
  | .ownedExists key => fun a s' => s' = s ∧ a = (s key).owned.isSome
  | .truncate file key => fun a s' =>
    a = true ∧ s' = s.set key ((s key).setFile (some "") file) ∨ fails = true ∧ a = false ∧ s' = s
  | .fill file key text => fun a s' =>
    a = true ∧ s' = s.set key ((s key).setFile (some text) file) ∨ fails = true ∧ a = false ∧ s' = s
  | .readTrim file key => fun a s' => s' = s ∧ a = ((s key).file file).map trimmed
  | .removeFile file key => fun _ s' => s' = s.set key ((s key).setFile none file)
  | .warn _ => fun _ s' => s' = s

/-- The operations when all of them succeed. -/
def handler : Handler OffloadSig World := fun op s =>
  match op with
  | .get key => (some (s key).setting, s)
  | .run key command => (true, s.set key { s key with setting := command.value })
  | .ownedExists key => ((s key).owned.isSome, s)
  | .truncate file key => (true, s.set key ((s key).setFile (some "") file))
  | .fill file key text => (true, s.set key ((s key).setFile (some text) file))
  | .readTrim file key => (((s key).file file).map trimmed, s)
  | .removeFile file key => ((), s.set key ((s key).setFile none file))
  | .warn _ => ((), s)

theorem handler_system (fails : Bool) (op : OffloadOp) (s : World) (a : OffloadSig.Ans op) (s' : World)
    (h : handler.sem op s a s') : system fails op s a s' := by
  cases op <;> cases h
  case get => exact ⟨rfl, .inl rfl⟩
  case run | truncate | fill => exact .inl ⟨rfl, rfl⟩
  case ownedExists | readTrim => exact ⟨rfl, rfl⟩
  case removeFile | warn => rfl

/-! ## One operation at a time -/

section rules
variable {α : Type} {fails : Bool} {I : World → Prop} {Q : α → World → Prop} {s : World} {key : Key}

theorem keeps_read {k : Option String → OffloadProg α} (hI : I s)
    (hsome : Keeps (system fails) I Q (k (some (s key).setting)) s)
    (hnone : fails = true → Keeps (system fails) I Q (k none) s) :
    Keeps (system fails) I Q (read key >>= k) s := by
  refine ⟨hI, ?_⟩
  rintro a s' ⟨rfl, rfl | ⟨hf, rfl⟩⟩
  exacts [hsome, hnone hf]

theorem keeps_write {k : Bool → OffloadProg α} {value : String} (hI : I s)
    (hok : Keeps (system fails) I Q (k true) (s.set key { s key with setting := value }))
    (hfail : fails = true → Keeps (system fails) I Q (k false) s) :
    Keeps (system fails) I Q (write key value >>= k) s := by
  have hvalue : (if value = "null" then Command.delete else .put value).value = value := by
    split
    · next h => exact h.symm
    · rfl
  refine ⟨hI, ?_⟩
  rintro a s' (⟨rfl, rfl⟩ | ⟨hf, rfl, rfl⟩)
  · rw [hvalue]
    exact hok
  · exact hfail hf

theorem keeps_ownedExists {k : Bool → OffloadProg α} (hI : I s)
    (h : Keeps (system fails) I Q (k (s key).owned.isSome) s) :
    Keeps (system fails) I Q (ownedExists key >>= k) s := by
  refine ⟨hI, ?_⟩
  rintro a s' ⟨rfl, rfl⟩
  exact h

/-- A file is empty before it has its text. -/
theorem keeps_writeFile {k : Bool → OffloadProg α} {file : Journal} {text : String} (hI : I s)
    (hempty : I (s.set key ((s key).setFile (some "") file)))
    (hok : Keeps (system fails) I Q (k true) (s.set key ((s key).setFile (some text) file)))
    (hfail : fails = true → Keeps (system fails) I Q (k false) s ∧
      Keeps (system fails) I Q (k false) (s.set key ((s key).setFile (some "") file))) :
    Keeps (system fails) I Q (writeFile file key text >>= k) s := by
  refine ⟨hI, ?_⟩
  rintro a s' (⟨rfl, rfl⟩ | ⟨hf, rfl, rfl⟩)
  case inr => exact (hfail hf).1
  refine ⟨hempty, ?_⟩
  rintro a s'' (⟨rfl, rfl⟩ | ⟨hf, rfl, rfl⟩)
  · rw [set_set, set_self]
    cases file <;> exact hok
  · exact (hfail hf).2

theorem keeps_readTrim {k : Option String → OffloadProg α} {file : Journal} (hI : I s)
    (h : Keeps (system fails) I Q (k (((s key).file file).map trimmed)) s) :
    Keeps (system fails) I Q (readTrim file key >>= k) s := by
  refine ⟨hI, ?_⟩
  rintro a s' ⟨rfl, rfl⟩
  exact h

theorem keeps_removeFile {k : Unit → OffloadProg α} {file : Journal} (hI : I s)
    (h : Keeps (system fails) I Q (k ()) (s.set key ((s key).setFile none file))) :
    Keeps (system fails) I Q (removeFile file key >>= k) s := by
  refine ⟨hI, ?_⟩
  rintro a s' rfl
  exact h

/-- Either the value is in place, or it is not certain to be. -/
theorem keeps_writeChecked {k : Bool → OffloadProg α} {value : String} (hI : I s)
    (hwritten : I (s.set key { s key with setting := value }))
    (hok : Keeps (system fails) I Q (k true) (s.set key { s key with setting := value }))
    (hfail : fails = true → Keeps (system fails) I Q (k false) s ∧
      Keeps (system fails) I Q (k false) (s.set key { s key with setting := value })) :
    Keeps (system fails) I Q (writeChecked key value >>= k) s := by
  have heq : (writeChecked key value >>= k) = write key value >>= fun done =>
      if done then read key >>= fun now => k (now == some value) else k false := by
    unfold writeChecked
    rw [Prog.bind_assoc']
    refine bind_congr ?_
    intro done
    cases done <;> rfl
  rw [heq]
  refine keeps_write hI ?_ fun hf => (hfail hf).1
  refine keeps_read hwritten ?_ fun hf => (hfail hf).2
  simpa using hok

end rules

end Nfqttl.Offload
