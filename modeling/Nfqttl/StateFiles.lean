/-
`util.rs`: `write_state`, `remove_state` and `read_trim`, called by any number of processes
at once, over files as the kernel has them. A name stands for an inode, bytes get there by
one `write()` after the other, and a process that has a file open keeps to its inode
whatever becomes of the name.

What the rest of the program takes the state files for is a map from names to texts, written,
removed and read in one step each (`Event`, `replay`).
-/
import Mathlib.Data.Nat.Digits.Defs
import Nfqttl.Lib.Conc
import Nfqttl.Lib.Text

namespace Nfqttl.StateFiles

open Effect Relation Text

/-! ## Names -/

/-- A name that no temporary file has. -/
@[ext] structure StateName where
  text : List Char
  plain : text.head? ≠ some '.'
  deriving DecidableEq

/-- `.{name}.{pid}`. -/
def temp (name : StateName) (pid : Nat) : List Char :=
  '.' :: (name.text ++ '.' :: Nat.toDigits 10 pid)

theorem temp_ne (name name' : StateName) (pid : Nat) : temp name pid ≠ name'.text := by
  intro h
  have hplain := name'.plain
  rw [← h] at hplain
  exact hplain rfl

theorem dot_notMem_toDigits (n : Nat) : '.' ∉ Nat.toDigits 10 n := by
  intro hmem
  exact absurd (Nat.isDigit_of_mem_toDigits (by decide) (by decide) hmem) (by decide)

/-- Behind its last dot such a name has the pid. -/
theorem temp_injective {name name' : StateName} {pid pid' : Nat} (h : temp name pid = temp name' pid') :
    name = name' ∧ pid = pid' := by
  have hrev := congrArg List.reverse (List.cons.inj h).2
  simp only [List.reverse_append, List.reverse_cons, List.append_assoc, List.singleton_append] at hrev
  have hdot : ∀ n, '.' ∉ (Nat.toDigits 10 n).reverse := by
    intro n hmem
    exact dot_notMem_toDigits n (List.mem_reverse.mp hmem)
  have hsplit := congrArg (splitOnce '.') hrev
  rw [splitOnce_append (hdot pid), splitOnce_append (hdot pid')] at hsplit
  obtain ⟨hpid, hname⟩ := Prod.mk.inj (Option.some.inj hsplit)
  have hpid := congrArg decimal (List.reverse_injective hpid)
  rw [decimal_toDigits, decimal_toDigits] at hpid
  exact ⟨StateName.ext (List.reverse_injective hname), Option.some.inj hpid⟩

/-! ## What a process asks for -/

/-- What a system call reports that a signal may interrupt. -/
inductive Tried (α : Type)
  | got (a : α)
  | interrupted
  | failed

inductive FileOp
  | ensureState
  /-- `File::create` of the temporary file for `name`. -/
  | create (name : StateName)
  /-- One `write()`. -/
  | write (rest : List UInt8)
  | close
  /-- The temporary file gets its name. What it is to hold is only recorded. -/
  | rename (name : StateName) (value : List UInt8)
  | unlink (name : StateName)
  | openRead (name : StateName)
  /-- One `read()`. -/
  | read
  /-- The file is closed and its text returned. -/
  | answer (name : StateName) (text : Option (List Char))

@[reducible] def FileOp.Ans : FileOp → Type
  | .ensureState | .create _ | .rename .. | .unlink _ | .openRead _ => Bool
  | .write _ => Tried Nat
  | .read => Tried (List UInt8)
  | .close | .answer .. => Unit

@[reducible] def FileSig : Sig where
  Op := FileOp
  Ans := FileOp.Ans

abbrev FileProg := Prog FileSig

def ask (op : FileOp) : FileProg op.Ans := .op op .ret

/-! ## The functions -/

/-- What a process has to do with the files. -/
inductive Task
  | write (name : StateName) (value : List UInt8)
  | remove (name : StateName)
  | read (name : StateName)
  deriving DecidableEq

/-- Where a process is: between two tasks, or in the loop of `write_all` or of `read_to_string`. -/
inductive Stage
  | idle (tasks : List Task)
  | writing (name : StateName) (value rest : List UInt8) (tasks : List Task)
  | reading (name : StateName) (got : List UInt8) (tasks : List Task)

/-- `write_state` up to its first `write()`. -/
def writeState (name : StateName) (value : List UInt8) (tasks : List Task) : FileProg Stage := do
  let _ ← ask .ensureState
  if ← ask (.create name) then return .writing name value value tasks else return .idle tasks

/-- One turn of `write_all`. The file gets its name only behind the last byte. -/
def writeAll (name : StateName) (value rest : List UInt8) (tasks : List Task) : FileProg Stage := do
  if rest = [] then
    ask .close
    let _ ← ask (.rename name value)
    return .idle tasks
  match ← ask (.write rest) with
  | .got (n + 1) => return .writing name value (rest.drop (n + 1)) tasks
  | .interrupted => return .writing name value rest tasks
  | .got 0 | .failed =>
    ask .close
    return .idle tasks

def removeState (name : StateName) (tasks : List Task) : FileProg Stage := do
  let _ ← ask (.unlink name)
  return .idle tasks

/-- `read_trim` up to its first `read()`. -/
def readTrim (name : StateName) (tasks : List Task) : FileProg Stage := do
  if ← ask (.openRead name) then return .reading name [] tasks else return .idle tasks

/-- What `read_trim` makes of a whole file. -/
def trimmed (got : List UInt8) : Option (List Char) :=
  (String.fromUTF8? ⟨got.toArray⟩).map fun s => trim s.toList

/-- One turn of `read_to_string`, up to the end of the file. -/
def readToEnd (name : StateName) (got : List UInt8) (tasks : List Task) : FileProg Stage := do
  match ← ask .read with
  | .got [] =>
    ask (.answer name (trimmed got))
    return .idle tasks
  | .got chunk => return .reading name (got ++ chunk) tasks
  | .interrupted => return .reading name got tasks
  | .failed =>
    ask .close
    return .idle tasks

def body : Stage → FileProg (Stage ⊕ Unit)
  | .idle [] => return .inr ()
  | .idle (.write name value :: tasks) => return .inl (← writeState name value tasks)
  | .idle (.remove name :: tasks) => return .inl (← removeState name tasks)
  | .idle (.read name :: tasks) => return .inl (← readTrim name tasks)
  | .writing name value rest tasks => return .inl (← writeAll name value rest tasks)
  | .reading name got tasks => return .inl (← readToEnd name got tasks)

/-! ## The map that the files stand for -/

inductive Event
  | put (name : StateName) (value : List UInt8)
  | drop (name : StateName)

/-- The task that an event comes of. -/
def Event.task : Event → Task
  | .put name value => .write name value
  | .drop name => .remove name

/-- What every name holds. -/
abbrev Texts := StateName → Option (List UInt8)

def Event.apply (m : Texts) : Event → Texts
  | .put name value => Function.update m name (some value)
  | .drop name => Function.update m name none

def replay (m : Texts) (log : List Event) : Texts := log.foldl Event.apply m

@[simp] theorem replay_append (m : Texts) (log : List Event) (e : Event) :
    replay m (log ++ [e]) = e.apply (replay m log) := by simp [replay]

/-! ## The files -/

structure Handle where
  inode : Nat
  pos : Nat

/-- What a call of `read_trim` returned, and what had happened when it opened the file. -/
structure Answer where
  name : StateName
  before : List Event
  text : Option (List Char)

structure Store where
  /-- The state directory. -/
  entry : List Char → Option Nat
  data : Nat → List UInt8
  /-- The inodes from here on were never used. -/
  next : Nat
  /-- The file that a process has open. -/
  handle : Nat → Option Handle
  /-- Only recorded: the map's history, the tasks of all processes, what had happened when a process
  opened its file, and what was read. -/
  log : List Event
  given : List Task
  opened : Nat → List Event
  answers : List Answer

/-- `write()` of `chunk` at `pos`. -/
def overwrite (data : List UInt8) (pos : Nat) (chunk : List UInt8) : List UInt8 :=
  data.take pos ++ List.replicate (pos - data.length) 0 ++ chunk ++ data.drop (pos + chunk.length)

namespace Store

/-- What the names hold. -/
def texts (s : Store) : Texts := fun name => (s.entry name.text).map s.data

variable (s : Store) (pid : Nat)

def opens (h : Option Handle) : Store := { s with handle := Function.update s.handle pid h }

def fill (i : Nat) (data : List UInt8) : Store := { s with data := Function.update s.data i data }

/-- A new file. -/
def add (path : List Char) : Store :=
  { s with
    entry := Function.update s.entry path (some s.next)
    data := Function.update s.data s.next []
    next := s.next + 1 }

/-- `O_CREAT | O_TRUNC`. -/
def create (path : List Char) : Store :=
  match s.entry path with
  | some i => (s.fill i []).opens pid (some ⟨i, 0⟩)
  | none => (s.add path).opens pid (some ⟨s.next, 0⟩)

def write (h : Handle) (chunk : List UInt8) : Store :=
  (s.fill h.inode (overwrite (s.data h.inode) h.pos chunk)).opens pid (some ⟨h.inode, h.pos + chunk.length⟩)

def rename (path : List Char) (i : Nat) (name : StateName) (value : List UInt8) : Store :=
  { s with
    entry := Function.update (Function.update s.entry path none) name.text (some i)
    log := s.log ++ [.put name value] }

/-- The file is open to be read from its beginning. -/
def openRead (i : Nat) : Store :=
  { s with
    handle := Function.update s.handle pid (some ⟨i, 0⟩)
    opened := Function.update s.opened pid s.log }

def answer (name : StateName) (text : Option (List Char)) : Store :=
  { s with
    handle := Function.update s.handle pid none
    answers := s.answers ++ [⟨name, s.opened pid, text⟩] }

def unlink (name : StateName) : Store :=
  { s with
    entry := Function.update s.entry name.text none
    log := s.log ++ [.drop name] }

end Store

section does
variable (pid : Nat)

def does : Sem FileSig Store := fun op s a s' =>
  match op, a with
  | .create name, true => s' = s.create pid (temp name pid)
  | .write rest, .got n => n ≤ rest.length ∧ ∃ h, s.handle pid = some h ∧ s' = s.write pid h (rest.take n)
  | .close, _ => s' = s.opens pid none
  | .rename name value, true =>
    ∃ i, s.entry (temp name pid) = some i ∧ s' = s.rename (temp name pid) i name value
  | .unlink name, true => (s.entry name.text).isSome ∧ s' = s.unlink name
  | .openRead name, true => ∃ i, s.entry name.text = some i ∧ s' = s.openRead pid i
  | .read, .got chunk => ∃ h, s.handle pid = some h ∧ chunk <+: (s.data h.inode).drop h.pos ∧
      (chunk = [] → (s.data h.inode).length ≤ h.pos) ∧
      s' = s.opens pid (some ⟨h.inode, h.pos + chunk.length⟩)
  | .answer name text, _ => s' = s.answer pid name text
  | _, _ => s' = s

/-- A process starts between two tasks. -/
def starts : Stage → Store → Store → Prop
  | .idle tasks, s, s' => s' = { s with given := s.given ++ tasks }
  | _, _, _ => False

end does

/-- All processes that use the state files. What one of them has open is closed with its end. -/
def device : System FileSig Stage Unit Store where
  body := body
  does := does
  born := fun _ => starts
  gone := fun pid _ s s' => s' = s.opens pid none
  env := fun _ _ => False

/-! ## Terms -/

/-- What always holds, when the names held `m` at first. -/
structure Store.Consistent (m : Texts) (s : Store) : Prop where
  used : ∀ path i, s.entry path = some i → i < s.next
  single : ∀ path path' i, s.entry path = some i → s.entry path' = some i → path = path'
  agrees : s.texts = replay m s.log
  asked : ∀ e ∈ s.log, e.task ∈ s.given
  answered : ∀ a ∈ s.answers, a.before <+: s.log ∧
    ∃ value, replay m a.before a.name = some value ∧ a.text = trimmed value

/-- What a step of process `pid` does at most: of the temporary files it touches its own, and of the
others nothing but their names. -/
structure Guar (pid : Nat) (s s' : Store) : Prop where
  temps : ∀ name q, q ≠ pid → s'.entry (temp name q) = s.entry (temp name q)
  fresh : ∀ name i, s'.entry (temp name pid) = some i → s.entry (temp name pid) = some i ∨ s.next ≤ i
  data : ∀ i < s.next, (∀ name, s.entry (temp name pid) ≠ some i) → s'.data i = s.data i
  next : s.next ≤ s'.next
  handle : ∀ q, q ≠ pid → s'.handle q = s.handle q
  opened : ∀ q, q ≠ pid → s'.opened q = s.opened q
  log : s.log <+: s'.log
  given : ∀ t ∈ s.given, t ∈ s'.given

def terms (m : Texts) : Terms FileSig Store where
  inv := Store.Consistent m
  guar := Guar
  asks := fun _ _ _ => True

variable {m : Texts} {pid : Nat} {s s' : Store} {name : StateName}

theorem guar_refl (pid : Nat) (s : Store) : Guar pid s s :=
  ⟨fun _ _ _ => rfl, fun _ _ => .inl, fun _ _ _ => rfl, le_rfl, fun _ _ => rfl, fun _ _ => rfl,
    List.prefix_rfl, fun _ => id⟩

/-! ## What the others leave as it is -/

abbrev Lasting (m : Texts) (pid : Nat) (A : Store → Prop) : Prop := Stable device (terms m) pid A

theorem lasting_of {A : Store → Prop} (h : ∀ q s s', q ≠ pid → s.Consistent m → Guar q s s' → A s → A s') :
    Lasting m pid A := by
  intro s s' hr hA
  obtain ⟨hi, _, ⟨q, hq, hguar⟩ | henv⟩ := hr
  · exact h q s s' hq hi hguar hA
  · exact henv.elim

/-- The tasks were given to a process. -/
def Given (tasks : List Task) (s : Store) : Prop := ∀ t ∈ tasks, t ∈ s.given

theorem Given.lasting {tasks : List Task} : Lasting m pid (Given tasks) :=
  lasting_of fun _ _ _ _ _ hguar h t ht => hguar.given t (h t ht)

/-- The temporary file of process `pid` for `name` holds `value`. -/
def Holds (pid : Nat) (name : StateName) (value : List UInt8) (s : Store) : Prop :=
  ∃ i, s.entry (temp name pid) = some i ∧ s.data i = value

/-- An inode of a process's temporary files is in no other process's. -/
theorem Store.Consistent.apart (hi : s.Consistent m) {q i : Nat} (hq : q ≠ pid)
    (hentry : s.entry (temp name pid) = some i) (name' : StateName) : s.entry (temp name' q) ≠ some i := by
  intro hother
  exact hq (temp_injective (hi.single _ _ i hother hentry)).2

theorem Guar.kept {q i : Nat} (hguar : Guar q s s') (hi : s.Consistent m) (hq : q ≠ pid)
    (hentry : s.entry (temp name pid) = some i) : s'.data i = s.data i :=
  hguar.data i (hi.used _ i hentry) (hi.apart hq hentry)

theorem Holds.lasting {value : List UInt8} : Lasting m pid (Holds pid name value) := by
  refine lasting_of ?_
  intro q s s' hq hi hguar h
  obtain ⟨i, hentry, hdata⟩ := h
  exact ⟨i, (hguar.temps name pid (Ne.symm hq)).trans hentry, (hguar.kept hi hq hentry).trans hdata⟩

/-- Process `pid` has its temporary file for `name` open behind the bytes `got` that it has. -/
def Writes (pid : Nat) (name : StateName) (got : List UInt8) (s : Store) : Prop :=
  ∃ i, s.handle pid = some ⟨i, got.length⟩ ∧ s.entry (temp name pid) = some i ∧ s.data i = got

theorem Writes.lasting {got : List UInt8} : Lasting m pid (Writes pid name got) := by
  refine lasting_of ?_
  intro q s s' hq hi hguar h
  obtain ⟨i, hhandle, hentry, hdata⟩ := h
  exact ⟨i, (hguar.handle pid (Ne.symm hq)).trans hhandle, (hguar.temps name pid (Ne.symm hq)).trans hentry,
    (hguar.kept hi hq hentry).trans hdata⟩

/-- Process `pid` has read `got` of the file that was `name` when it opened it. No temporary file is in
that inode, nor will one be. -/
structure Reads (m : Texts) (pid : Nat) (name : StateName) (got : List UInt8) (i : Nat) (s : Store) : Prop where
  handle : s.handle pid = some ⟨i, got.length⟩
  used : i < s.next
  placed : ∀ name' q, s.entry (temp name' q) ≠ some i
  got : got <+: s.data i
  stood : replay m (s.opened pid) name = some (s.data i)
  before : s.opened pid <+: s.log

theorem Reads.lasting {got : List UInt8} {i : Nat} : Lasting m pid (Reads m pid name got i) := by
  refine lasting_of ?_
  intro q s s' hq _ hguar h
  have hdata : s'.data i = s.data i := hguar.data i h.used fun name' => h.placed name' q
  have hopened : s'.opened pid = s.opened pid := hguar.opened pid (Ne.symm hq)
  refine ⟨(hguar.handle pid (Ne.symm hq)).trans h.handle, h.used.trans_le hguar.next, ?_, ?_, ?_, ?_⟩
  · intro name' q' hentry
    by_cases hq' : q' = q
    · subst hq'
      rcases hguar.fresh name' i hentry with hold | hfresh
      · exact h.placed name' q' hold
      · exact absurd h.used (Nat.not_lt.mpr hfresh)
    · exact h.placed name' q' ((hguar.temps name' q' hq').symm.trans hentry)
  · rw [hdata]
    exact h.got
  · rw [hopened, hdata]
    exact h.stood
  · rw [hopened]
    exact h.before.trans hguar.log

/-- `name` held `value` when process `pid` opened it. -/
def Stood (m : Texts) (pid : Nat) (name : StateName) (value : List UInt8) (s : Store) : Prop :=
  replay m (s.opened pid) name = some value ∧ s.opened pid <+: s.log

theorem Stood.lasting {value : List UInt8} : Lasting m pid (Stood m pid name value) := by
  refine lasting_of ?_
  intro q s s' hq _ hguar h
  rw [Stood, hguar.opened pid (Ne.symm hq)]
  exact ⟨h.1, h.2.trans hguar.log⟩

/-! ## What a process does itself -/

theorem Store.Consistent.opens (hi : s.Consistent m) (h : Option Handle) : (s.opens pid h).Consistent m :=
  ⟨hi.used, hi.single, hi.agrees, hi.asked, hi.answered⟩

theorem guar_opens (h : Option Handle) : Guar pid s (s.opens pid h) :=
  { guar_refl pid s with handle := fun _ hq => Function.update_of_ne hq _ _ }

theorem Guar.trans_opens (hguar : Guar pid s s') (h : Option Handle) : Guar pid s (s'.opens pid h) :=
  { hguar with handle := fun q hq => (Function.update_of_ne hq _ _).trans (hguar.handle q hq) }

/-- The names hold what they held as long as their entries and the inodes behind them are the same. -/
theorem texts_congr (h : ∀ name : StateName, s'.entry name.text = s.entry name.text)
    (hdata : ∀ (name : StateName) i, s.entry name.text = some i → s'.data i = s.data i) : s'.texts = s.texts := by
  funext name
  simp only [Store.texts, h]
  cases hentry : s.entry name.text with
  | none => rfl
  | some i => simp [hdata name i hentry]

/-- Bytes go to a temporary file, which no name has. -/
theorem Store.Consistent.fill (hi : s.Consistent m) {i : Nat} (hentry : s.entry (temp name pid) = some i)
    (data : List UInt8) : (s.fill i data).Consistent m ∧ Guar pid s (s.fill i data) := by
  have htexts : (s.fill i data).texts = s.texts := by
    refine texts_congr (fun _ => rfl) ?_
    intro name' j hname
    refine Function.update_of_ne ?_ _ _
    rintro rfl
    exact temp_ne _ _ _ (hi.single _ _ _ hentry hname)
  refine ⟨⟨hi.used, hi.single, htexts.trans hi.agrees, hi.asked, hi.answered⟩, { guar_refl pid s with data := ?_ }⟩
  intro j _ hj
  refine Function.update_of_ne ?_ _ _
  rintro rfl
  exact hj name hentry

theorem overwrite_end (d chunk : List UInt8) : overwrite d d.length chunk = d ++ chunk := by
  simp [overwrite]

/-- A new temporary file. -/
theorem Store.Consistent.add (hi : s.Consistent m) :
    (s.add (temp name pid)).Consistent m ∧ Guar pid s (s.add (temp name pid)) := by
  have hother : ∀ path i, Function.update s.entry (temp name pid) (some s.next) path = some i →
      (path = temp name pid ∧ i = s.next) ∨ (s.entry path = some i ∧ i < s.next) := by
    intro path i hpath
    by_cases heq : path = temp name pid
    · subst heq
      rw [Function.update_self] at hpath
      exact .inl ⟨rfl, (Option.some.inj hpath).symm⟩
    · rw [Function.update_of_ne heq] at hpath
      exact .inr ⟨hpath, hi.used path i hpath⟩
  have htexts : (s.add (temp name pid)).texts = s.texts := by
    refine texts_congr ?_ ?_
    · exact fun name' => Function.update_of_ne (temp_ne name name' pid).symm _ _
    · exact fun name' i hname => Function.update_of_ne (hi.used _ i hname).ne _ _
  refine ⟨⟨?_, ?_, htexts.trans hi.agrees, hi.asked, hi.answered⟩,
    { guar_refl pid s with temps := ?_, fresh := ?_, data := ?_, next := Nat.le_succ _ }⟩
  · intro path i hpath
    rcases hother path i hpath with ⟨_, rfl⟩ | ⟨_, hlt⟩
    · exact Nat.lt_succ_self _
    · exact hlt.trans (Nat.lt_succ_self _)
  · intro path path' i hpath hpath'
    rcases hother path i hpath with ⟨rfl, rfl⟩ | ⟨hold, hlt⟩ <;>
      rcases hother path' _ hpath' with ⟨rfl, heq⟩ | ⟨hold', hlt'⟩
    · rfl
    · exact absurd hlt' (Nat.lt_irrefl _)
    · exact absurd heq hlt.ne
    · exact hi.single _ _ _ hold hold'
  · intro name' q hq
    refine Function.update_of_ne ?_ _ _
    intro heq
    exact hq (temp_injective heq).2
  · intro name' i hname
    rcases hother _ i hname with ⟨_, rfl⟩ | ⟨hold, _⟩
    · exact .inr le_rfl
    · exact .inl hold
  · exact fun i hlt _ => Function.update_of_ne hlt.ne _ _

/-- The file is there and empty, whether it was there before or not. -/
theorem Store.Consistent.create (hi : s.Consistent m) (name : StateName) :
    (s.create pid (temp name pid)).Consistent m ∧ Guar pid s (s.create pid (temp name pid)) ∧
      Writes pid name [] (s.create pid (temp name pid)) := by
  unfold Store.create
  cases hentry : s.entry (temp name pid) with
  | some i =>
    obtain ⟨hi', hguar⟩ := hi.fill hentry []
    exact ⟨hi'.opens _, hguar.trans_opens _, i, Function.update_self .., hentry, Function.update_self ..⟩
  | none =>
    have hadd : (s.add (temp name pid)).Consistent m ∧ Guar pid s (s.add (temp name pid)) := hi.add
    obtain ⟨hi', hguar⟩ := hadd
    exact ⟨hi'.opens _, hguar.trans_opens _, s.next, Function.update_self .., Function.update_self ..,
      Function.update_self ..⟩

/-- What is written goes behind what is there. -/
theorem Writes.write (hi : s.Consistent m) {got : List UInt8} (h : Writes pid name got s) (chunk : List UInt8)
    {f : Handle} (hf : s.handle pid = some f) :
    (s.write pid f chunk).Consistent m ∧ Guar pid s (s.write pid f chunk) ∧
      Writes pid name (got ++ chunk) (s.write pid f chunk) := by
  obtain ⟨i, hhandle, hentry, rfl⟩ := h
  obtain rfl := Option.some.inj (hf.symm.trans hhandle)
  obtain ⟨hi', hguar⟩ := hi.fill hentry (overwrite (s.data i) (s.data i).length chunk)
  refine ⟨hi'.opens _, hguar.trans_opens _, i, ?_, hentry, ?_⟩
  · rw [List.length_append]
    exact Function.update_self ..
  · rw [← overwrite_end]
    exact Function.update_self ..

/-- The name stands for the inode of the temporary file from one moment to the next. -/
theorem Store.Consistent.rename (hi : s.Consistent m) {value : List UInt8} (htask : .write name value ∈ s.given)
    {i : Nat} (hentry : s.entry (temp name pid) = some i) (hdata : s.data i = value) :
    (s.rename (temp name pid) i name value).Consistent m ∧ Guar pid s (s.rename (temp name pid) i name value) := by
  have hother : ∀ path j,
      Function.update (Function.update s.entry (temp name pid) none) name.text (some i) path = some j →
      (path = name.text ∧ j = i) ∨ (path ≠ name.text ∧ j ≠ i ∧ s.entry path = some j) := by
    intro path j hpath
    by_cases hname : path = name.text
    · subst hname
      rw [Function.update_self] at hpath
      exact .inl ⟨rfl, (Option.some.inj hpath).symm⟩
    · rw [Function.update_of_ne hname] at hpath
      by_cases htemp : path = temp name pid
      · rw [htemp, Function.update_self] at hpath
        cases hpath
      · rw [Function.update_of_ne htemp] at hpath
        refine .inr ⟨hname, ?_, hpath⟩
        rintro rfl
        exact htemp (hi.single _ _ _ hpath hentry)
  refine ⟨⟨?_, ?_, ?_, ?_, ?_⟩, { guar_refl pid s with temps := ?_, fresh := ?_, log := List.prefix_append _ _ }⟩
  · intro path j hpath
    rcases hother path j hpath with ⟨_, rfl⟩ | ⟨_, _, hold⟩
    · exact hi.used _ _ hentry
    · exact hi.used _ _ hold
  · intro path path' j hpath hpath'
    rcases hother path j hpath with ⟨rfl, rfl⟩ | ⟨_, hj, hold⟩ <;>
      rcases hother path' _ hpath' with ⟨rfl, hj'⟩ | ⟨_, hj', hold'⟩
    · rfl
    · exact absurd rfl hj'
    · exact absurd hj' hj
    · exact hi.single _ _ _ hold hold'
  · funext name'
    have hbefore := congrFun hi.agrees name'
    by_cases hname : name' = name
    · subst hname
      simp [Store.texts, Store.rename, Event.apply, hdata]
    · have htext : name'.text ≠ name.text := fun h => hname (StateName.ext h)
      simp only [Store.rename, replay_append, Event.apply, Function.update_of_ne hname]
      rw [← hbefore]
      simp [Store.texts, Function.update_of_ne htext, Function.update_of_ne (temp_ne name name' pid).symm]
  · intro e he
    rcases List.mem_append.mp he with he | he
    · exact hi.asked e he
    · obtain rfl := List.mem_singleton.mp he
      exact htask
  · intro a ha
    obtain ⟨hbefore, hvalue⟩ := hi.answered a ha
    exact ⟨hbefore.trans (List.prefix_append _ _), hvalue⟩
  · intro name' q hq
    have htemp : temp name' q ≠ temp name pid := fun heq => hq (temp_injective heq).2
    exact (Function.update_of_ne (temp_ne name' name q) _ _).trans (Function.update_of_ne htemp _ _)
  · intro name' j hname
    rcases hother _ j hname with ⟨heq, _⟩ | ⟨_, _, hold⟩
    · exact absurd heq (temp_ne name' name pid)
    · exact .inl hold

theorem Store.Consistent.unlink (hi : s.Consistent m) (htask : .remove name ∈ s.given) :
    (s.unlink name).Consistent m ∧ Guar pid s (s.unlink name) := by
  have hother : ∀ path j, Function.update s.entry name.text none path = some j → s.entry path = some j := by
    intro path j hpath
    by_cases hname : path = name.text
    · rw [hname, Function.update_self] at hpath
      cases hpath
    · rwa [Function.update_of_ne hname] at hpath
  refine ⟨⟨fun path j h => hi.used path j (hother path j h),
      fun path path' j h h' => hi.single path path' j (hother path j h) (hother path' j h'), ?_, ?_, ?_⟩,
    { guar_refl pid s with temps := ?_, fresh := ?_, log := List.prefix_append _ _ }⟩
  · funext name'
    have hbefore := congrFun hi.agrees name'
    by_cases hname : name' = name
    · subst hname
      simp [Store.texts, Store.unlink, Event.apply]
    · simp only [Store.unlink, replay_append, Event.apply, Function.update_of_ne hname]
      rw [← hbefore]
      simp [Store.texts, Function.update_of_ne fun h => hname (StateName.ext h)]
  · intro e he
    rcases List.mem_append.mp he with he | he
    · exact hi.asked e he
    · obtain rfl := List.mem_singleton.mp he
      exact htask
  · intro a ha
    obtain ⟨hbefore, hvalue⟩ := hi.answered a ha
    exact ⟨hbefore.trans (List.prefix_append _ _), hvalue⟩
  · exact fun name' q _ => Function.update_of_ne (temp_ne name' name q) _ _
  · exact fun name' j hname => .inl (hother _ j hname)

/-- What a name stands for is open as it stood. -/
theorem Store.Consistent.openRead (hi : s.Consistent m) {i : Nat} (hentry : s.entry name.text = some i) :
    (s.openRead pid i).Consistent m ∧ Guar pid s (s.openRead pid i) ∧ Reads m pid name [] i (s.openRead pid i) := by
  have hopened : (s.openRead pid i).opened pid = s.log := Function.update_self ..
  refine ⟨⟨hi.used, hi.single, hi.agrees, hi.asked, hi.answered⟩,
    { guar_refl pid s with handle := ?_, opened := ?_ },
    Function.update_self .., hi.used _ _ hentry, ?_, List.nil_prefix, ?_, ?_⟩
  · exact fun q hq => Function.update_of_ne hq _ _
  · exact fun q hq => Function.update_of_ne hq _ _
  · intro name' q htemp
    exact temp_ne name' name q (hi.single _ _ i htemp hentry)
  · have hstood := congrFun hi.agrees name
    rw [Store.texts, hentry] at hstood
    rw [hopened]
    exact hstood.symm
  · rw [hopened]
    exact List.prefix_rfl

theorem Reads.more {got chunk : List UInt8} {i : Nat} (h : Reads m pid name got i s)
    (hchunk : chunk <+: (s.data i).drop got.length) :
    Reads m pid name (got ++ chunk) i (s.opens pid (some ⟨i, got.length + chunk.length⟩)) := by
  refine { h with handle := ?_, got := ?_ }
  · rw [List.length_append]
    exact Function.update_self ..
  · obtain ⟨rest, hrest⟩ := h.got
    have hdata : s.data i = got ++ rest := hrest.symm
    rw [hdata, List.drop_left] at hchunk
    change got ++ chunk <+: s.data i
    rw [hdata]
    exact (List.prefix_append_right_inj got).mpr hchunk

/-- At the end of the file all of it has been read. -/
theorem Reads.whole {got : List UInt8} {i : Nat} (h : Reads m pid name got i s)
    (hend : (s.data i).length ≤ got.length) : Stood m pid name got s := by
  refine ⟨?_, h.before⟩
  rw [h.stood, h.got.eq_of_length_le hend]

theorem Store.Consistent.answer (hi : s.Consistent m) {value : List UInt8} (h : Stood m pid name value s) :
    (s.answer pid name (trimmed value)).Consistent m ∧ Guar pid s (s.answer pid name (trimmed value)) := by
  refine ⟨⟨hi.used, hi.single, hi.agrees, hi.asked, ?_⟩, { guar_refl pid s with handle := ?_ }⟩
  · intro a ha
    rcases List.mem_append.mp ha with ha | ha
    · exact hi.answered a ha
    · obtain rfl := List.mem_singleton.mp ha
      exact ⟨h.2, value, h.1, rfl⟩
  · exact fun q hq => Function.update_of_ne hq _ _

/-! ## What the functions keep to -/

abbrev Minds {α : Type} (m : Texts) (pid : Nat) (Q : α → Store → Prop) (p : FileProg α) (s : Store) : Prop :=
  Safe device (terms m) pid Q p s

/-- An operation asked for in a state with `A`, which lasts. -/
theorem ask_minds {α : Type} {Q : α → Store → Prop} {A : Store → Prop} {op : FileOp} {k : op.Ans → FileProg α}
    (hA : Lasting m pid A) (h : A s) (ho : ∀ s, s.Consistent m → A s → ∀ a s', does pid op s a s' →
      s'.Consistent m ∧ Guar pid s s' ∧ Minds m pid Q (k a) s') : Minds m pid Q (.op op k) s :=
  safe_op hA h fun s hi hs => ⟨trivial, ho s hi hs⟩

/-- Where process `pid` is at the beginning of a round. -/
def Stands (m : Texts) (pid : Nat) : Stage → Store → Prop
  | .idle tasks, s => Given tasks s
  | .writing name value rest tasks, s => Given (.write name value :: tasks) s ∧
      ∃ got, got ++ rest = value ∧ Writes pid name got s
  | .reading name got tasks, s => Given tasks s ∧ ∃ i, Reads m pid name got i s

variable {tasks : List Task} {value rest : List UInt8}

theorem Given.le {tasks' : List Task} (h : Given tasks s) (hle : ∀ t ∈ tasks', t ∈ tasks) : Given tasks' s :=
  fun t ht => h t (hle t ht)

theorem Given.guar (h : Given tasks s) (hguar : Guar pid s s') : Given tasks s' := fun t ht => hguar.given t (h t ht)

theorem Stands.lasting (stage : Stage) : Lasting m pid (Stands m pid stage) := by
  intro s s' hr h
  cases stage with
  | idle tasks => exact Given.lasting s s' hr h
  | writing name value rest tasks =>
    obtain ⟨hgiven, got, hgot, hwrites⟩ := h
    exact ⟨Given.lasting s s' hr hgiven, got, hgot, Writes.lasting s s' hr hwrites⟩
  | reading name got tasks =>
    obtain ⟨hgiven, i, hreads⟩ := h
    exact ⟨Given.lasting s s' hr hgiven, i, Reads.lasting s s' hr hreads⟩

theorem stands_minds {stage : Stage} (h : Stands m pid stage s) : Minds m pid (Stands m pid) (.ret stage) s :=
  safe_ret (Stands.lasting stage) h fun _ _ hs => hs

/-- An end with the tasks that are left. -/
theorem idle_minds (h : Given tasks s) : Minds m pid (Stands m pid) (.ret (.idle tasks)) s := stands_minds h

/-- The file is closed, and the next task begun. -/
theorem close_minds (h : Given tasks s) :
    Minds m pid (Stands m pid) (do ask .close; return Stage.idle tasks) s := by
  refine ask_minds Given.lasting h ?_
  intro s hi hs
  rintro ⟨⟩ _ rfl
  exact ⟨hi.opens none, guar_opens none, idle_minds hs⟩

theorem writeState_minds (h : Given (.write name value :: tasks) s) :
    Minds m pid (Stands m pid) (writeState name value tasks) s := by
  have hle : ∀ t ∈ tasks, t ∈ .write name value :: tasks := fun t => List.mem_cons_of_mem _
  refine ask_minds Given.lasting h ?_
  intro s hi hs
  rintro _ _ rfl
  refine ⟨hi, guar_refl pid _, ask_minds Given.lasting hs ?_⟩
  intro s hi hs created s' hdoes
  cases created with
  | false =>
    obtain rfl : s' = s := hdoes
    exact ⟨hi, guar_refl pid _, idle_minds (hs.le hle)⟩
  | true =>
    obtain rfl : s' = s.create pid (temp name pid) := hdoes
    obtain ⟨hi', hguar, hwrites⟩ : (s.create pid (temp name pid)).Consistent m ∧
        Guar pid s (s.create pid (temp name pid)) ∧ Writes pid name [] (s.create pid (temp name pid)) := hi.create name
    exact ⟨hi', hguar, stands_minds ⟨hs.guar hguar, [], rfl, hwrites⟩⟩

/-- Behind the last byte the file is closed and gets its name. -/
theorem rename_minds (h : Given (.write name value :: tasks) s) (hwrites : Writes pid name value s) :
    Minds m pid (Stands m pid) (do ask .close; let _ ← ask (.rename name value); return Stage.idle tasks) s := by
  have hle : ∀ t ∈ tasks, t ∈ .write name value :: tasks := fun t => List.mem_cons_of_mem _
  have hholds : Holds pid name value s := by
    obtain ⟨i, _, hentry, hdata⟩ := hwrites
    exact ⟨i, hentry, hdata⟩
  have hlasting : Lasting m pid fun s => Given (.write name value :: tasks) s ∧ Holds pid name value s :=
    Given.lasting.and Holds.lasting
  refine ask_minds hlasting ⟨h, hholds⟩ ?_
  intro s hi hs
  rintro ⟨⟩ _ rfl
  refine ⟨hi.opens none, guar_opens none, ask_minds hlasting hs ?_⟩
  intro s hi hs renamed s' hdoes
  cases renamed with
  | false =>
    obtain rfl : s' = s := hdoes
    exact ⟨hi, guar_refl pid _, idle_minds (hs.1.le hle)⟩
  | true =>
    obtain ⟨i, hentry, rfl⟩ := hdoes
    obtain ⟨j, hentry', hdata⟩ := hs.2
    obtain rfl := Option.some.inj (hentry.symm.trans hentry')
    obtain ⟨hi', hguar⟩ := hi.rename (hs.1 _ List.mem_cons_self) hentry hdata
    exact ⟨hi', hguar, idle_minds ((hs.1.le hle).guar hguar)⟩

theorem writeAll_minds (h : Stands m pid (.writing name value rest tasks) s) :
    Minds m pid (Stands m pid) (writeAll name value rest tasks) s := by
  obtain ⟨hgiven, got, rfl, hwrites⟩ := h
  have hle : ∀ t ∈ tasks, t ∈ .write name (got ++ rest) :: tasks := fun t => List.mem_cons_of_mem _
  have hlasting : Lasting m pid fun s => Given (.write name (got ++ rest) :: tasks) s ∧ Writes pid name got s :=
    Given.lasting.and Writes.lasting
  unfold writeAll
  split
  case isTrue hrest =>
    subst hrest
    exact rename_minds hgiven (by rwa [List.append_nil])
  case isFalse =>
    refine ask_minds hlasting ⟨hgiven, hwrites⟩ ?_
    intro s hi hs tried s' hdoes
    cases tried with
    | got n =>
      obtain ⟨hn, f, hf, rfl⟩ := hdoes
      obtain ⟨hi', hguar, hwrites'⟩ := hs.2.write hi (rest.take n) hf
      refine ⟨hi', hguar, ?_⟩
      cases n with
      | zero => exact close_minds ((hs.1.le hle).guar hguar)
      | succ n =>
        refine stands_minds ⟨hs.1.guar hguar, _, ?_, hwrites'⟩
        rw [List.append_assoc, List.take_append_drop]
    | interrupted =>
      obtain rfl : s' = s := hdoes
      exact ⟨hi, guar_refl pid _, stands_minds ⟨hs.1, got, rfl, hs.2⟩⟩
    | failed =>
      obtain rfl : s' = s := hdoes
      exact ⟨hi, guar_refl pid _, close_minds (hs.1.le hle)⟩

theorem removeState_minds (h : Given (.remove name :: tasks) s) :
    Minds m pid (Stands m pid) (removeState name tasks) s := by
  have hle : ∀ t ∈ tasks, t ∈ .remove name :: tasks := fun t => List.mem_cons_of_mem _
  refine ask_minds Given.lasting h ?_
  intro s hi hs removed s' hdoes
  cases removed with
  | false =>
    obtain rfl : s' = s := hdoes
    exact ⟨hi, guar_refl pid _, idle_minds (hs.le hle)⟩
  | true =>
    obtain ⟨_, rfl⟩ := hdoes
    have hunlink : (s.unlink name).Consistent m ∧ Guar pid s (s.unlink name) := hi.unlink (hs _ List.mem_cons_self)
    obtain ⟨hi', hguar⟩ := hunlink
    exact ⟨hi', hguar, idle_minds ((hs.le hle).guar hguar)⟩

theorem readTrim_minds (h : Given tasks s) : Minds m pid (Stands m pid) (readTrim name tasks) s := by
  refine ask_minds Given.lasting h ?_
  intro s hi hs opened s' hdoes
  cases opened with
  | false =>
    obtain rfl : s' = s := hdoes
    exact ⟨hi, guar_refl pid _, idle_minds hs⟩
  | true =>
    obtain ⟨i, hentry, rfl⟩ := hdoes
    obtain ⟨hi', hguar, hreads⟩ : (s.openRead pid i).Consistent m ∧ Guar pid s (s.openRead pid i) ∧
        Reads m pid name [] i (s.openRead pid i) := hi.openRead hentry
    exact ⟨hi', hguar, stands_minds ⟨hs.guar hguar, i, hreads⟩⟩

theorem readToEnd_minds {got : List UInt8} (h : Stands m pid (.reading name got tasks) s) :
    Minds m pid (Stands m pid) (readToEnd name got tasks) s := by
  obtain ⟨hgiven, i, hreads⟩ := h
  have hlasting : Lasting m pid fun s => Given tasks s ∧ Reads m pid name got i s := Given.lasting.and Reads.lasting
  refine ask_minds hlasting ⟨hgiven, hreads⟩ ?_
  intro s hi hs tried s' hdoes
  cases tried with
  | got chunk =>
    obtain ⟨f, hf, hchunk, hend, rfl⟩ := hdoes
    obtain rfl := Option.some.inj (hf.symm.trans hs.2.handle)
    refine ⟨hi.opens _, guar_opens _, ?_⟩
    cases chunk with
    | nil =>
      have hstood : Stood m pid name got s := hs.2.whole (hend rfl)
      refine ask_minds (Given.lasting.and Stood.lasting) ⟨hs.1, hstood⟩ ?_
      intro s hi hs
      rintro ⟨⟩ _ rfl
      obtain ⟨hi', hguar⟩ := hi.answer hs.2
      exact ⟨hi', hguar, idle_minds (Given.guar hs.1 hguar)⟩
    | cons b chunk =>
      exact stands_minds ⟨hs.1, i, hs.2.more hchunk⟩
  | interrupted =>
    obtain rfl : s' = s := hdoes
    exact ⟨hi, guar_refl pid _, stands_minds ⟨hs.1, i, hs.2⟩⟩
  | failed =>
    obtain rfl : s' = s := hdoes
    exact ⟨hi, guar_refl pid _, close_minds hs.1⟩

/-- A round ends where the next one starts. -/
theorem round_minds {p : FileProg Stage} (h : Minds m pid (Stands m pid) p s) :
    Minds m pid (EndsAt (Stands m pid) fun (_ : Unit) _ => True) (do return .inl (← p)) s :=
  safe_bind (h.mono fun stage _ _ hs => safe_ret (Stands.lasting stage) hs fun _ _ hs => hs)

theorem body_minds (stage : Stage) (h : Stands m pid stage s) :
    Minds m pid (EndsAt (Stands m pid) fun _ _ => True) (body stage) s := by
  cases stage with
  | idle tasks =>
    cases tasks with
    | nil => exact fun _ _ _ => trivial
    | cons task tasks =>
      have hrest : Given tasks s := h.le fun t => List.mem_cons_of_mem _
      cases task with
      | write name value => exact round_minds (writeState_minds h)
      | remove name => exact round_minds (removeState_minds h)
      | read name => exact round_minds (readTrim_minds hrest)
  | writing name value rest tasks => exact round_minds (writeAll_minds h)
  | reading name got tasks => exact round_minds (readToEnd_minds h)

theorem device_sound (m : Texts) :
    Effect.Sound device (terms m) (Stands m) (fun _ _ _ => True) fun _ _ => True where
  body := fun pid stage s _ h => body_minds stage h
  born := by
    intro pid stage s s' hi _ hborn
    cases stage with
    | idle tasks =>
      obtain rfl : s' = { s with given := s.given ++ tasks } := hborn
      refine ⟨⟨hi.used, hi.single, hi.agrees, ?_, hi.answered⟩, { guar_refl pid s with given := ?_ }, ?_⟩
      · exact fun e he => List.mem_append_left _ (hi.asked e he)
      · exact fun t ht => List.mem_append_left _ ht
      · exact fun t ht => List.mem_append_right _ ht
    | writing => exact hborn.elim
    | reading => exact hborn.elim
  ended := by
    rintro pid _ s _ hi _ rfl
    exact ⟨hi.opens none, guar_opens none, trivial⟩
  killed := by
    rintro pid s _ hi rfl
    exact ⟨hi.opens none, guar_opens none, trivial⟩
  env := fun _ _ _ henv => henv.elim
  dead := fun _ _ _ _ _ => trivial

/-! ## Together -/

/-- A state directory before any process uses it, in whatever state earlier ones have left it: every
name has an inode of its own. -/
structure Store.Settled (s : Store) : Prop where
  used : ∀ path i, s.entry path = some i → i < s.next
  single : ∀ path path' i, s.entry path = some i → s.entry path' = some i → path = path'
  log : s.log = []
  answers : s.answers = []

theorem Store.Settled.consistent (h : s.Settled) : s.Consistent s.texts where
  used := h.used
  single := h.single
  agrees := by rw [h.log]; rfl
  asked := by simp [h.log]
  answered := by simp [h.answers]

/-- Any number of processes write, remove and read state files at once, in steps of any order, and
wherever they are killed: the names hold at every moment what the writes and removals that have come
through make of them one after the other, each with the whole of what some process was to write; and
whatever was read to its end is what the name held when it was opened, as a whole. -/
theorem files_atomic (hs : s.Settled) {c : Procs FileSig Stage Unit Store} (hc : device.Reach s c) :
    c.shared.texts = replay s.texts c.shared.log ∧
      (∀ e ∈ c.shared.log, e.task ∈ c.shared.given) ∧
      ∀ a ∈ c.shared.answers, a.before <+: c.shared.log ∧
        ∃ value, replay s.texts a.before a.name = some value ∧ a.text = trimmed value := by
  have hi := (hc.sound (device_sound s.texts) guar_refl hs.consistent fun _ => trivial).inv
  exact ⟨hi.agrees, hi.asked, hi.answered⟩

def phase : StateName := ⟨"phase".toList, by decide⟩

/-- `phase` says `i`. -/
def board : Store where
  entry := fun path => if path = phase.text then some 0 else none
  data := fun _ => [105]
  next := 1
  handle := fun _ => none
  log := []
  given := []
  opened := fun _ => []
  answers := []

theorem board_settled : board.Settled where
  used := by
    intro path i h
    simp only [board, Option.ite_none_right_eq_some, Option.some.injEq] at h ⊢
    omega
  single := by
    intro path path' i h h'
    simp only [board, Option.ite_none_right_eq_some] at h h'
    exact h.1.trans h'.1.symm
  log := rfl
  answers := rfl

/-- What one round of process `pid` makes of the files. -/
abbrev Turn (pid : Nat) (stage : Stage) (s : Store) (stage' : Stage) (s' : Store) : Prop :=
  Comes (device.does pid) (device.body stage) s (.ret (.inl stage')) s'

/-- Process 7 has opened `phase` when process 5 writes it, and reads on. -/
theorem overtaken : ∃ c, device.Reach board c ∧ c.shared.log = [.put phase [97]] ∧
    c.shared.answers = [⟨phase, [], trimmed [105]⟩] := by
  let s₁ : Store := { board with given := [.read phase] }
  have h₁ : device.Reach board ⟨s₁, Function.update _ 7 (some (device.body (.idle [.read phase])))⟩ :=
    .tail .refl (.born rfl rfl)
  let s₂ := s₁.openRead 7 0
  have r₂ : Turn 7 (.idle [.read phase]) s₁ (.reading phase [] []) s₂ := .op (a := true) ⟨0, rfl, rfl⟩ .here
  have h₂ := r₂.again h₁ rfl rfl
  let s₃ : Store := { s₂ with given := [.read phase, .write phase [97]] }
  have h₃ : device.Reach board ⟨s₃, Function.update _ 5 (some (device.body (.idle [.write phase [97]])))⟩ :=
    h₂.tail (.born rfl rfl)
  let s₄ := s₃.create 5 (temp phase 5)
  have r₄ : Turn 5 (.idle [.write phase [97]]) s₃ (.writing phase [97] [97] []) s₄ :=
    .op (a := true) rfl (.op (a := true) rfl .here)
  have h₄ := r₄.again h₃ rfl rfl
  let s₅ := s₄.write 5 ⟨1, 0⟩ [97]
  have r₅ : Turn 5 (.writing phase [97] [97] []) s₄ (.writing phase [97] [] []) s₅ :=
    .op (a := .got 1) ⟨le_rfl, ⟨1, 0⟩, rfl, rfl⟩ .here
  have h₅ := r₅.again h₄ rfl rfl
  let s₆ := (s₅.opens 5 none).rename (temp phase 5) 1 phase [97]
  have r₆ : Turn 5 (.writing phase [97] [] []) s₅ (.idle []) s₆ :=
    .op (a := ()) rfl (.op (a := true) ⟨1, rfl, rfl⟩ .here)
  have h₆ := r₆.again h₅ rfl rfl
  let s₇ := s₆.opens 7 (some ⟨0, 1⟩)
  have r₇ : Turn 7 (.reading phase [] []) s₆ (.reading phase [105] []) s₇ :=
    .op (a := .got [105]) ⟨⟨0, 0⟩, rfl, List.prefix_rfl, fun h => absurd h (List.cons_ne_nil _ _), rfl⟩ .here
  have h₇ := r₇.again h₆ rfl rfl
  let s₈ := (s₇.opens 7 (some ⟨0, 1⟩)).answer 7 phase (trimmed [105])
  have r₈ : Turn 7 (.reading phase [105] []) s₇ (.idle []) s₈ :=
    .op (a := .got []) ⟨⟨0, 1⟩, rfl, List.nil_prefix, fun _ => le_rfl, rfl⟩ (.op (a := ()) rfl .here)
  exact ⟨_, r₈.again h₇ rfl rfl, rfl, rfl⟩

/-- The reader has what stood there, and the name the new text. -/
theorem files_atomic_overtaken : ∃ c, device.Reach board c ∧
    c.shared.answers = [⟨phase, [], trimmed [105]⟩] ∧ c.shared.texts phase = some [97] := by
  obtain ⟨c, hreach, hlog, hanswers⟩ := overtaken
  refine ⟨c, hreach, hanswers, ?_⟩
  rw [(files_atomic board_settled hreach).1, hlog]
  rfl

end Nfqttl.StateFiles
