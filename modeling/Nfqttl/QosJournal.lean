/-
`qos.rs`: the journals as files of the state directory, and that a journal is read back
as it was written.

`write_journal` runs here over the files themselves. The name of a temporary file is
never that of a journal, so only the rename changes what `journals` finds.
-/
import Mathlib.Data.List.DropRight
import Nfqttl.ConfigFile
import Nfqttl.Lib.Text
import Nfqttl.QosTlv

namespace Nfqttl.Qos.Files

open Bytes Effect Netlink Text

/-! ## Names -/

def journalPath (iface : String) : String := "sqm." ++ iface ++ ".owned"

/-- A file name before its last dot, unless that is where it starts. -/
def fileStem (name : List Char) : List Char :=
  match splitOnce '.' name.reverse with
  | some (_, before) => if before = [] then name else before.reverse
  | none => name

def withExtension (name ext : String) : String := String.ofList (fileStem name.toList) ++ "." ++ ext

/-- The file `write_journal` writes before it has the name of a journal. -/
def tempPath (iface : String) : String := withExtension (journalPath iface) "tmp"

/-- The interface a file is the journal of, by its name. -/
def journalName (name : String) : Option String :=
  ((name.toList.dropPrefix? "sqm.".toList).bind fun s => s.dropSuffix? ".owned".toList).map String.ofList

/-! ## Texts -/

/-- What reading a file gives. -/
abbrev File := Except IoError (List Char)

def hex (b : List UInt8) : List Char := hexOfBytes b

def unhex (s : List Char) : Except (Stop IoError) (List UInt8) :=
  let len := (String.ofList s).utf8ByteSize
  if len > 2048 ∨ len % 2 ≠ 0 ∨ !s.all (·.toNat < 128) then throw (.err (bad "invalid SQM journal"))
  else (bytesOfHex s).elim (throw (.err (bad "invalid SQM journal"))) .ok

def journalText (index : Nat) (o : Options) : List Char :=
  Nat.toDigits 10 index ++ '\n' :: hex (encode o) ++ ['\n']

def readJournal (s : List Char) : Except (Stop IoError) Entry := do
  let l := lines s
  let idx ← (l[0]?.bind (parseUnsigned 32)).elim (throw (.err (bad "invalid SQM journal index"))) .ok
  let line ← l[1]?.elim (throw (.err (bad "short SQM journal"))) .ok
  let o ← attrs (← unhex line)
  return (idx, o)

/-- The journal in a file, if by its name it is one. -/
def journalOf (e : String × File) : Except (Stop IoError) (Option (String × Entry)) :=
  match journalName e.1 with
  | none => return none
  | some iface =>
    if !validIface iface.toList then throw (.err (bad "invalid SQM journal interface"))
    else do
      let s ← e.2.mapError .err
      let entry ← readJournal s
      return some (iface, entry)

def addJournal (out : OrdMap String Entry) (e : String × File) : Except (Stop IoError) (OrdMap String Entry) :=
  (journalOf e).map fun p => p.elim out fun p => out.insert p.1 p.2

/-- What a listing of the state directory gives, if there is one. -/
abbrev Listing := Option (Except IoError (List (Except IoError (String × File))))

def journals : Listing → Except (Stop IoError) (OrdMap String Entry)
  | none => .ok .empty
  | some es => do (← es.mapError .err).foldlM (fun out e => do addJournal out (← e.mapError .err)) .empty

/-! ## The state directory -/

/-- The files of the state directory, if there is one. -/
abbrev Dir := Option (OrdMap String File)

/-- A listing without an error shows every file, in any order. -/
def Lists : Dir → Listing → Prop
  | none, l => l = none
  | some fs, l => ∃ es : List (String × File), es.Perm fs.entries ∧ l = some (.ok (es.map .ok))

/-- `m` is what `journals` finds. -/
def Reads (d : Dir) (m : OrdMap String Entry) : Prop := ∀ l, Lists d l → journals l = .ok m

/-- What each operation may do to the files: its work, or, where it fails, what an
interrupted one leaves. -/
def sem : Sem QosSig Dir := fun op =>
  match op with
  | .journals => fun d a d' => d' = d ∧ ((∃ l, Lists d l ∧ journals l = a.mapError .err) ∨ ∃ e, a = .error e)
  | .roots => fun d _ d' => d' = d
  | .add _ _ => fun d _ d' => d' = d
  | .delete _ => fun d _ d' => d' = d
  | .ensureState => fun d a d' =>
    (a = .ok () ∧ d' = some (d.getD .empty)) ∨ ((∃ e, a = .error e) ∧ (d' = d ∨ d' = some (d.getD .empty)))
  | .writeTemp iface i o => fun d a d' =>
    (∃ fs, d = some fs ∧ a = .ok () ∧ d' = some (fs.insert (tempPath iface) (.ok (journalText i o)))) ∨
    ((∃ e, a = .error e) ∧ (d' = d ∨ ∃ fs f, d = some fs ∧ d' = some (fs.insert (tempPath iface) f)))
  | .rename iface => fun d a d' =>
    (∃ fs f, d = some fs ∧ fs.find (tempPath iface) = some f ∧ a = .ok () ∧
      d' = some ((fs.erase (tempPath iface)).insert (journalPath iface) f)) ∨
    ((∃ e, a = .error e) ∧ d' = d)
  | .removeFile iface => fun d a d' =>
    (∃ fs, d = some fs ∧ (fs.find (journalPath iface)).isSome ∧ a = .ok () ∧
      d' = some (fs.erase (journalPath iface))) ∨
    ((∃ e, a = .error e) ∧ d' = d)

/-! ## Names are told apart -/

theorem journalName_eq_some {n iface : String} : journalName n = some iface ↔ n = journalPath iface := by
  have hlist : n = journalPath iface ↔ n.toList = "sqm.".toList ++ (iface.toList ++ ".owned".toList) := by
    rw [← String.toList_inj, journalPath, String.toList_append, String.toList_append, List.append_assoc]
  rw [hlist, journalName]
  simp only [Option.map_eq_some_iff, Option.bind_eq_some_iff, List.dropPrefix?_eq_some_iff,
    List.dropSuffix?_eq_some_iff, beq_iff_eq]
  refine ⟨?_, ?_⟩
  · intro h
    obtain ⟨x, ⟨s, ⟨p, hn, rfl⟩, q, rfl, rfl⟩, rfl⟩ := h
    rw [String.toList_ofList (l := x), hn]
  · intro h
    exact ⟨iface.toList, ⟨_, ⟨_, h, rfl⟩, _, rfl, rfl⟩, String.ofList_toList ..⟩

@[simp] theorem journalName_journalPath (iface : String) : journalName (journalPath iface) = some iface :=
  journalName_eq_some.mpr rfl

theorem journalPath_injective : Function.Injective journalPath := by
  intro a b h
  exact Option.some.inj (by rw [← journalName_journalPath a, h, journalName_journalPath])

/-- Only the last extension is replaced, so an interface keeps its own dots. -/
theorem tempPath_eq (iface : String) : tempPath iface = "sqm." ++ iface ++ ".tmp" := by
  have hrev : (journalPath iface).toList.reverse =
      "denwo".toList ++ '.' :: (iface.toList.reverse ++ ".mqs".toList) := by
    rw [journalPath, String.toList_append, String.toList_append, List.reverse_append, List.reverse_append]
    rfl
  have hstem : fileStem (journalPath iface).toList = ("sqm." ++ iface).toList := by
    rw [fileStem, hrev, splitOnce_append (by decide)]
    simp
  rw [tempPath, withExtension, hstem, String.ofList_toList, String.append_assoc]
  rfl

/-- A temporary file is no journal. -/
@[simp] theorem journalName_tempPath (iface : String) : journalName (tempPath iface) = none := by
  refine Option.eq_none_iff_forall_ne_some.mpr ?_
  intro other h
  have hlast := congrArg (·.toList.reverse.head?) (journalName_eq_some.mp h)
  simp [tempPath_eq, journalPath] at hlast

theorem tempPath_ne_journalPath (iface other : String) : tempPath iface ≠ journalPath other := by
  intro h
  have := journalName_tempPath iface
  rw [h, journalName_journalPath] at this
  cases this

/-! ## Texts are read back -/

/-- The check of the characters changes nothing: only digits and signs are read. -/
theorem unhex_eq (s : List Char) :
    unhex s = if s.length ≤ 2048 then (bytesOfHex s).elim (throw (.err (bad "invalid SQM journal"))) .ok
      else throw (.err (bad "invalid SQM journal")) := by
  rw [unhex]
  cases hb : bytesOfHex s with
  | none => simp
  | some b =>
    have hascii := bytesOfHex_ascii hb
    have hall : s.all (·.toNat < 128) = true := List.all_eq_true.mpr fun c hc => decide_eq_true (hascii c hc)
    have heven : s.length % 2 = 0 := ((bytesOfHex_isSome s).mp (hb ▸ rfl)).1
    have hcond : s.length > 2048 ∨ s.length % 2 ≠ 0 ∨ (!true) = true ↔ ¬ s.length ≤ 2048 := by simp [heven]
    simp only [utf8ByteSize_ascii hascii, hall, hcond, ite_not]

theorem unhex_eq_ok {s : List Char} {b : List UInt8} : unhex s = .ok b ↔ s.length ≤ 2048 ∧ bytesOfHex s = some b := by
  rw [unhex_eq]
  by_cases hlen : s.length ≤ 2048
  · cases hb : bytesOfHex s <;> simp [hlen, throw, throwThe, MonadExceptOf.throw]
  · simp [hlen, throw, throwThe, MonadExceptOf.throw]

theorem unhex_hex {b : List UInt8} (h : b.length ≤ 1024) : unhex (hex b) = .ok b := by
  refine unhex_eq_ok.mpr ⟨?_, bytesOfHex_hexOfBytes b⟩
  rw [hex, length_hexOfBytes]
  omega

theorem attrs_encode_short {o : Options} (hkeys : ∀ k ∈ o.keys, k < 0x4000) (hlen : (encode o).length ≤ 1024) :
    attrs (encode o) = .ok o := by
  refine attrs_encode hkeys ?_
  intro e he
  have hle := length_le_tlvs he
  rw [encode_eq] at hlen
  omega

theorem journalText_eq (index : Nat) (o : Options) :
    journalText index o = unlines [Nat.toDigits 10 index, hex (encode o)] := by
  simp [journalText, unlines]

theorem lines_journalText (index : Nat) (o : Options) :
    lines (journalText index o) = [Nat.toDigits 10 index, hex (encode o)] := by
  rw [journalText_eq]
  refine lines_unlines_visible ?_
  intro l hl c hc
  rcases List.mem_pair.mp hl with rfl | rfl
  · exact isSpace_toDigits hc
  · exact (hexOfBytes_ascii hc).1

theorem readJournal_journalText {index : Nat} (hindex : index < 2 ^ 32) {o : Options}
    (hkeys : ∀ k ∈ o.keys, k < 0x4000) (hlen : (encode o).length ≤ 1024) :
    readJournal (journalText index o) = .ok (index, o) := by
  rw [readJournal, lines_journalText]
  simp only [List.getElem?_cons_zero, List.getElem?_cons_succ, Option.bind_some, Option.elim_some,
    parseUnsigned_toDigits hindex, ok_bind, unhex_hex hlen, attrs_encode_short hkeys hlen]
  rfl

/-! ## What `journals` finds -/

/-- The journal in a file, unless there is none or it is not valid. -/
def journalIn (e : String × File) : Option (String × Entry) := (journalOf e).toOption.join

/-- The journals among the files of a listing. -/
def found (es : List (String × File)) : List (String × Entry) := es.filterMap journalIn

theorem journalIn_eq_some {e : String × File} {p : String × Entry} :
    journalIn e = some p ↔ journalOf e = .ok (some p) := by
  rw [journalIn]
  cases journalOf e <;> simp [Except.toOption]

theorem journalOf_none {e : String × File} (h : journalName e.1 = none) : journalOf e = .ok none := by
  rw [journalOf, h]
  rfl

theorem journalOf_journalPath {iface : String} (hiface : validIface iface.toList = true) {s : List Char}
    {entry : Entry} (h : readJournal s = .ok entry) :
    journalOf (journalPath iface, .ok s) = .ok (some (iface, entry)) := by
  rw [journalOf, journalName_journalPath]
  simp only [hiface, Bool.not_true, Bool.false_eq_true, if_false, Except.mapError, ok_bind, h]
  rfl

/-- A journal that is found stands under its own name. -/
theorem name_of_journalOf {e : String × File} {p : String × Entry} (h : journalOf e = .ok (some p)) :
    e.1 = journalPath p.1 := by
  rw [journalOf] at h
  cases hn : journalName e.1 with
  | none =>
    rw [hn] at h
    cases h
  | some iface =>
    simp only [hn] at h
    split at h
    · cases h
    · obtain ⟨s, -, h⟩ := bind_eq_ok.mp h
      obtain ⟨entry, -, h⟩ := bind_eq_ok.mp h
      cases h
      exact journalName_eq_some.mp hn

theorem collect_ok {es : List (String × File)} {out m : OrdMap String Entry} :
    es.foldlM addJournal out = .ok m ↔ (∀ e ∈ es, ∃ p, journalOf e = .ok p) ∧ m = out.insertAll (found es) := by
  induction es generalizing out with
  | nil => simp [found, OrdMap.insertAll, pure, Except.pure, eq_comm]
  | cons e es ih =>
    rw [List.foldlM_cons, addJournal, List.forall_mem_cons]
    cases h : journalOf e with
    | error x => simp [Except.map, bind, Except.bind]
    | ok p =>
      have hstep : found (e :: es) = p.toList ++ found es := by
        have hp : journalIn e = p := by simp [journalIn, h, Except.toOption]
        rw [found, List.filterMap_cons, hp]
        cases p <;> rfl
      simp only [Except.map, ok_bind, ih, hstep]
      cases p <;> simp [OrdMap.insertAll]

theorem mem_found {es : List (String × File)} {p : String × Entry} :
    p ∈ found es ↔ ∃ e ∈ es, journalOf e = .ok (some p) := by
  simp only [found, List.mem_filterMap, journalIn_eq_some]

theorem found_sublist (es : List (String × File)) :
    ((found es).map fun p => journalPath p.1).Sublist (es.map (·.1)) := by
  induction es with
  | nil => exact .slnil
  | cons e es ih =>
    cases h : journalIn e with
    | none =>
      rw [found, List.filterMap_cons_none h]
      exact ih.cons _
    | some p =>
      have hname := name_of_journalOf (journalIn_eq_some.mp h)
      rw [found, List.filterMap_cons_some h, List.map_cons, List.map_cons, hname]
      exact ih.cons_cons _

/-- The files of the directory are no journals or valid ones, and `m` has the entries of
these. -/
structure Holds (fs : OrdMap String File) (m : OrdMap String Entry) : Prop where
  valid : ∀ n f, fs.find n = some f → ∃ p, journalOf (n, f) = .ok p
  entry : ∀ iface e, m.find iface = some e ↔
    ∃ f, fs.find (journalPath iface) = some f ∧ journalOf (journalPath iface, f) = .ok (some (iface, e))

/-- The order of a listing does not matter. -/
theorem journals_iff {fs : OrdMap String File} {m : OrdMap String Entry} {l : Listing} (h : Lists (some fs) l) :
    journals l = .ok m ↔ Holds fs m := by
  obtain ⟨es, hperm, rfl⟩ := h
  have hmem : ∀ n f, (n, f) ∈ es ↔ fs.find n = some f := fun n f => hperm.mem_iff.trans OrdMap.mem_entries
  have hnodup : ((found es).map (·.1)).Nodup := by
    have hnames : (es.map (·.1)).Nodup := (hperm.map _).nodup_iff.mpr fs.nodup_keys
    exact .of_map journalPath (by simpa [List.map_map, Function.comp_def] using (found_sublist es).nodup hnames)
  have hfound : ∀ iface e, (iface, e) ∈ found es ↔
      ∃ f, fs.find (journalPath iface) = some f ∧ journalOf (journalPath iface, f) = .ok (some (iface, e)) := by
    intro iface e
    rw [mem_found]
    refine ⟨?_, ?_⟩
    · intro h
      obtain ⟨⟨n, f⟩, hf, hj⟩ := h
      obtain rfl : n = journalPath iface := name_of_journalOf hj
      exact ⟨f, (hmem _ _).mp hf, hj⟩
    · intro h
      obtain ⟨f, hf, hj⟩ := h
      exact ⟨_, (hmem _ _).mpr hf, hj⟩
  have hrun : journals (some (.ok (es.map .ok))) = es.foldlM addJournal .empty := by
    change (es.map Except.ok).foldlM _ _ = _
    rw [List.foldlM_map]
    rfl
  rw [hrun, collect_ok]
  refine ⟨?_, ?_⟩
  · intro h
    obtain ⟨hvalid, rfl⟩ := h
    refine ⟨fun n f hf => hvalid _ ((hmem n f).mpr hf), ?_⟩
    intro iface e
    rw [← hfound, OrdMap.find_insertAll hnodup]
    simp
  · intro h
    refine ⟨?_, OrdMap.ext ?_⟩
    · intro e he
      exact h.valid e.1 e.2 ((hmem _ _).mp he)
    · intro iface
      refine Option.ext ?_
      intro e
      rw [h.entry, ← hfound, OrdMap.find_insertAll hnodup]
      simp

theorem reads_iff {d : Dir} {m : OrdMap String Entry} : Reads d m ↔ Holds (d.getD .empty) m := by
  cases d with
  | none =>
    refine ⟨?_, ?_⟩
    · intro h
      obtain rfl : OrdMap.empty = m := Except.ok.inj (h none rfl)
      exact ⟨by simp, by simp⟩
    · intro h l hl
      have hm : m = .empty := OrdMap.ext fun iface => Option.ext fun e => by simp [h.entry]
      rw [hm, show l = none from hl]
      rfl
  | some fs =>
    refine ⟨?_, ?_⟩
    · intro h
      have hl : Lists (some fs) (some (.ok (fs.entries.map .ok))) := ⟨_, .refl _, rfl⟩
      exact (journals_iff hl).mp (h _ hl)
    · intro h l hl
      exact (journals_iff hl).mpr h

/-! ## Writing a journal -/

/-- Files that are no journals do not matter. -/
theorem Holds.congr {fs fs' : OrdMap String File} {m : OrdMap String Entry} (h : Holds fs m)
    (hsame : ∀ n, journalName n ≠ none → fs'.find n = fs.find n) : Holds fs' m := by
  refine ⟨?_, ?_⟩
  · intro n f hf
    by_cases hn : journalName n = none
    · exact ⟨none, journalOf_none hn⟩
    · exact h.valid n f (hsame n hn ▸ hf)
  · intro iface e
    rw [hsame (journalPath iface) (by simp)]
    exact h.entry iface e

theorem Holds.temp {fs : OrdMap String File} {m : OrdMap String Entry} (h : Holds fs m) (iface : String) (f : File) :
    Holds (fs.insert (tempPath iface) f) m := by
  refine h.congr ?_
  intro n hn
  have hne : n ≠ tempPath iface := fun heq => hn (heq ▸ journalName_tempPath iface)
  exact OrdMap.find_insert_ne _ _ hne

theorem Holds.eraseTemp {fs : OrdMap String File} {m : OrdMap String Entry} (h : Holds fs m) (iface : String) :
    Holds (fs.erase (tempPath iface)) m := by
  refine h.congr ?_
  intro n hn
  have hne : n ≠ tempPath iface := fun heq => hn (heq ▸ journalName_tempPath iface)
  rw [OrdMap.find_erase, if_neg hne]

/-- A valid journal takes the place of the one before it and of no other. -/
theorem Holds.journal {fs : OrdMap String File} {m : OrdMap String Entry} (h : Holds fs m) {iface : String}
    (hiface : validIface iface.toList = true) {s : List Char} {e : Entry} (hs : readJournal s = .ok e) :
    Holds (fs.insert (journalPath iface) (.ok s)) (m.insert iface e) := by
  have hok := journalOf_journalPath hiface hs
  refine ⟨?_, ?_⟩
  · intro n f hf
    rw [OrdMap.find_insert] at hf
    split at hf
    · next hn =>
      cases hf
      exact ⟨_, hn ▸ hok⟩
    · exact h.valid n f hf
  · intro other e'
    rw [OrdMap.find_insert, OrdMap.find_insert]
    by_cases ho : other = iface
    · subst ho
      simp [hok]
    · have hp : journalPath other ≠ journalPath iface := fun heq => ho (journalPath_injective heq)
      rw [if_neg ho, if_neg hp]
      exact h.entry other e'

section run
variable {d : Dir} {m : OrdMap String Entry} {iface : String} {index : Nat} {o : Options}

/-- Each step leaves the former entries or, from the rename on, these and the new one. -/
theorem keeps_writeJournal (hd : Holds (d.getD .empty) m) (hiface : validIface iface.toList = true)
    (hread : readJournal (journalText index o) = .ok (index, o)) :
    KeepsE sem (fun d' => Holds (d'.getD .empty) m ∨ Holds (d'.getD .empty) (m.insert iface (index, o)))
      (fun _ d' => Holds (d'.getD .empty) (m.insert iface (index, o))) (fun _ d' => Holds (d'.getD .empty) m)
      (writeJournal iface index o) d := by
  unfold writeJournal
  refine keepsE_bind.mpr ⟨.inl hd, ?_⟩
  intro a d₁ h
  rcases h with ⟨rfl, rfl⟩ | ⟨⟨e, rfl⟩, hd₁⟩
  case inr =>
    have hd₁ : Holds (d₁.getD .empty) m := by rcases hd₁ with rfl | rfl <;> exact hd
    exact ⟨.inl hd₁, hd₁⟩
  refine ⟨.inl hd, keepsE_bind.mpr ⟨.inl hd, ?_⟩⟩
  intro a d₂ h
  rcases h with ⟨fs, hfs, rfl, rfl⟩ | ⟨⟨e, rfl⟩, hd₂⟩
  case inr =>
    have hd₂ : Holds (d₂.getD .empty) m := by
      rcases hd₂ with rfl | ⟨fs, f, hfs, rfl⟩
      · exact hd
      · cases hfs
        exact hd.temp iface f
    exact ⟨.inl hd₂, hd₂⟩
  cases hfs
  have htemp := hd.temp iface (.ok (journalText index o))
  refine ⟨.inl htemp, .inl htemp, ?_⟩
  intro a d₃ h
  rcases h with ⟨fs, f, hfs, hf, rfl, rfl⟩ | ⟨⟨e, rfl⟩, rfl⟩
  · cases hfs
    obtain rfl : .ok (journalText index o) = f := by simpa using hf
    have hnew := (htemp.eraseTemp iface).journal hiface hread
    exact ⟨.inr hnew, hnew⟩
  · exact ⟨.inl htemp, htemp⟩

/-- Nothing keeps the three steps from being done. -/
theorem runs_writeJournal (d : Dir) (iface : String) (index : Nat) (o : Options) :
    ∃ d', Runs sem (writeJournal iface index o).run d (.ok ()) d' := by
  have hensure : sem .ensureState d (.ok ()) (some (d.getD .empty)) := .inl ⟨rfl, rfl⟩
  have hwrite : sem (.writeTemp iface index o) (some (d.getD .empty)) (.ok ())
      (some ((d.getD .empty).insert (tempPath iface) (.ok (journalText index o)))) := .inl ⟨_, rfl, rfl, rfl⟩
  have hrename : sem (.rename iface) (some ((d.getD .empty).insert (tempPath iface) (.ok (journalText index o))))
      (.ok ()) _ := .inl ⟨_, _, rfl, OrdMap.find_insert_self _ _ _, rfl, rfl⟩
  exact ⟨_, .op hensure (.op hwrite (.op hrename .ret))⟩

/-- A journal is read back as it was written, beside the entries of all other interfaces.
A run that fails or is cut short leaves the former entries, unless the new journal is in
place. No file of an interface has the name of another's journal, and no temporary file
is read as one. -/
theorem writeJournal_readBack (hd : Reads d m) (hiface : validIface iface.toList = true) (hindex : index < 2 ^ 32)
    (hkeys : ∀ k ∈ o.keys, k < 0x4000) (hlen : (encode o).length ≤ 1024) :
    (∃ d', Runs sem (writeJournal iface index o).run d (.ok ()) d') ∧
    (∀ d', Runs sem (writeJournal iface index o).run d (.ok ()) d' → Reads d' (m.insert iface (index, o))) ∧
    (∀ e d', Runs sem (writeJournal iface index o).run d (.error e) d' → Reads d' m) ∧
    (∀ d', Visits sem (writeJournal iface index o).run d d' → Reads d' m ∨ Reads d' (m.insert iface (index, o))) ∧
    (∀ a b, a ≠ b → journalPath a ≠ journalPath b ∧ tempPath a ≠ journalPath b) ∧
    ∀ fs other f, Reads (some fs) m → Reads (some (fs.insert (tempPath other) f)) m := by
  have hkeeps := keeps_writeJournal (reads_iff.mp hd) hiface (readJournal_journalText hindex hkeys hlen)
  simp only [reads_iff]
  refine ⟨runs_writeJournal d iface index o, ?_, ?_, ?_, ?_, ?_⟩
  · intro d' h
    exact hkeeps.runs h
  · intro e d' h
    exact hkeeps.runs h
  · intro d' h
    exact hkeeps.visits h
  · intro a b hab
    exact ⟨fun heq => hab (journalPath_injective heq), tempPath_ne_journalPath a b⟩
  · intro fs other f h
    exact h.temp other f

end run

/-- The journal of an interface beside one whose name starts with its own. -/
theorem writeJournal_readBack_dotted :
    let o : Options := OrdMap.empty.insert 5 [3, 0, 0, 0]
    let fs : OrdMap String File := OrdMap.empty.insert (journalPath "eth0") (.ok (journalText 2 o))
    ∃ d', Runs sem (writeJournal "eth0.1-a:b" 7 o).run (some fs) (.ok ()) d' ∧
      Reads d' ((OrdMap.empty.insert "eth0" (2, o)).insert "eth0.1-a:b" (7, o)) := by
  intro o fs
  have hnone : Reads none .empty := by
    intro l hl
    obtain rfl : l = none := hl
    rfl
  have hread : readJournal (journalText 2 o) = .ok (2, o) :=
    readJournal_journalText (by decide) (by decide) (by decide)
  have hfs : Reads (some fs) (OrdMap.empty.insert "eth0" (2, o)) :=
    reads_iff.mpr ((reads_iff.mp hnone).journal (by decide) hread)
  have hiface : validIface "eth0.1-a:b".toList = true := by decide
  have hindex : 7 < 2 ^ 32 := by decide
  obtain ⟨⟨d', hrun⟩, hok, -⟩ := writeJournal_readBack hfs hiface hindex (by decide : ∀ k ∈ o.keys, k < 0x4000)
    (by decide : (encode o).length ≤ 1024)
  exact ⟨d', hrun, hok d' hrun⟩

/-! ## What is taken for hexadecimal -/

/-- Pairs of hexadecimal digits, at most 1024. -/
def IsHex (s : List Char) : Prop := s.length % 2 = 0 ∧ s.length ≤ 2048 ∧ ∀ c ∈ s, (hexDigit c).isSome

/-- A string like these where digits that start a pair are replaced by plus signs. -/
def IsSigned (s : List Char) : Prop :=
  s.length % 2 = 0 ∧ s.length ≤ 2048 ∧ '+' ∈ s ∧ ∀ p ∈ pairs s, IsHexPair p

/-- The string is read if it is hexadecimal, and then it is what is written for its bytes,
in lower case. -/
structure ReadsHex (s : List Char) : Prop where
  accepts : (∃ b, unhex s = .ok b) ↔ IsHex s
  written : ∀ b, unhex s = .ok b → hex b = s.map Char.toLower
  rejects : ¬ IsHex s → unhex s = .error (.err (bad "invalid SQM journal"))

theorem unhex_accepts {s : List Char} :
    (∃ b, unhex s = .ok b) ↔ s.length % 2 = 0 ∧ s.length ≤ 2048 ∧ ∀ p ∈ pairs s, IsHexPair p := by
  simp only [unhex_eq_ok, exists_and_left, ← Option.isSome_iff_exists, bytesOfHex_isSome]
  exact and_left_comm

theorem unhex_rejects {s : List Char} (h : ¬ ∃ b, unhex s = .ok b) :
    unhex s = .error (.err (bad "invalid SQM journal")) := by
  rw [unhex_eq] at h ⊢
  by_cases hlen : s.length ≤ 2048
  · cases hb : bytesOfHex s with
    | none =>
      rw [if_pos hlen]
      rfl
    | some b => exact absurd ⟨b, by rw [if_pos hlen, hb]; rfl⟩ h
  · rw [if_neg hlen]
    rfl

/-- Without a sign the pairs that are read are pairs of digits. -/
theorem isHex_iff {s : List Char} (hs : '+' ∉ s) : IsHex s ↔ ∃ b, unhex s = .ok b := by
  rw [unhex_accepts, IsHex]
  refine and_congr_right ?_
  intro heven
  refine and_congr_right ?_
  intro _
  have hno := (forall_pairs (P := fun c => c ≠ '+') heven).mp fun c hc heq => hs (heq ▸ hc)
  rw [forall_pairs heven]
  refine forall₂_congr ?_
  intro p hp
  rw [IsHexPair, or_iff_right (hno p hp).1]

/-- What is read is hexadecimal digits, unless a plus sign stands for one. -/
theorem readsHex_iff (s : List Char) : ReadsHex s ↔ ¬ IsSigned s := by
  refine ⟨?_, ?_⟩
  · intro h hsigned
    obtain ⟨heven, hlen, hplus, hpairs⟩ := hsigned
    have hhex : IsHex s := h.accepts.mp (unhex_accepts.mpr ⟨heven, hlen, hpairs⟩)
    exact absurd (hhex.2.2 '+' hplus) (by decide)
  · intro hsigned
    by_cases hplus : '+' ∈ s
    · have hno : ¬ ∃ b, unhex s = .ok b := by
        intro h
        obtain ⟨heven, hlen, hpairs⟩ := unhex_accepts.mp h
        exact hsigned ⟨heven, hlen, hplus, hpairs⟩
      have hhex : ¬ IsHex s := fun h => absurd (h.2.2 '+' hplus) (by decide)
      exact ⟨iff_of_false hno hhex, fun b hb => absurd ⟨b, hb⟩ hno, fun _ => unhex_rejects hno⟩
    · refine ⟨(isHex_iff hplus).symm, ?_, ?_⟩
      · intro b hb
        exact hexOfBytes_bytesOfHex (unhex_eq_ok.mp hb).2 hplus
      · intro h
        exact unhex_rejects (mt (isHex_iff hplus).mpr h)

/-- A sign and a digit are read as a byte. -/
theorem unhex_sign : unhex "+a".toList = .ok [10] ∧ ¬ ReadsHex "+a".toList := by
  refine ⟨unhex_eq_ok.mpr ⟨by decide, by decide⟩, ?_⟩
  rw [readsHex_iff, not_not]
  exact ⟨by decide, by decide, by decide, by decide⟩

end Nfqttl.Qos.Files
