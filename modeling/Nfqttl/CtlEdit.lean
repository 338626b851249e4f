/-
`configure` edits exactly the requested settings.

The rewrite looks at the lines as they are, the reader at the trimmed ones; both find
the same key in a line. So each line of the new text is one of the old, or assigns a
requested setting, and the checker's rule against duplicates leaves one such line each.
-/
import Nfqttl.ConfigLoad
import Nfqttl.CtlRun

namespace Nfqttl.Ctl

open Effect Text

/-! ## Lines and keys -/

/-- The key of a line, for the rewrite. -/
def keyOf (line : List Char) : Option (List Char) := (splitOnce '=' line).map fun p => trim p.1

theorem unquote_trimEnd (v : List Char) : unquote (trimEnd v) = unquote v := by
  simp only [unquote, trim_trimEnd]

theorem mem_of_validKey {k : List Char} (h : validKey k = true) {c : Char} (hc : c ∈ k) :
    c ≠ '#' ∧ c ≠ '=' ∧ c ≠ '\n' ∧ isSpace c = false := by
  simp only [validKey, Bool.and_eq_true, List.all_eq_true, Bool.or_eq_true, beq_iff_eq] at h
  have hrange : 48 ≤ c.toNat ∧ c.toNat ≤ 95 ∧ c.toNat ≠ 61 := by
    rcases h.2 c hc with (h | h) | h
    · have hc : c.val ≥ 65 ∧ c.val ≤ 90 := of_decide_eq_true h
      have h₁ : 65 ≤ c.toNat := UInt32.le_iff_toNat_le.mp hc.1
      have h₂ : c.toNat ≤ 90 := UInt32.le_iff_toNat_le.mp hc.2
      omega
    · subst h
      decide
    · simp only [Char.isDigit, Bool.and_eq_true, decide_eq_true_eq, UInt32.le_iff_toNat_le] at h
      have h₁ : 48 ≤ c.toNat := h.1
      have h₂ : c.toNat ≤ 57 := h.2
      omega
  obtain ⟨hlo, hhi, hne⟩ := hrange
  refine ⟨?_, ?_, ?_, ?_⟩
  · rintro rfl
    exact absurd hlo (by decide)
  · rintro rfl
    exact hne (by decide)
  · rintro rfl
    exact absurd hlo (by decide)
  · simp only [isSpace, decide_eq_false_iff_not]
    omega

/-- A valid key in a line is assigned there: the line is no comment. -/
theorem parse_of_split {raw k key v : List Char} (hs : splitOnce '=' raw = some (key, v)) (hk : trim key = k)
    (hvalid : validKey k = true) : Line.parse raw = .assign k (unquote v) := by
  have hsplit : splitOnce '=' (trim raw) = some (trimStart key, trimEnd v) := by
    rw [splitOnce_trim (by decide), hs]
    rfl
  obtain ⟨htrim, -⟩ := splitOnce_some hsplit
  have hhead : (trim raw).isEmpty = false ∧ (trim raw).head? ≠ some '#' := by
    rw [htrim]
    cases hstart : trimStart key with
    | nil => exact ⟨rfl, by simp⟩
    | cons c rest =>
      refine ⟨rfl, fun hc => ?_⟩
      obtain rfl : c = '#' := by simpa using hc
      have hmem : '#' ∈ trim key := by
        rw [trim, hstart, trimEnd_cons, if_neg fun h => absurd h.1 (by decide)]
        exact List.mem_cons_self ..
      exact (mem_of_validKey hvalid (hk ▸ hmem)).1 rfl
  rw [Line.parse, hsplit]
  simp only [hhead.1, Bool.false_or, beq_iff_eq, hhead.2, if_false, trim_trimStart, hk, unquote_trimEnd]

theorem parse_assignment {k : List Char} (hk : validKey k = true) (v : List Char) :
    Line.parse (k ++ '=' :: v) = .assign k (unquote v) := by
  refine parse_of_split (splitOnce_append (fun hmem => ?_) v) (trim_eq_self fun c hc => ?_) hk
  · exact (mem_of_validKey hk hmem).2.1 rfl
  · exact (mem_of_validKey hk hc).2.2.2

@[simp] theorem parse_stripCr (raw : List Char) : Line.parse (stripCr raw) = Line.parse raw := by
  simp only [Line.parse, trim_stripCr]

theorem assignmentsOf_stripCr (ls : List (List Char)) : assignmentsOf (ls.map stripCr) = assignmentsOf ls := by
  simp only [assignmentsOf, List.filterMap_map, Function.comp_def, parse_stripCr]

/-- Of lines without newlines the written text assigns what they assign. -/
theorem assignments_unlines {ls : List (List Char)} (h : ∀ l ∈ ls, '\n' ∉ l) :
    assignments (unlines ls) = assignmentsOf ls := by
  rw [assignments, lines_unlines h, assignmentsOf_stripCr]

/-! ## The rewrite, line by line -/

/-- A line of the old text as the rewrite leaves it, and the settings left after it. -/
def editLine (entries : Entries) (line : List Char) : List Char × Entries :=
  match (keyOf line).bind fun k => (entries.find k).map (k, ·) with
  | some (k, v) => (k ++ '=' :: v, entries.erase k)
  | none => (line, entries)

def editLines (entries : Entries) : List (List Char) → List (List Char)
  | [] => entries.entries.map fun (k, v) => k ++ '=' :: v
  | line :: ls => (editLine entries line).1 :: editLines (editLine entries line).2 ls

theorem rewriteLine_eq (text : List Char) (entries : Entries) (line : List Char) :
    rewriteLine (text, entries) line =
      (text ++ ((editLine entries line).1 ++ ['\n']), (editLine entries line).2) := by
  rw [rewriteLine, editLine, keyOf]
  cases hs : splitOnce '=' line with
  | none => rfl
  | some p =>
    cases hf : entries.find (trim p.1) with
    | none => simp [hf]
    | some v => simp [hf, assignment]

theorem rewrite_eq (old : List Char) (entries : Entries) :
    rewrite old entries = unlines (editLines entries (lines old)) := by
  have hrest : ∀ (l : List (List Char × List Char)) text,
      l.foldl (fun text (k, v) => text ++ assignment k v) text =
        text ++ unlines (l.map fun (k, v) => k ++ '=' :: v) := by
    intro l
    induction l with
    | nil => simp [unlines]
    | cons e l ih =>
      intro text
      rw [List.foldl_cons, ih]
      simp [unlines, assignment]
  have hlines : ∀ (ls : List (List Char)) text (es : Entries),
      ((ls.foldl rewriteLine (text, es)).2.entries.foldl (fun text (k, v) => text ++ assignment k v)
        (ls.foldl rewriteLine (text, es)).1) = text ++ unlines (editLines es ls) := by
    intro ls
    induction ls with
    | nil =>
      intro text es
      exact hrest es.entries text
    | cons line ls ih =>
      intro text es
      rw [List.foldl_cons, rewriteLine_eq, ih, editLines]
      simp [unlines]
  exact hlines (lines old) [] entries

/-- The keys a request names, all of them valid, and values without newlines. -/
structure Requests (entries : Entries) : Prop where
  keys : ∀ k v, entries.find k = some v → validKey k = true
  values : ∀ k v, entries.find k = some v → '\n' ∉ v

/-- The line assigns none of the keys. -/
def untouched (keys : List (List Char)) (raw : List Char) : Bool :=
  match Line.parse raw with
  | .assign k _ => !keys.contains k
  | _ => true

theorem Requests.erase {entries : Entries} (h : Requests entries) (k : List Char) : Requests (entries.erase k) :=
  ⟨fun k' v hv => h.keys k' v (OrdMap.find_of_erase hv), fun k' v hv => h.values k' v (OrdMap.find_of_erase hv)⟩

/-- A line is left as it is, or one with a requested key is replaced. -/
theorem editLine_cases (entries : Entries) (line : List Char) :
    (editLine entries line = (line, entries) ∧ ∀ k, keyOf line = some k → entries.find k = none) ∨
      ∃ k v, keyOf line = some k ∧ entries.find k = some v ∧
        editLine entries line = (k ++ '=' :: v, entries.erase k) := by
  rw [editLine]
  cases hk : keyOf line with
  | none => exact .inl ⟨rfl, fun k hk => by cases hk⟩
  | some k =>
    cases hf : entries.find k with
    | none =>
      refine .inl ⟨by simp [hf], fun k' hk' => ?_⟩
      cases hk'
      exact hf
    | some v => exact .inr ⟨k, v, rfl, hf, by simp [hf]⟩

variable {entries : Entries} {ls : List (List Char)}

/-- Each setting left is written. -/
theorem mem_editLines (h : Requests entries) {k v : List Char} (hkv : entries.find k = some v) :
    (k, unquote v) ∈ assignmentsOf (editLines entries ls) := by
  induction ls generalizing entries with
  | nil =>
    refine List.mem_filterMap.mpr ⟨k ++ '=' :: v, List.mem_map.mpr ⟨(k, v), OrdMap.mem_entries.mpr hkv, rfl⟩, ?_⟩
    rw [parse_assignment (h.keys k v hkv)]
  | cons line ls ih =>
    rw [editLines]
    rcases editLine_cases entries line with ⟨heq, -⟩ | ⟨k', v', -, hf, heq⟩
    · rw [heq]
      obtain ⟨raw, hraw, hp⟩ := List.mem_filterMap.mp (ih h hkv)
      exact List.mem_filterMap.mpr ⟨raw, List.mem_cons_of_mem _ hraw, hp⟩
    · rw [heq]
      by_cases hk : k = k'
      · subst hk
        rw [hkv] at hf
        cases hf
        rw [assignmentsOf_assign (parse_assignment (h.keys k v hkv) v)]
        exact List.mem_cons_self ..
      · have hleft : (entries.erase k').find k = some v := by rw [OrdMap.find_erase, if_neg hk, hkv]
        rw [assignmentsOf_assign (parse_assignment (h.keys k' v' hf) v')]
        exact List.mem_cons_of_mem _ (ih (h.erase k') hleft)

/-- The other lines stay, in order. -/
theorem editLines_untouched (h : Requests entries) {keys : List (List Char)}
    (hkeys : ∀ k v, entries.find k = some v → k ∈ keys) :
    (editLines entries ls).filter (untouched keys) = ls.filter (untouched keys) := by
  have hwritten : ∀ {es : Entries}, Requests es → (∀ k v, es.find k = some v → k ∈ keys) → ∀ k v,
      es.find k = some v → untouched keys (k ++ '=' :: v) = false := by
    intro es hes hin k v hkv
    rw [untouched, parse_assignment (hes.keys k v hkv)]
    simp [hin k v hkv]
  induction ls generalizing entries with
  | nil =>
    rw [editLines, List.filter_nil, List.filter_eq_nil_iff]
    intro raw hraw
    obtain ⟨⟨k, v⟩, hmem, rfl⟩ := List.mem_map.mp hraw
    rw [hwritten h hkeys k v (OrdMap.mem_entries.mp hmem)]
    exact Bool.false_ne_true
  | cons line ls ih =>
    rw [editLines]
    rcases editLine_cases entries line with ⟨heq, -⟩ | ⟨k, v, hk, hf, heq⟩
    · rw [heq, List.filter_cons, List.filter_cons, ih h hkeys]
    · obtain ⟨p, hs, rfl⟩ := Option.map_eq_some_iff.mp hk
      have hold : untouched keys line = false := by
        rw [untouched, parse_of_split hs rfl (h.keys _ v hf)]
        simp [hkeys _ v hf]
      rw [heq, List.filter_cons, List.filter_cons, hold, hwritten h hkeys _ v hf, if_neg Bool.false_ne_true,
        if_neg Bool.false_ne_true, ih (h.erase _) fun k' v' hkv => hkeys k' v' (OrdMap.find_of_erase hkv)]

theorem newline_notMem_editLines (h : Requests entries) (hls : ∀ l ∈ ls, '\n' ∉ l) :
    ∀ l ∈ editLines entries ls, '\n' ∉ l := by
  have hwritten : ∀ {es : Entries}, Requests es → ∀ k v, es.find k = some v → '\n' ∉ k ++ '=' :: v := by
    intro es hes k v hkv hmem
    rcases List.mem_append.mp hmem with hmem | hmem
    · exact (mem_of_validKey (hes.keys k v hkv) hmem).2.2.1 rfl
    · rcases List.mem_cons.mp hmem with heq | hmem
      · exact absurd heq (by decide)
      · exact hes.values k v hkv hmem
  induction ls generalizing entries with
  | nil =>
    intro l hl
    obtain ⟨⟨k, v⟩, hmem, rfl⟩ := List.mem_map.mp hl
    exact hwritten h k v (OrdMap.mem_entries.mp hmem)
  | cons line ls ih =>
    obtain ⟨hline, hls⟩ := List.forall_mem_cons.mp hls
    rw [editLines]
    rcases editLine_cases entries line with ⟨heq, -⟩ | ⟨k, v, -, hf, heq⟩
    · rw [heq]
      exact List.forall_mem_cons.mpr ⟨hline, ih h hls⟩
    · rw [heq]
      exact List.forall_mem_cons.mpr ⟨hwritten h k v hf, ih (h.erase k) hls⟩

/-! ## The arguments -/

/-- The settings the arguments name. -/
def requested (settings : List (List Char)) : List (List Char × List Char) := settings.filterMap (splitOnce '=')

theorem parseArg_ok {acc entries : Entries} {s : List Char} (h : parseArg acc s = .ok entries) :
    ∃ k v, splitOnce '=' s = some (k, v) ∧ validKey k = true ∧ '\n' ∉ v ∧ acc.find k = none ∧
      entries = acc.insert k v := by
  rw [parseArg] at h
  split at h
  · cases h
  next k v hs =>
  split at h
  · cases h
  next hbad =>
  cases h
  simp only [Bool.or_eq_true, Bool.not_eq_true', not_or, Bool.not_eq_false, Option.not_isSome_iff_eq_none,
    List.any_eq_true, not_exists, not_and] at hbad
  exact ⟨k, v, hs, hbad.1.1, fun hmem => hbad.1.2 _ hmem (by decide), hbad.2, rfl⟩

/-- Arguments that are in order are kept each under its key. -/
theorem foldlM_parseArg {settings : List (List Char)} {acc entries : Entries}
    (h : settings.foldlM parseArg acc = .ok entries) (hacc : Requests acc) :
    Requests entries ∧ ∀ k v, entries.find k = some v ↔ acc.find k = some v ∨ (k, v) ∈ requested settings := by
  induction settings generalizing acc with
  | nil =>
    cases h
    exact ⟨hacc, by simp [requested]⟩
  | cons s settings ih =>
    rw [List.foldlM_cons] at h
    cases hs : parseArg acc s with
    | error e =>
      rw [hs] at h
      cases h
    | ok next =>
      rw [hs] at h
      obtain ⟨k, v, hsplit, hk, hv, hnew, rfl⟩ := parseArg_ok hs
      have hnext : ∀ k' v', (acc.insert k v).find k' = some v' ↔ acc.find k' = some v' ∨ (k', v') = (k, v) := by
        intro k' v'
        rw [OrdMap.find_insert]
        by_cases hk' : k' = k
        · subst hk'
          simp [hnew, eq_comm]
        · simp [hk']
      have hreq : Requests (acc.insert k v) := by
        constructor <;> intro k' v' hkv <;> rcases (hnext k' v').mp hkv with hkv | hkv
        · exact hacc.keys k' v' hkv
        · cases hkv
          exact hk
        · exact hacc.values k' v' hkv
        · cases hkv
          exact hv
      obtain ⟨hent, hiff⟩ := ih h hreq
      have hcons : requested (s :: settings) = (k, v) :: requested settings := by
        rw [requested, List.filterMap_cons, hsplit]
        rfl
      refine ⟨hent, fun k' v' => ?_⟩
      rw [hiff, hnext, hcons, List.mem_cons, or_assoc]

theorem parseArgs_ok {settings : List (List Char)} {entries : Entries} (h : parseArgs settings = .ok entries) :
    Requests entries ∧ ∀ k v, entries.find k = some v ↔ (k, v) ∈ requested settings := by
  rw [parseArgs] at h
  cases hfold : settings.foldlM parseArg .empty with
  | error e =>
    rw [hfold] at h
    cases h
  | ok es =>
    rw [hfold] at h
    obtain rfl : es = entries := by
      cases hempty : es.isEmpty
      · simpa [hempty, bind, Except.bind, pure, Except.pure] using h
      · simp [hempty, bind, Except.bind, throw, throwThe, MonadExceptOf.throw] at h
    have hnone : Requests (OrdMap.empty : Entries) := ⟨by simp, by simp⟩
    simpa using foldlM_parseArg hfold hnone

/-! ## The edit -/

/-- The new text is the old one with the requested settings, one line each. -/
structure Edited (old : List Char) (settings : List (List Char)) (new : List Char) : Prop where
  written : ∀ k v, (k, v) ∈ requested settings → (assignments new).filter (·.1 = k) = [(k, unquote v)]
  others : (assignments new).filter (fun a => a.1 ∉ (requested settings).map (·.1)) =
    (assignments old).filter fun a => a.1 ∉ (requested settings).map (·.1)
  kept : ∃ ls, new = unlines ls ∧ ls.filter (untouched ((requested settings).map (·.1))) =
    (lines old).filter (untouched ((requested settings).map (·.1)))

theorem untouched_other {raw : List Char} (h : ∀ k v, Line.parse raw ≠ .assign k v) (keys : List (List Char)) :
    untouched keys raw = true := by
  rw [untouched]
  cases hp : Line.parse raw with
  | skipped | malformed => rfl
  | assign k v => exact absurd hp (h k v)

theorem assignmentsOf_untouched (keys : List (List Char)) (ls : List (List Char)) :
    (assignmentsOf ls).filter (fun a => a.1 ∉ keys) = assignmentsOf (ls.filter (untouched keys)) := by
  induction ls with
  | nil => rfl
  | cons raw ls ih =>
    by_cases hp : ∃ k v, Line.parse raw = .assign k v
    · obtain ⟨k, v, hp⟩ := hp
      rw [assignmentsOf_assign hp, List.filter_cons, List.filter_cons, untouched, hp]
      by_cases hk : k ∈ keys
      · simpa [hk] using ih
      · simp only [hk, not_false_eq_true, decide_true, if_true, List.contains_eq_mem, decide_false, Bool.not_false,
          assignmentsOf_assign hp, ih]
    · have hother : ∀ k v, Line.parse raw ≠ .assign k v := fun k v hkv => hp ⟨k, v, hkv⟩
      rw [assignmentsOf_other hother, List.filter_cons, if_pos (untouched_other hother keys),
        assignmentsOf_other hother, ih]

/-- The entry of a key that is there once. -/
theorem filter_key_eq {l : List (List Char × List Char)} (h : (l.map (·.1)).Nodup) {k v : List Char}
    (hkv : (k, v) ∈ l) : l.filter (·.1 = k) = [(k, v)] := by
  induction l with
  | nil => cases hkv
  | cons e l ih =>
    obtain ⟨hnot, hnodup⟩ := List.nodup_cons.mp h
    rcases List.mem_cons.mp hkv with rfl | hkv
    · have hnone : l.filter (·.1 = k) = [] := by
        rw [List.filter_eq_nil_iff]
        intro e he hk
        exact hnot (List.mem_map.mpr ⟨e, he, of_decide_eq_true hk⟩)
      simp [hnone]
    · have hne : e.1 ≠ k := fun heq => hnot (List.mem_map.mpr ⟨(k, v), hkv, heq.symm⟩)
      simp [hne, ih hnodup hkv]

theorem rewrite_edited {old : List Char} {settings : List (List Char)} {entries : Entries}
    (hargs : parseArgs settings = .ok entries) (hvalid : Config.validate (rewrite old entries) = .ok ()) :
    Edited old settings (rewrite old entries) := by
  obtain ⟨hreq, hiff⟩ := parseArgs_ok hargs
  have hkeys : ∀ k v, entries.find k = some v → k ∈ (requested settings).map (·.1) := fun k v hkv =>
    List.mem_map.mpr ⟨(k, v), (hiff k v).mp hkv, rfl⟩
  have hnew : assignments (rewrite old entries) = assignmentsOf (editLines entries (lines old)) := by
    rw [rewrite_eq, assignments_unlines (newline_notMem_editLines hreq fun l hl => newline_notMem_lines hl)]
  have hkept : (editLines entries (lines old)).filter (untouched ((requested settings).map (·.1))) =
      (lines old).filter (untouched ((requested settings).map (·.1))) := editLines_untouched hreq hkeys
  constructor
  · intro k v hkv
    have hmem : (k, unquote v) ∈ assignments (rewrite old entries) := by
      rw [hnew]
      exact mem_editLines hreq ((hiff k v).mpr hkv)
    exact filter_key_eq (accepted_of_validate hvalid).2.nodup hmem
  · rw [hnew, assignments, assignmentsOf_untouched, assignmentsOf_untouched, hkept]
  · exact ⟨editLines entries (lines old), rewrite_eq old entries, hkept⟩

/-! ## Runs -/

section runs
variable {f : Faults} {w : World}

/-- The text is offered for `config.conf` at most once, and may take its place. -/
def Offers (text : List Char) (w w' : World) : Prop :=
  w'.config = w.config ∧ (w'.offered = w.offered ∨ w'.offered = some text) ∨
    w'.config = text ∧ w'.offered = some text

theorem SameFiles.offers {text : List Char} {w' : World} (h : SameFiles w w') : Offers text w w' :=
  .inl ⟨h.config, .inl h.offered⟩

theorem saved_offers {text : List Char} (h : w.temp = some text) (old : List Char) :
    Offers text w (saved f old w).2 := by
  unfold saved
  split
  · exact .inl ⟨rfl, .inl rfl⟩
  rw [exec_rename (show ({ w with backup := some old } : World).temp = some text from h)]
  unfold attempt
  split
  · exact .inl ⟨rfl, .inr rfl⟩
  · exact .inr ⟨rfl, rfl⟩

theorem committed_offers {text : List Char} (h : w.temp = some text) (old : List Char) :
    Offers text w (committed f old w).2 := by
  unfold committed
  split
  · exact saved_offers h old
  have hstop := stopped_files (f := f) (w := w)
  refine andThen_state hstop.offers ?_
  intro _
  have hsave := saved_offers (f := f) (hstop.temp.trans h) old
  have hsaved : Offers text w (saved f old (stopped f w).2).2 := by
    unfold Offers at hsave ⊢
    rwa [hstop.config, hstop.offered] at hsave
  refine andThen_state hsaved ?_
  intro _
  have hstart := started_files (f := f) (w := (saved f old (stopped f w).2).2)
  unfold Offers at hsaved ⊢
  rwa [hstart.config, hstart.offered]

/-- The operations up to the check of the new text work, and so does the removal of the
temporary file. -/
structure Checked (f : Faults) (text : List Char) : Prop where
  read : f.fails (.readConfig .configure) = false
  written : f.fails (.writeTemp text) = false
  chmod : f.fails .chmodTemp = false
  removed : f.fails .removeTemp = false

theorem discarded_temp : (discarded f w).config = w.config ∧ (discarded f w).offered = w.offered ∧
    (f.fails .removeTemp = false → (discarded f w).temp = none) := by
  unfold discarded
  split
  · next h => exact ⟨rfl, rfl, fun hr => by simp [hr] at h⟩
  · exact ⟨rfl, rfl, fun _ => rfl⟩

/-- A text that is not accepted goes with the temporary file. -/
theorem configured_error {text : List Char} {e : IoError} (h : Config.validate text = .error e) :
    (configured f text w).2.config = w.config ∧ (configured f text w).2.offered = w.offered ∧
      (Checked f text → (configured f text w).2.temp = none) := by
  unfold configured
  split
  · next hf => exact ⟨rfl, rfl, fun hc => by simp [hc.written] at hf⟩
  simp only [h]
  split
  · next hf => exact ⟨rfl, rfl, fun hc => by simp [hc.chmod] at hf⟩
  obtain ⟨hconfig, hoffered, htemp⟩ := discarded_temp (f := f) (w := { w with temp := some text })
  split <;> exact ⟨hconfig, hoffered, fun hc => htemp hc.removed⟩

theorem configured_ok {text : List Char} (h : Config.validate text = .ok ()) :
    Offers text w (configured f text w).2 := by
  unfold configured
  split
  · exact .inl ⟨rfl, .inl rfl⟩
  simp only [h]
  split
  · exact .inl ⟨rfl, .inl rfl⟩
  split
  · obtain ⟨hconfig, hoffered, -⟩ := discarded_temp (f := f) (w := { w with temp := some text })
    exact .inl ⟨hconfig, .inl hoffered⟩
  · exact committed_offers (w := { w with temp := some text }) rfl w.config

/-- `configure` edits exactly the requested settings; a request that is rejected leaves
the files alone. -/
theorem configure_edits (f : Faults) (w : World) (settings : List (List Char)) :
    (∀ new, (run f w settings).2.offered = some new → Config.validate new = .ok () ∧ Edited w.config settings new) ∧
      ((run f w settings).2.config = w.config ∨ (run f w settings).2.offered = some (run f w settings).2.config) ∧
      (∀ e, parseArgs settings = .error e →
        (run f w settings).2.config = w.config ∧ (run f w settings).2.temp = w.temp) ∧
      ∀ entries e, parseArgs settings = .ok entries → Config.validate (rewrite w.config entries) = .error e →
        (run f w settings).2.config = w.config ∧
          (Checked f (rewrite w.config entries) → (run f w settings).2.temp = none) := by
  rw [run_eq]
  cases hread : f.fails (.readConfig .configure)
  case true =>
    exact ⟨by simp, .inl rfl, fun _ _ => ⟨rfl, rfl⟩, fun _ _ _ _ => ⟨rfl, fun h => by simp [h.read] at hread⟩⟩
  cases hargs : parseArgs settings with
  | error e => exact ⟨by simp, .inl rfl, fun _ _ => ⟨rfl, rfl⟩, fun _ _ h => by cases h⟩
  | ok entries =>
    rw [if_neg Bool.false_ne_true]
    simp only [reduceCtorEq, false_implies, implies_true, Except.ok.injEq, true_and]
    cases hv : Config.validate (rewrite w.config entries) with
    | error e =>
      obtain ⟨hconfig, hoffered, htemp⟩ := configured_error (f := f) (w := { w with offered := none }) hv
      refine ⟨fun new hnew => ?_, .inl hconfig, ?_⟩
      · rw [hoffered] at hnew
        cases hnew
      · rintro _ _ rfl -
        exact ⟨hconfig, htemp⟩
    | ok u =>
      have hoffers := configured_ok (f := f) (w := { w with offered := none }) hv
      refine ⟨fun new hnew => ?_, ?_, ?_⟩
      · obtain rfl : new = rewrite w.config entries := by
          rcases hoffers with ⟨-, hno | hyes⟩ | ⟨-, hyes⟩
          · rw [hno] at hnew
            cases hnew
          · exact Option.some.inj (hnew.symm.trans hyes)
          · exact Option.some.inj (hnew.symm.trans hyes)
        exact ⟨hv, rewrite_edited hargs hv⟩
      · rcases hoffers with ⟨hconfig, -⟩ | ⟨hconfig, hyes⟩
        · exact .inl hconfig
        · exact .inr (by rw [hconfig, hyes])
      · rintro _ _ rfl herr
        rw [hv] at herr
        cases herr

theorem configure_edits_ttl : Edited "# TTL=1\r\n TTL = '64'".toList ["TTL=65".toList, "GSO=0".toList]
    "# TTL=1\nTTL=65\nGSO=0\n".toList :=
  ((configure_edits ⟨fun _ => false, id⟩
    ⟨"# TTL=1\r\n TTL = '64'".toList, none, none, false, .down, false, true, "", none⟩
    ["TTL=65".toList, "GSO=0".toList]).1 _ (by decide)).2

end runs

end Nfqttl.Ctl
