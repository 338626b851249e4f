/-
`customize.sh`: the settings of an older installation, when the module is installed over it.

The lines of the release's `config.conf` for whose keys `grep` finds none are written behind
the old text, which goes well as long as `grep` and the checker see the same keys, the new
lines say nothing but defaults and the old text ends where a line does.
-/
import Nfqttl.CtlEdit

namespace Nfqttl.Customize

open Text

/-! ## The loop -/

/-- A character of `[[:space:]]`. -/
def isBlank (c : Char) : Bool := c == ' ' || decide (9 ≤ c.toNat ∧ c.toNat ≤ 13)

/-- Whether `^[[:space:]]*$key[[:space:]]*=` matches, for a key no character of which is blank
or has a meaning of its own in a pattern. -/
def grepLine (key line : List Char) : Bool :=
  match (line.dropWhile isBlank).dropPrefix? key with
  | some rest => (rest.dropWhile isBlank).head? == some '='
  | none => false

/-- `grep -q` with that pattern, over all lines of a file. -/
def grep (key text : List Char) : Bool :=
  (cutLines text).1.any (grepLine key) || (cutLines text).2 != [] && grepLine key (cutLines text).2

/-- `case "$line" in ''|'#'*)` -/
def skipped (line : List Char) : Bool := line.isEmpty || line.head? == some '#'

/-- `${line%%=*}` -/
def keyOf (line : List Char) : List Char := line.takeWhile (· ≠ '=')

def mergeLine (text line : List Char) : List Char :=
  if skipped line then text
  else if grep (keyOf line) text then text
  else text ++ (line ++ ['\n'])

/-- What `config.conf` is after the loop; `read` takes only lines that a newline ends. -/
def merge (release old : List Char) : List Char := (cutLines release).1.foldl mergeLine old

/-! ## What it is for -/

/-- The merged text is accepted, has every old line, and means what the old one does. -/
structure Preserved (old merged : List Char) : Prop where
  accepted : Config.validate merged = .ok ()
  lines : (lines old).Sublist (lines merged)
  load : Config.load (some merged) = Config.load (some old)

/-- The lines of a release that assign something. -/
def settings (release : List Char) : List (List Char) := (cutLines release).1.filter fun line => !skipped line

/-- A release's `config.conf`: settings, one line a key. -/
structure Release (release : List Char) : Prop where
  keys : ∀ line ∈ settings release, '=' ∈ line ∧ (Setting.ofName (keyOf line)).isSome = true
  nodup : ((settings release).map keyOf).Nodup

/-- A line that says nothing new behind the old text: the checker takes it, and it has the default, or a `max_backlog`
that is held to the length of the queue as the default is. -/
structure Neutral (old line : List Char) : Prop where
  accepted : (Config.checkLine {} (line, 0)).isOk = true
  value : Config.loadLine {} line = {} ∨ keyOf line = Setting.maxBacklog.name.toList ∧
    (Config.load (some old)).queueMaxlen ≤ min (Config.loadLine {} line).maxBacklog ({} : Config).maxBacklog

/-- The text ends where a line does. -/
def Ended (text : List Char) : Prop := text = [] ∨ text.getLast? = some '\n'

/-! ## `grep` -/

/-- Text `grep` takes literally. -/
def Plain (key : List Char) : Prop := key ≠ [] ∧ ∀ c ∈ key, c ≠ '=' ∧ isBlank c = false

theorem isSpace_of_isBlank {c : Char} (h : isBlank c = true) : isSpace c = true := by
  simp only [isBlank, Bool.or_eq_true, beq_iff_eq, decide_eq_true_eq] at h
  rcases h with rfl | h
  · decide
  · simp only [isSpace, decide_eq_true_eq]
    exact .inl h

theorem validKey_name (s : Setting) : Ctl.validKey s.name.toList = true := by cases s <;> decide

theorem plain_name (s : Setting) : Plain s.name.toList := by
  refine ⟨by cases s <;> decide, ?_⟩
  intro c hc
  obtain ⟨-, heq, -, hspace⟩ := Ctl.mem_of_validKey (validKey_name s) hc
  refine ⟨heq, ?_⟩
  rw [← Bool.not_eq_true]
  intro hblank
  rw [isSpace_of_isBlank hblank] at hspace
  cases hspace

theorem dropWhile_blank {k : List Char} (h : Plain k) (s : List Char) :
    (k ++ s).dropWhile isBlank = k ++ s := by
  obtain ⟨hne, hk⟩ := h
  cases k with
  | nil => exact absurd rfl hne
  | cons c k => rw [List.cons_append, List.dropWhile_cons_of_neg (by simp [(hk c (List.mem_cons_self ..)).2])]

/-- A line that starts with `key=` is found. -/
theorem grepLine_self {key : List Char} (h : Plain key) (v : List Char) : grepLine key (key ++ '=' :: v) = true := by
  have hprefix : (key ++ '=' :: v).dropPrefix? key = some ('=' :: v) :=
    List.dropPrefix?_eq_some_iff.mpr ⟨key, rfl, beq_self_eq_true key⟩
  rw [grepLine, dropWhile_blank h, hprefix]
  rfl

/-- A line `key'=` is found for no other key. -/
theorem grepLine_other {key key' : List Char} (h : Plain key) (h' : Plain key') (hne : key ≠ key') (v : List Char) :
    grepLine key (key' ++ '=' :: v) = false := by
  rw [grepLine, dropWhile_blank h']
  split
  · next rest hrest =>
    obtain ⟨p, heq, hp⟩ := List.dropPrefix?_eq_some_iff.mp hrest
    rw [eq_of_beq hp] at heq
    rw [← Bool.not_eq_true, beq_iff_eq]
    intro hhead
    obtain ⟨w, hw⟩ := List.head?_eq_some_iff.mp hhead
    have hblank : ∀ c ∈ rest.takeWhile isBlank, isBlank c = true := fun c hc => List.mem_takeWhile_imp hc
    have heq' : key' ++ '=' :: v = (key ++ rest.takeWhile isBlank) ++ '=' :: w := by
      rw [heq, List.append_assoc, ← hw, List.takeWhile_append_dropWhile]
    have hkey' : '=' ∉ key' := fun hmem => (h'.2 _ hmem).1 rfl
    have hleft : '=' ∉ key ++ rest.takeWhile isBlank := by
      intro hmem
      rcases List.mem_append.mp hmem with hmem | hmem
      · exact (h.2 _ hmem).1 rfl
      · exact absurd (hblank _ hmem) (by decide)
    -- Both sides are split at their first equals sign.
    have hsplit := splitOnce_append hkey' v
    rw [heq', splitOnce_append hleft, Option.some.injEq, Prod.mk.injEq] at hsplit
    cases hb : rest.takeWhile isBlank with
    | nil => exact hne (by rw [← hsplit.1, hb, List.append_nil])
    | cons c b =>
      have hc : c ∈ rest.takeWhile isBlank := hb ▸ List.mem_cons_self ..
      have hplain := (h'.2 c (hsplit.1 ▸ List.mem_append_right _ hc)).2
      rw [hblank c hc] at hplain
      cases hplain
  · rfl

theorem grep_cut {ls : List (List Char)} (hls : ∀ l ∈ ls, '\n' ∉ l) {r : List Char} (hr : '\n' ∉ r) (key : List Char) :
    grep key (unlines ls ++ r) = (ls.any (grepLine key) || r != [] && grepLine key r) := by
  rw [grep, cutLines_unlines hls hr]

theorem grep_unlines {ls : List (List Char)} (hls : ∀ l ∈ ls, '\n' ∉ l) (key : List Char) :
    grep key (unlines ls) = ls.any (grepLine key) := by
  have h := grep_cut hls (r := []) (by simp) key
  rwa [List.append_nil, bne_self_eq_false, Bool.false_and, Bool.or_false] at h

/-! ## What the loop writes -/

/-- The lines assign settings, each another one. -/
structure Assigns (R : List (List Char)) : Prop where
  form : ∀ line ∈ R, ∃ s : Setting, ∃ v, line = s.name.toList ++ '=' :: v ∧ '\n' ∉ line
  nodup : (R.map keyOf).Nodup

theorem keyOf_assign {key : List Char} (h : Plain key) (v : List Char) : keyOf (key ++ '=' :: v) = key := by
  rw [keyOf, List.takeWhile_append_of_pos, List.takeWhile_cons_of_neg (by simp), List.append_nil]
  intro c hc
  simpa using (h.2 c hc).1

theorem Assigns.tail {line : List Char} {R : List (List Char)} (h : Assigns (line :: R)) : Assigns R :=
  ⟨(List.forall_mem_cons.mp h.form).2, (List.nodup_cons.mp h.nodup).2⟩

theorem not_skipped_assign (s : Setting) (v : List Char) : skipped (s.name.toList ++ '=' :: v) = false := by
  cases s <;> rfl

/-- None of the later lines is found in one of the lines. -/
theorem Assigns.grepLine_head {line : List Char} {R : List (List Char)} (h : Assigns (line :: R)) :
    ∀ l ∈ R, grepLine (keyOf l) line = false := by
  intro l hl
  obtain ⟨s, v, rfl, -⟩ := h.form line (List.mem_cons_self ..)
  obtain ⟨t, w, rfl, -⟩ := h.form l (List.mem_cons_of_mem _ hl)
  have hne : keyOf (t.name.toList ++ '=' :: w) ≠ keyOf (s.name.toList ++ '=' :: v) := fun heq =>
    (List.nodup_cons.mp h.nodup).1 (heq ▸ List.mem_map_of_mem hl)
  rw [keyOf_assign (plain_name t), keyOf_assign (plain_name s)] at hne
  rw [keyOf_assign (plain_name t)]
  exact grepLine_other (plain_name t) (plain_name s) hne v

/-- The lines of `R` whose keys are found in none of `ls`. -/
def missing (R ls : List (List Char)) : List (List Char) := R.filter fun line => !ls.any (grepLine (keyOf line))

theorem mem_missing {R ls : List (List Char)} {l : List Char} :
    l ∈ missing R ls ↔ l ∈ R ∧ ls.any (grepLine (keyOf l)) = false := by
  rw [missing, List.mem_filter, Bool.not_eq_true']

theorem Assigns.missing {R : List (List Char)} (h : Assigns R) (ls : List (List Char)) : Assigns (missing R ls) :=
  ⟨fun l hl => h.form l (mem_missing.mp hl).1, h.nodup.sublist ((List.filter_sublist ..).map keyOf)⟩

/-- Behind a text that ends with a line, the lines whose keys are not found are written. -/
theorem foldl_mergeLine_ended {R : List (List Char)} (hR : Assigns R) {ls : List (List Char)}
    (hls : ∀ l ∈ ls, '\n' ∉ l) :
    R.foldl mergeLine (unlines ls) = unlines (ls ++ missing R ls) := by
  induction R generalizing ls with
  | nil => simp [missing]
  | cons line R ih =>
    obtain ⟨s, v, hform, hnl⟩ := hR.form line (List.mem_cons_self ..)
    have hskip : skipped line = false := hform ▸ not_skipped_assign s v
    rw [List.foldl_cons, mergeLine, hskip, if_neg Bool.false_ne_true, grep_unlines hls, missing, List.filter_cons]
    cases hfound : ls.any (grepLine (keyOf line)) with
    | true =>
      rw [if_pos rfl]
      exact ih hR.tail hls
    | false =>
      have hlater : missing R (ls ++ [line]) = missing R ls := by
        refine List.filter_congr ?_
        intro l hl
        simp [hR.grepLine_head l hl]
      have happend : unlines ls ++ (line ++ ['\n']) = unlines (ls ++ [line]) := by simp [unlines]
      have hnext : ∀ l ∈ ls ++ [line], '\n' ∉ l :=
        List.forall_mem_append.mpr ⟨hls, List.forall_mem_singleton.mpr hnl⟩
      rw [if_neg Bool.false_ne_true, happend, ih hR.tail hnext, hlater]
      simp [missing]

/-- Behind another text, the first of these lines is joined to the last one there. -/
theorem foldl_mergeLine_open {R : List (List Char)} (hR : Assigns R) {ls : List (List Char)} (hls : ∀ l ∈ ls, '\n' ∉ l)
    {r : List Char} (hr : '\n' ∉ r) :
    (∀ line ∈ R, grep (keyOf line) (unlines ls ++ r) = true) ∧ R.foldl mergeLine (unlines ls ++ r) = unlines ls ++ r ∨
      ∃ line ∈ R, grep (keyOf line) (unlines ls ++ r) = false ∧
        ∃ rest, R.foldl mergeLine (unlines ls ++ r) = unlines (ls ++ (r ++ line) :: rest) ∧
          ∀ l ∈ rest, l ∈ R ∧ grepLine (keyOf l) (r ++ line) = false := by
  induction R with
  | nil => exact .inl ⟨by simp, rfl⟩
  | cons line R ih =>
    obtain ⟨s, v, hform, hnl⟩ := hR.form line (List.mem_cons_self ..)
    have hskip : skipped line = false := hform ▸ not_skipped_assign s v
    rw [List.foldl_cons, mergeLine, hskip, if_neg Bool.false_ne_true]
    cases hfound : grep (keyOf line) (unlines ls ++ r) with
    | true =>
      rw [if_pos rfl]
      rcases ih hR.tail with ⟨hall, hsame⟩ | ⟨l, hl, hnot, rest, hmerge, hrest⟩
      · exact .inl ⟨List.forall_mem_cons.mpr ⟨hfound, hall⟩, hsame⟩
      · refine .inr ⟨l, List.mem_cons_of_mem _ hl, hnot, rest, hmerge, ?_⟩
        intro l' hl'
        exact ⟨List.mem_cons_of_mem _ (hrest l' hl').1, (hrest l' hl').2⟩
    | false =>
      have hjoin : '\n' ∉ r ++ line := fun hmem => (List.mem_append.mp hmem).elim hr hnl
      have hnext : ∀ l ∈ ls ++ [r ++ line], '\n' ∉ l :=
        List.forall_mem_append.mpr ⟨hls, List.forall_mem_singleton.mpr hjoin⟩
      have happend : unlines ls ++ r ++ (line ++ ['\n']) = unlines (ls ++ [r ++ line]) := by simp [unlines]
      rw [if_neg Bool.false_ne_true, happend, foldl_mergeLine_ended hR.tail hnext, List.append_assoc]
      refine .inr ⟨line, List.mem_cons_self .., hfound, _, rfl, ?_⟩
      intro l hl
      obtain ⟨hmem, hnot⟩ := mem_missing.mp hl
      simp only [List.any_append, List.any_cons, List.any_nil, Bool.or_false, Bool.or_eq_false_iff] at hnot
      exact ⟨List.mem_cons_of_mem _ hmem, hnot.2⟩

/-! ## A line behind the old text -/

/-- With the value `v` a setting is loaded as without it, where the queue has length `q`. -/
def Silent (q : Nat) (v : List Char) (s : Setting) : Prop :=
  s.Means v {} ∨ s = .maxBacklog ∧ ∃ n, decimal v = some n ∧ q ≤ n ∧ q ≤ ({} : Config).maxBacklog

section line
variable {s : Setting} {v : List Char}

theorem parse_setting (s : Setting) (v : List Char) :
    Line.parse (s.name.toList ++ '=' :: v) = .assign s.name.toList (unquote v) :=
  Ctl.parse_assignment (validKey_name s) v

/-- The checker takes a setting whose value fits, beside other keys. -/
theorem checkLine_setting (hfits : s.Fits (unquote v)) {seen : Config.Seen} (hnew : s.name.toList ∉ seen.keys) (i : Nat) :
    Config.checkLine seen (s.name.toList ++ '=' :: v, i) =
      .ok ({ seen with keys := s.name.toList :: seen.keys }.note (unquote v) s) := by
  simp only [Config.checkLine, parse_setting, Setting.ofName_name, if_neg hnew]
  exact checkValue_fits hfits i _ _

theorem checkLine_setting_iff :
    (Config.checkLine {} (s.name.toList ++ '=' :: v, 0)).isOk = true ↔ s.Fits (unquote v) := by
  refine ⟨?_, ?_⟩
  · intro h
    cases hc : Config.checkLine {} (s.name.toList ++ '=' :: v, 0) with
    | error e =>
      rw [hc] at h
      cases h
    | ok next =>
      rcases checkLine_ok hc with ⟨hp, -⟩ | ⟨k, w, t, hp, -, ht, hfits, -⟩
      · rw [parse_setting] at hp
        cases hp
      · rw [parse_setting] at hp
        cases hp
        rw [Setting.ofName_name] at ht
        cases ht
        exact hfits
  · intro h
    rw [checkLine_setting h (by simp)]
    rfl

theorem loadLine_setting (c : Config) : Config.loadLine c (s.name.toList ++ '=' :: v) = c.set (unquote v) s := by
  simp only [Config.loadLine, parse_setting, Setting.ofName_name]

theorem set_default_iff (hfits : s.Fits v) : ({} : Config).set v s = {} ↔ s.Means v {} := by
  have hmeans := Config.set_means hfits {}
  refine ⟨?_, ?_⟩
  · intro h
    rwa [h] at hmeans
  · intro h
    refine Setting.eq_of_alike ?_
    intro t
    by_cases hts : t = s
    · subst hts
      exact hmeans.alike h
    · exact Config.set_alike hts {} v

theorem neutral_iff {old : List Char} : Neutral old (s.name.toList ++ '=' :: v) ↔
    s.Fits (unquote v) ∧ Silent (Config.load (some old)).queueMaxlen (unquote v) s := by
  have hkey : keyOf (s.name.toList ++ '=' :: v) = Setting.maxBacklog.name.toList ↔ s = .maxBacklog := by
    rw [keyOf_assign (plain_name s)]
    refine ⟨?_, ?_⟩
    · intro h
      have hname := Setting.ofName_name s
      rw [h, Setting.ofName_name] at hname
      exact (Option.some.inj hname).symm
    · rintro rfl
      rfl
  have hvalue (hfits : s.Fits (unquote v)) : (Config.loadLine {} (s.name.toList ++ '=' :: v) = {} ∨
      keyOf (s.name.toList ++ '=' :: v) = Setting.maxBacklog.name.toList ∧ (Config.load (some old)).queueMaxlen ≤
        min (Config.loadLine {} (s.name.toList ++ '=' :: v)).maxBacklog ({} : Config).maxBacklog) ↔
      Silent (Config.load (some old)).queueMaxlen (unquote v) s := by
    rw [hkey, loadLine_setting, set_default_iff hfits, Silent]
    refine or_congr_right (and_congr_right ?_)
    rintro rfl
    have hn : decimal (unquote v) = some (({} : Config).set (unquote v) .maxBacklog).maxBacklog :=
      Config.set_means hfits {}
    simp only [hn, Option.some.injEq, exists_eq_left', Nat.le_min]
  refine ⟨?_, ?_⟩
  · intro h
    have hfits := checkLine_setting_iff.mp h.accepted
    exact ⟨hfits, (hvalue hfits).mp h.value⟩
  · intro h
    exact ⟨checkLine_setting_iff.mpr h.1, (hvalue h.1).mpr h.2⟩

/-- The interfaces seen so far do not overlap. -/
def Apart (seen : Config.Seen) : Prop := seen.down.any seen.up.contains = false

theorem apart_note {q : Nat} (hv : Silent q v s) {seen : Config.Seen} (h : Apart seen) : Apart (seen.note v s) := by
  cases s with
  | downstreams =>
    have hnone : words v = [] := hv.resolve_right (by simp)
    simp [Apart, Config.Seen.note, hnone]
  | upstreams =>
    have hnone : words v = [] := hv.resolve_right (by simp)
    simp [Apart, Config.Seen.note, hnone]
  | _ => exact h

end line

/-- What an accepted text assigns further on it did not assign before. -/
theorem notMem_of_append {old new k v : List Char} {added : List (List Char × List Char)}
    (hnew : Accepted [] (lines new)) (hadded : assignments new = assignments old ++ added) (hv : (k, v) ∈ added) :
    k ∉ (assignments old).map (·.1) := by
  intro hmem
  have hnodup : ((assignments new).map (·.1)).Nodup := hnew.nodup
  rw [hadded, List.map_append] at hnodup
  exact (List.nodup_append.mp hnodup).2.2 _ hmem _ (List.mem_map_of_mem (f := (·.1)) hv) rfl

/-- `c'` is `c` with the settings of `added`, which have their defaults in `c`. -/
structure Extends (c c' : Config) (added : List (List Char × List Char)) : Prop where
  means : ∀ (s : Setting) (v : List Char), (s.name.toList, v) ∈ added → s.Means v c'
  default : ∀ (s : Setting) (v : List Char), (s.name.toList, v) ∈ added → s.Alike c {}
  same : ∀ s : Setting, (∀ v, (s.name.toList, v) ∉ added) → s.Alike c' c

/-- What is read of an accepted text extends what is read of its first part. -/
theorem extends_of_append {old new : List Char} {added : List (List Char × List Char)} (hold : Accepted [] (lines old))
    (hnew : Accepted [] (lines new)) (hadded : assignments new = assignments old ++ added) :
    Extends (Config.loaded old) (Config.loaded new) added := by
  have hmeans (s : Setting) (v : List Char) (hv : (s.name.toList, v) ∈ assignments new) :
      s.Means v (Config.loaded new) := (foldl_loadLine hnew {} s).1 v hv
  refine ⟨?_, ?_, ?_⟩
  · intro s v hv
    exact hmeans s v (hadded ▸ List.mem_append_right _ hv)
  · intro s v hv
    refine (foldl_loadLine hold {} s).2 ?_
    intro w hw
    exact notMem_of_append hnew hadded hv (List.mem_map_of_mem (f := (·.1)) hw)
  · intro s hno
    by_cases h : ∃ v, (s.name.toList, v) ∈ assignments old
    · obtain ⟨v, hv⟩ := h
      exact (hmeans s v (hadded ▸ List.mem_append_left _ hv)).alike ((foldl_loadLine hold {} s).1 v hv)
    · have hdefault := (foldl_loadLine hold {} s).2 fun v hv => h ⟨v, hv⟩
      refine Setting.Alike.trans ((foldl_loadLine hnew {} s).2 ?_) hdefault.symm
      intro v hv
      rcases List.mem_append.mp (hadded ▸ hv : (s.name.toList, v) ∈ assignments old ++ added) with hv | hv
      · exact h ⟨v, hv⟩
      · exact hno v hv

section extending
variable {c c' : Config} {added : List (List Char × List Char)}

/-- Where nothing else is loaded, what was added is silent: a `max_backlog` other than the default is hidden by the
length of the queue, and so is the default. -/
theorem Extends.silent (h : Extends c c' added) (heq : c'.capped = c.capped) {s : Setting} {v : List Char}
    (hv : (s.name.toList, v) ∈ added) : Silent c.queueMaxlen v s := by
  obtain ⟨hother, hmin⟩ := Config.capped_eq_iff.mp heq
  by_cases hs : s = .maxBacklog
  · subst hs
    have hn : decimal v = some c'.maxBacklog := h.means _ v hv
    have hdefault : c.maxBacklog = ({} : Config).maxBacklog := h.default _ v hv
    have hlen : c'.queueMaxlen = c.queueMaxlen := hother .queueMaxlen (by decide)
    by_cases hmax : c'.maxBacklog = ({} : Config).maxBacklog
    · exact .inl (hn.trans (congrArg some hmax))
    · refine .inr ⟨rfl, _, hn, ?_, ?_⟩ <;> omega
  · exact .inl (Setting.Alike.means ((h.default s v hv).symm.trans (hother s hs).symm) (h.means s v hv))

theorem Extends.capped_eq (h : Extends c c' added)
    (hsilent : ∀ (s : Setting) (v : List Char), (s.name.toList, v) ∈ added → Silent c.queueMaxlen v s) :
    c'.capped = c.capped := by
  have hother (s : Setting) (hs : s ≠ .maxBacklog) : s.Alike c' c := by
    by_cases hin : ∃ v, (s.name.toList, v) ∈ added
    · obtain ⟨v, hv⟩ := hin
      have hdefault := (hsilent s v hv).resolve_right fun hmax => hs hmax.1
      exact ((h.means s v hv).alike hdefault).trans (h.default s v hv).symm
    · exact h.same s fun v hv => hin ⟨v, hv⟩
  refine Config.capped_eq_iff.mpr ⟨hother, ?_⟩
  have hlen : c'.queueMaxlen = c.queueMaxlen := hother .queueMaxlen (by decide)
  by_cases hin : ∃ v, (Setting.maxBacklog.name.toList, v) ∈ added
  · obtain ⟨v, hv⟩ := hin
    have hn : decimal v = some c'.maxBacklog := h.means _ v hv
    have hdefault : c.maxBacklog = ({} : Config).maxBacklog := h.default _ v hv
    rcases hsilent _ v hv with hmeans | ⟨-, n, hval, hle, hle'⟩
    · have heq : decimal v = some ({} : Config).maxBacklog := hmeans
      rw [hn, Option.some.injEq] at heq
      omega
    · rw [hn, Option.some.injEq] at hval
      omega
  · have heq : c'.maxBacklog = c.maxBacklog := h.same .maxBacklog fun v hv => hin ⟨v, hv⟩
    rw [heq, hlen]

end extending

/-- Settings behind an accepted text change nothing that is loaded just when each of them is silent. -/
theorem load_append_iff {old new : List Char} {added : List (List Char × List Char)} (hold : Accepted [] (lines old))
    (hnew : Accepted [] (lines new)) (hadded : assignments new = assignments old ++ added) :
    Config.load (some new) = Config.load (some old) ↔
      ∀ (s : Setting) (v : List Char), (s.name.toList, v) ∈ added →
        Silent (Config.load (some old)).queueMaxlen v s := by
  have hext := extends_of_append hold hnew hadded
  have hqueue : (Config.load (some old)).queueMaxlen = (Config.loaded old).queueMaxlen :=
    Config.capped_alike (s := .queueMaxlen) (by decide) _
  rw [hqueue]
  exact ⟨fun heq _ _ hv => hext.silent heq hv, hext.capped_eq⟩

theorem checkLines_neutral {old : List Char} {app : List (List Char)} (happ : Assigns app)
    (hneutral : ∀ l ∈ app, Neutral old l) {seen : Config.Seen} (hfresh : ∀ l ∈ app, keyOf l ∉ seen.keys)
    (hapart : Apart seen) (i : Nat) :
    ∃ seen', ((app.map stripCr).zipIdx i).foldlM Config.checkLine seen = .ok seen' ∧ Apart seen' := by
  induction app generalizing seen i with
  | nil => exact ⟨seen, rfl, hapart⟩
  | cons l app ih =>
    obtain ⟨hl, hlater⟩ := List.forall_mem_cons.mp hneutral
    obtain ⟨hnew, hunseen⟩ := List.forall_mem_cons.mp hfresh
    obtain ⟨hnot, -⟩ := List.nodup_cons.mp happ.nodup
    obtain ⟨s, v, rfl, -⟩ := happ.form l (List.mem_cons_self ..)
    obtain ⟨hfits, hsilent⟩ := neutral_iff.mp hl
    rw [keyOf_assign (plain_name s)] at hnew hnot
    let next : Config.Seen := { seen with keys := s.name.toList :: seen.keys }
    have hstep : Config.checkLine seen (stripCr (s.name.toList ++ '=' :: v), i) = .ok (next.note (unquote v) s) := by
      rw [← checkLine_setting hfits hnew i]
      simp only [Config.checkLine, Ctl.parse_stripCr]
    have hkeys : (next.note (unquote v) s).keys = s.name.toList :: seen.keys := by cases s <;> rfl
    have hrest : ∀ l' ∈ app, keyOf l' ∉ (next.note (unquote v) s).keys := by
      intro l' hl' hmem
      rw [hkeys] at hmem
      rcases List.mem_cons.mp hmem with heq | hmem
      · exact hnot (heq ▸ List.mem_map_of_mem hl')
      · exact hunseen l' hl' hmem
    have hnext : Apart (next.note (unquote v) s) := apart_note hsilent hapart
    obtain ⟨seen', hfold, hapart'⟩ := ih happ.tail hlater hrest hnext (i + 1)
    refine ⟨seen', ?_, hapart'⟩
    rw [List.map_cons, List.zipIdx_cons, List.foldlM_cons, hstep]
    exact hfold

/-- What the checker demands of a text. -/
theorem validate_iff {text : List Char} : Config.validate text = .ok () ↔
    ∃ seen, (lines text).zipIdx.foldlM Config.checkLine {} = .ok seen ∧ Apart seen ∧
      Config.checkSqm (Config.load (some text)) = .ok () := by
  rw [Config.validate]
  cases hfold : (lines text).zipIdx.foldlM Config.checkLine {} with
  | error e => simp [bind, Except.bind]
  | ok seen =>
    have hex : (∃ seen', (Except.ok seen : Except IoError Config.Seen) = .ok seen' ∧ Apart seen' ∧
        Config.checkSqm (Config.load (some text)) = .ok ()) ↔
        Apart seen ∧ Config.checkSqm (Config.load (some text)) = .ok () := by
      refine ⟨?_, ?_⟩
      · intro h
        obtain ⟨seen', heq, h⟩ := h
        cases heq
        exact h
      · intro h
        exact ⟨seen, rfl, h⟩
    rw [hex, Apart]
    cases hb : seen.down.any seen.up.contains with
    | true =>
      refine ⟨?_, ?_⟩
      · intro h
        simp only [bind, Except.bind, hb, if_true] at h
        cases h
      · intro h
        cases h.1
    | false =>
      simp only [bind, Except.bind, hb, Bool.false_eq_true, if_false, true_and]

/-! ## Settings behind the old text -/

theorem assignments_append {ls app : List (List Char)} (h : ∀ l ∈ ls ++ app, '\n' ∉ l) :
    assignments (unlines (ls ++ app)) = assignments (unlines ls) ++ assignmentsOf app := by
  rw [Ctl.assignments_unlines h, Ctl.assignments_unlines (List.forall_mem_append.mp h).1, assignmentsOf, assignmentsOf,
    assignmentsOf, List.filterMap_append]

theorem mem_assignmentsOf {app : List (List Char)} (happ : Assigns app) {s : Setting} {w : List Char} :
    (s.name.toList, w) ∈ assignmentsOf app ↔ ∃ v, s.name.toList ++ '=' :: v ∈ app ∧ unquote v = w := by
  rw [assignmentsOf, List.mem_filterMap]
  refine ⟨?_, ?_⟩
  · intro h
    obtain ⟨l, hl, hparse⟩ := h
    obtain ⟨t, v, rfl, -⟩ := happ.form l hl
    rw [parse_setting] at hparse
    obtain ⟨hname, rfl⟩ := Prod.mk.inj (Option.some.inj hparse)
    exact ⟨v, hname ▸ hl, rfl⟩
  · intro h
    obtain ⟨v, hl, rfl⟩ := h
    exact ⟨_, hl, by rw [parse_setting]⟩

/-- Whole lines behind an accepted text preserve it just when each is the first with its key and says nothing new. -/
theorem preserved_append_iff {ls app : List (List Char)} (hls : ∀ l ∈ ls ++ app, '\n' ∉ l)
    (hold : Config.validate (unlines ls) = .ok ()) (happ : Assigns app) :
    Preserved (unlines ls) (unlines (ls ++ app)) ↔
      ∀ l ∈ app, keyOf l ∉ (assignments (unlines ls)).map (·.1) ∧ Neutral (unlines ls) l := by
  obtain ⟨-, hacc⟩ := accepted_of_validate hold
  have hassign := assignments_append hls
  refine ⟨?_, ?_⟩
  · intro h l hl
    obtain ⟨-, hacc'⟩ := accepted_of_validate h.accepted
    obtain ⟨s, v, rfl, -⟩ := happ.form l hl
    have hmem : (s.name.toList, unquote v) ∈ assignmentsOf app := (mem_assignmentsOf happ).mpr ⟨v, hl, rfl⟩
    have hsilent := (load_append_iff hacc hacc' hassign).mp h.load s _ hmem
    rw [keyOf_assign (plain_name s)]
    refine ⟨notMem_of_append hacc' hassign hmem, neutral_iff.mpr ⟨?_, hsilent⟩⟩
    have hmem' : (s.name.toList, unquote v) ∈ assignments (unlines (ls ++ app)) := hassign ▸ List.mem_append_right _ hmem
    obtain ⟨t, ht, hfits⟩ := hacc'.fits _ _ hmem'
    rw [Setting.ofName_name] at ht
    cases ht
    exact hfits
  · intro h
    have hlines : lines (unlines (ls ++ app)) = lines (unlines ls) ++ app.map stripCr := by
      rw [lines_unlines hls, lines_unlines (List.forall_mem_append.mp hls).1, List.map_append]
    obtain ⟨seen, hfold, hapart, hsqm⟩ := validate_iff.mp hold
    have hfresh : ∀ l ∈ app, keyOf l ∉ seen.keys := by
      intro l hl hmem
      rcases checkLines_keys hfold hmem with hnil | hmem
      · cases hnil
      · exact (h l hl).1 hmem
    obtain ⟨seen', hfold', hapart'⟩ :=
      checkLines_neutral happ (fun l hl => (h l hl).2) hfresh hapart (lines (unlines ls)).length
    have hnew : (lines (unlines (ls ++ app))).zipIdx.foldlM Config.checkLine {} = .ok seen' := by
      rw [hlines, List.zipIdx_append, List.foldlM_append, hfold, Nat.zero_add]
      exact hfold'
    have hload : Config.load (some (unlines (ls ++ app))) = Config.load (some (unlines ls)) := by
      refine (load_append_iff hacc (checkLines_ok hnew).2 hassign).mpr ?_
      intro s w hmem
      obtain ⟨v, hl, rfl⟩ := (mem_assignmentsOf happ).mp hmem
      exact (neutral_iff.mp (h _ hl).2).2
    refine ⟨validate_iff.mpr ⟨seen', hnew, hapart', hload ▸ hsqm⟩, ?_, hload⟩
    rw [hlines]
    exact List.sublist_append_left ..

/-! ## The merge -/

theorem eq_keyOf_append {line : List Char} (h : '=' ∈ line) : ∃ v, line = keyOf line ++ '=' :: v := by
  cases hs : splitOnce '=' line with
  | none => exact absurd h (splitOnce_eq_none.mp hs)
  | some p =>
    obtain ⟨k, v⟩ := p
    obtain ⟨rfl, hk⟩ := splitOnce_some hs
    refine ⟨v, ?_⟩
    rw [keyOf, List.takeWhile_append_of_pos, List.takeWhile_cons_of_neg (by simp), List.append_nil]
    intro c hc
    simpa using fun hce : c = '=' => hk (hce ▸ hc)

theorem merge_eq (release old : List Char) : merge release old = (settings release).foldl mergeLine old := by
  rw [merge, settings, List.foldl_filter]
  congr 1
  funext text line
  cases hs : skipped line <;> simp [mergeLine, hs]

theorem Release.assigns {release : List Char} (h : Release release) : Assigns (settings release) := by
  refine ⟨?_, h.nodup⟩
  intro line hline
  obtain ⟨heq, hname⟩ := h.keys line hline
  obtain ⟨ls, r, hrel, hls, hr⟩ := exists_cutLines release
  have hnl : '\n' ∉ line := by
    have hmem := (List.mem_filter.mp hline).1
    rw [hrel, cutLines_unlines hls hr] at hmem
    exact hls line hmem
  obtain ⟨v, hsplit⟩ := eq_keyOf_append heq
  obtain ⟨s, hof⟩ := Option.isSome_iff_exists.mp hname
  exact ⟨s, v, by rw [← Setting.name_ofName hof, ← hsplit], hnl⟩

theorem ended_iff {ls : List (List Char)} {r : List Char} (hr : '\n' ∉ r) : Ended (unlines ls ++ r) ↔ r = [] := by
  refine ⟨?_, ?_⟩
  · intro h
    by_contra hne
    rcases h with h | h
    · exact hne (List.append_eq_nil_iff.mp h).2
    · rw [List.getLast?_append_of_ne_nil _ hne] at h
      exact hr (List.mem_of_getLast? h)
  · rintro rfl
    rw [List.append_nil]
    cases ls using List.reverseRecOn with
    | nil => exact .inl rfl
    | append_singleton ls l => exact .inr (by simp [unlines])

/-- An assignment loses at most the end of its value. -/
theorem stripCr_assign (key v : List Char) : ∃ w, stripCr (key ++ '=' :: v) = key ++ '=' :: w := by
  rcases stripCr_cases (key ++ '=' :: v) with h | h
  · exact ⟨v, h⟩
  · cases v using List.reverseRecOn with
    | nil =>
      obtain ⟨-, heq⟩ := List.append_inj' h rfl
      exact absurd heq (by decide)
    | append_singleton v c =>
      have hsplit : (key ++ '=' :: v) ++ [c] = stripCr (key ++ '=' :: (v ++ [c])) ++ ['\r'] := by
        rw [← h, List.append_assoc, List.cons_append]
      exact ⟨v, (List.append_inj' hsplit rfl).1.symm⟩

/-- Where a default is joined to the last old line, that line is gone. -/
theorem not_sublist_open {R ls : List (List Char)} (hR : Assigns R) (hls : ∀ l ∈ ls, '\n' ∉ l) {r : List Char}
    (hr : '\n' ∉ r) (hne : r ≠ []) {line : List Char} (hline : line ∈ R) {rest : List (List Char)}
    (hrest : ∀ l ∈ rest, l ∈ R ∧ grepLine (keyOf l) (r ++ line) = false) :
    ¬(lines (unlines ls ++ r)).Sublist (lines (unlines (ls ++ (r ++ line) :: rest))) := by
  intro hsub
  obtain ⟨s, v, hform, hnl⟩ := hR.form line hline
  have hnew : ∀ l ∈ ls ++ (r ++ line) :: rest, '\n' ∉ l := by
    refine List.forall_mem_append.mpr ⟨hls, List.forall_mem_cons.mpr ⟨?_, ?_⟩⟩
    · exact fun hmem => (List.mem_append.mp hmem).elim hr hnl
    · intro l hl
      obtain ⟨_, _, _, hl'⟩ := hR.form l (hrest l hl).1
      exact hl'
  rw [lines_cut hls hr, if_neg hne, lines_unlines hnew, List.map_append, List.append_sublist_append_left,
    List.singleton_sublist, List.map_cons] at hsub
  rcases List.mem_cons.mp hsub with heq | hmem
  · -- The joined line is longer by more than a carriage return.
    have hlong : 2 ≤ line.length := by
      have hname : s.name.toList ≠ [] := (plain_name s).1
      have := List.length_pos_iff.mpr hname
      rw [hform, List.length_append, List.length_cons]
      omega
    have hlen := congrArg List.length heq
    rcases stripCr_cases (r ++ line) with h | h
    · rw [h, List.length_append] at hlen
      omega
    · have hboth := congrArg List.length h
      rw [List.length_append, List.length_append, List.length_singleton] at hboth
      omega
  · obtain ⟨l, hl, rfl⟩ := List.mem_map.mp hmem
    obtain ⟨hlR, hnot⟩ := hrest l hl
    obtain ⟨t, w, rfl, -⟩ := hR.form l hlR
    obtain ⟨w', hstrip⟩ := stripCr_assign t.name.toList w
    rw [keyOf_assign (plain_name t), hstrip, List.append_assoc, List.cons_append, grepLine_self (plain_name t)] at hnot
    cases hnot

/-- **An upgrade keeps the configuration just when nothing new is written, and that on lines of its own.** For every
text the checker accepts and every release, the merged text is accepted, has every old line and means the same, if and
only if each line of the release for which `grep` finds nothing has a key the old text does not assign and says nothing
new, and the old text ends with a newline unless no key is missing. -/
theorem merge_preserves_iff {release old : List Char} (hrelease : Release release)
    (hold : Config.validate old = .ok ()) : Preserved old (merge release old) ↔
      (∀ line ∈ settings release, grep (keyOf line) old = false →
        keyOf line ∉ (assignments old).map (·.1) ∧ Neutral old line) ∧
        (Ended old ∨ ∀ line ∈ settings release, grep (keyOf line) old = true) := by
  obtain ⟨ls, r, rfl, hls, hr⟩ := exists_cutLines old
  have hassigns := hrelease.assigns
  rw [merge_eq, ended_iff hr]
  by_cases hend : r = []
  · subst hend
    rw [List.append_nil] at hold ⊢
    have hmissing : Assigns (missing (settings release) ls) := hassigns.missing ls
    have hall : ∀ l ∈ ls ++ missing (settings release) ls, '\n' ∉ l := by
      refine List.forall_mem_append.mpr ⟨hls, ?_⟩
      intro l hl
      obtain ⟨_, _, _, hnl⟩ := hmissing.form l hl
      exact hnl
    rw [foldl_mergeLine_ended hassigns hls, preserved_append_iff hall hold hmissing]
    simp only [grep_unlines hls, true_or, and_true, mem_missing, and_imp]
  · rcases foldl_mergeLine_open hassigns hls hr with ⟨hall, hsame⟩ | ⟨line, hline, hnot, rest, hmerge, hrest⟩
    · rw [hsame]
      refine ⟨fun _ => ⟨?_, .inr hall⟩, fun _ => ⟨hold, .refl _, rfl⟩⟩
      intro line hline hnone
      rw [hall line hline] at hnone
      cases hnone
    · rw [hmerge]
      refine ⟨?_, ?_⟩
      · intro h
        exact absurd h.lines (not_sublist_open hassigns hls hr hend hline hrest)
      · intro h
        rcases h.2 with hempty | hall
        · exact absurd hempty hend
        · rw [hall line hline] at hnot
          cases hnot

/-! ## The release's own defaults -/

/-- The lines of `config.conf`. -/
def configLines : List String :=
  ["# Nfqttl Eclipse 4.4 — kernel-first, low idle activity", "TTL=64", "BACKEND=auto", "WORKERS=1", "DOWNSTREAMS=\"\"",
    "UPSTREAMS=\"\"", "DISABLE_OFFLOAD=1", "IPV6_MODE=auto", "IPV6_HL=64", "MAX_FAILURES=6", "COOLDOWN=1",
    "QUEUE_MAXLEN=4096", "RCVBUF_MB=8", "MAX_BACKLOG=3072", "STALL_LIMIT=3", "WATCHDOG_MS=500", "IDLE_MS=10000",
    "RESCAN_MS=10000", "CHECK_MS=5000", "# 0: segment oversized GSO packets rather than receive truncated skb copies",
    "GSO=0", "", "# Optional CAKE shaping: 0 disables. Requires rebuilt kernel, explicit interfaces.", "SQM_UP_KBIT=0",
    "SQM_DOWN_KBIT=0", "SQM_UP_IFACE=\"\"", "SQM_DOWN_IFACE=\"\""]

def configConf : List Char := unlines (configLines.map String.toList)

deriving instance DecidableEq for Config

instance (old line : List Char) : Decidable (Neutral old line) :=
  decidable_of_iff ((Config.checkLine {} (line, 0)).isOk = true ∧ (Config.loadLine {} line = {} ∨
      keyOf line = Setting.maxBacklog.name.toList ∧
        (Config.load (some old)).queueMaxlen ≤ min (Config.loadLine {} line).maxBacklog ({} : Config).maxBacklog))
    ⟨fun h => ⟨h.1, h.2⟩, fun h => ⟨h.accepted, h.value⟩⟩

theorem settings_configConf :
    settings configConf = (configLines.map String.toList).filter fun line => !skipped line := by
  have hnl : ∀ l ∈ configLines.map String.toList, '\n' ∉ l := by decide +kernel
  have hcut := cutLines_unlines hnl (r := []) (by simp)
  rw [List.append_nil] at hcut
  rw [settings, configConf, hcut]

/-- The release lists the settings, one line a key. -/
theorem release_configConf : Release configConf := by
  refine ⟨?_, ?_⟩ <;> rw [settings_configConf] <;> decide +kernel

/-- Two settings of an older release, each on a line of its own. -/
theorem merge_preserves_iff_older : Preserved "TTL=65\n IPV6_MODE = block\n".toList
    (merge configConf "TTL=65\n IPV6_MODE = block\n".toList) := by
  refine (merge_preserves_iff release_configConf (by decide)).mpr ⟨?_, .inl (.inr (by decide))⟩
  rw [settings_configConf]
  decide +kernel

/-- Without a newline at its end the old text runs into the first default. -/
theorem merge_not_preserved : ¬∀ old, Config.validate old = .ok () → Preserved old (merge configConf old) := by
  intro h
  have hmerged := (h "TTL=65".toList (by decide)).accepted
  exact absurd hmerged (by decide +kernel)

end Nfqttl.Customize
