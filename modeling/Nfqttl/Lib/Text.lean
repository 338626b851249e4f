/-
Text as a systems program reads it: lines, trimmed and split at a character or at
white space, and decimal numbers. A text is the list of its characters.
-/
import Mathlib.Algebra.Group.Nat.Defs
import Mathlib.Data.List.DropRight

namespace Text

/-! ## White space -/

/-- The characters with the property White_Space. -/
def isSpace (c : Char) : Bool :=
  let n := c.toNat
  decide (9 ≤ n ∧ n ≤ 13 ∨ n = 0x20 ∨ n = 0x85 ∨ n = 0xa0 ∨ n = 0x1680 ∨ 0x2000 ≤ n ∧ n ≤ 0x200a ∨ n = 0x2028 ∨
    n = 0x2029 ∨ n = 0x202f ∨ n = 0x205f ∨ n = 0x3000)

/-- A property of the characters of a text, looked at one by one. -/
theorem forall_mem_of_all {p : Char → Prop} [DecidablePred p] {s : List Char}
    (h : (s.all fun c => decide (p c)) = true) : ∀ c ∈ s, p c :=
  fun c hc => of_decide_eq_true (List.all_eq_true.mp h c hc)

def trimStart (s : List Char) : List Char := s.dropWhile isSpace
def trimEnd (s : List Char) : List Char := s.rdropWhile isSpace
def trim (s : List Char) : List Char := trimEnd (trimStart s)

/-- The parts between white space. -/
def words (s : List Char) : List (List Char) := (s.splitOnP isSpace).filter (!·.isEmpty)

@[simp] theorem trimEnd_nil : trimEnd [] = [] := rfl
@[simp] theorem trimStart_nil : trimStart [] = [] := rfl

theorem trimStart_cons (c : Char) (s : List Char) :
    trimStart (c :: s) = if isSpace c then trimStart s else c :: s := by
  simp only [trimStart, List.dropWhile_cons]

theorem trimEnd_cons (c : Char) (s : List Char) :
    trimEnd (c :: s) = if isSpace c = true ∧ trimEnd s = [] then [] else c :: trimEnd s := by
  simp only [trimEnd, List.rdropWhile, List.reverse_cons, List.dropWhile_append, List.isEmpty_iff,
    List.reverse_eq_nil_iff]
  by_cases hs : s.reverse.dropWhile isSpace = []
  · cases hc : isSpace c <;> simp [hs, hc]
  · simp [hs]

/-- A character that is no white space stops both trims. -/
theorem trimEnd_append {c : Char} (hc : isSpace c = false) (k v : List Char) :
    trimEnd (k ++ c :: v) = k ++ c :: trimEnd v := by
  induction k with
  | nil => simp [trimEnd_cons, hc]
  | cons x k ih => simp [trimEnd_cons, ih]

theorem trimStart_append {c : Char} (hc : isSpace c = false) (k v : List Char) :
    trimStart (k ++ c :: v) = trimStart k ++ c :: v := by
  induction k with
  | nil => simp [trimStart_cons, hc]
  | cons x k ih =>
    cases hx : isSpace x
    · simp [trimStart_cons, hx]
    · simpa [trimStart_cons, hx] using ih

@[simp] theorem trimEnd_trimEnd (s : List Char) : trimEnd (trimEnd s) = trimEnd s := List.rdropWhile_idempotent ..

/-- The order of the two trims does not matter. -/
theorem trimStart_trimEnd (s : List Char) : trimStart (trimEnd s) = trim s := by
  induction s with
  | nil => rfl
  | cons x s ih =>
    rw [trim, trimStart_cons, trimEnd_cons]
    cases hx : isSpace x
    · simp [trimStart_cons, trimEnd_cons, hx]
    · by_cases hs : trimEnd s = []
      · simpa [hs, trim] using ih
      · simpa [hs, trimStart_cons, hx, trim] using ih

@[simp] theorem trimStart_trimStart (s : List Char) : trimStart (trimStart s) = trimStart s := by
  induction s with
  | nil => rfl
  | cons x s ih => cases hx : isSpace x <;> simp [trimStart_cons, hx, ih]

@[simp] theorem trim_trimStart (s : List Char) : trim (trimStart s) = trim s := by rw [trim, trimStart_trimStart, trim]

@[simp] theorem trim_trimEnd (s : List Char) : trim (trimEnd s) = trim s := by
  rw [← trimStart_trimEnd, trimEnd_trimEnd, trimStart_trimEnd]

theorem trim_trim (s : List Char) : trim (trim s) = trim s := by
  have htrim : trim s = trimStart (trimEnd s) := (trimStart_trimEnd s).symm
  rw [htrim, trim_trimStart, trim_trimEnd, htrim]

theorem trim_eq_self {s : List Char} (h : ∀ c ∈ s, isSpace c = false) : trim s = s := by
  induction s with
  | nil => rfl
  | cons x s ih =>
    have hx := h x (List.mem_cons_self ..)
    have hs : ∀ c ∈ s, isSpace c = false := fun c hc => h c (List.mem_cons_of_mem _ hc)
    have hend : trimEnd s = s := List.rdropWhile_eq_self_iff.mpr fun hl => by simp [hs _ (List.getLast_mem hl)]
    simp [trim, trimStart_cons, trimEnd_cons, hx, hend]

/-- Words, each ended by a blank. -/
def unwords (ws : List (List Char)) : List Char := ws.flatMap (· ++ [' '])

theorem words_unwords {ws : List (List Char)} (h : ∀ w ∈ ws, w ≠ [] ∧ ∀ c ∈ w, isSpace c = false) :
    words (unwords ws) = ws := by
  induction ws with
  | nil => rfl
  | cons w ws ih =>
    obtain ⟨hne, hw⟩ := h w (List.mem_cons_self ..)
    have hws := ih fun w' hw' => h w' (List.mem_cons_of_mem _ hw')
    have hcons : unwords (w :: ws) = w ++ ' ' :: unwords ws := by simp [unwords]
    rw [words] at hws ⊢
    rw [hcons, List.splitOnP_append_cons_of_forall_mem hw ' ' (by decide), List.filter_cons_of_pos (by simpa using hne),
      hws]

/-- Words come back from a text that has single blanks between them. -/
theorem words_intercalate {ws : List (List Char)} (h : ∀ w ∈ ws, w ≠ [] ∧ ∀ c ∈ w, isSpace c = false) :
    words ([' '].intercalate ws) = ws := by
  induction ws with
  | nil => rfl
  | cons w ws ih =>
    obtain ⟨hne, hw⟩ := h w (List.mem_cons_self ..)
    have hws := ih fun w' hw' => h w' (List.mem_cons_of_mem _ hw')
    cases ws with
    | nil =>
      rw [List.intercalate_singleton, words, List.splitOnP_eq_singleton hw,
        List.filter_cons_of_pos (by simpa using hne), List.filter_nil]
    | cons w' ws =>
      rw [words] at hws ⊢
      rw [List.intercalate_cons_cons, List.append_assoc, List.singleton_append,
        List.splitOnP_append_cons_of_forall_mem hw ' ' (by decide), List.filter_cons_of_pos (by simpa using hne), hws]

/-! ## Splitting at a character -/

/-- What stands before and after the first `c`. -/
def splitOnce (c : Char) : List Char → Option (List Char × List Char)
  | [] => none
  | x :: s => if x = c then some ([], s) else (splitOnce c s).map fun p => (x :: p.1, p.2)

theorem splitOnce_append {c : Char} {k : List Char} (h : c ∉ k) (v : List Char) :
    splitOnce c (k ++ c :: v) = some (k, v) := by
  induction k with
  | nil => simp [splitOnce]
  | cons x k ih =>
    obtain ⟨hx, hk⟩ : c ≠ x ∧ c ∉ k := by simpa using h
    simp [splitOnce, hx.symm, ih hk]

theorem splitOnce_some {c : Char} {s k v : List Char} (h : splitOnce c s = some (k, v)) :
    s = k ++ c :: v ∧ c ∉ k := by
  induction s generalizing k with
  | nil => cases h
  | cons x s ih =>
    rw [splitOnce] at h
    split at h
    · next hx =>
      cases h
      simp [hx]
    · next hx =>
      obtain ⟨⟨k', v'⟩, hs, heq⟩ := Option.map_eq_some_iff.mp h
      cases heq
      obtain ⟨rfl, hk⟩ := ih hs
      simp [hk, Ne.symm hx]

theorem splitOnce_eq_none {c : Char} {s : List Char} : splitOnce c s = none ↔ c ∉ s := by
  induction s with
  | nil => simp [splitOnce]
  | cons x s ih =>
    by_cases hx : x = c
    · simp [splitOnce, hx]
    · simp [splitOnce, hx, ih, Ne.symm hx]

/-- Trimming before the split trims the outer ends of the parts. -/
theorem splitOnce_trim {c : Char} (hc : isSpace c = false) (s : List Char) :
    splitOnce c (trim s) = (splitOnce c s).map fun p => (trimStart p.1, trimEnd p.2) := by
  cases hs : splitOnce c s with
  | none =>
    rw [splitOnce_eq_none] at hs
    have hsub : ∀ x ∈ trim s, x ∈ s := fun x hx =>
      (List.dropWhile_suffix _).subset ((List.rdropWhile_prefix _ _).subset hx)
    exact splitOnce_eq_none.mpr fun hmem => hs (hsub c hmem)
  | some p =>
    obtain ⟨k, v⟩ := p
    obtain ⟨rfl, hk⟩ := splitOnce_some hs
    have hk' : c ∉ trimStart k := fun hmem => hk ((List.dropWhile_suffix _).subset hmem)
    rw [trim, trimStart_append hc, trimEnd_append hc, splitOnce_append hk']
    rfl

/-! ## Lines -/

/-- A line without the carriage return before its newline. -/
def stripCr (l : List Char) : List Char := if l.getLast? = some '\r' then l.dropLast else l

theorem stripCr_cases (l : List Char) : stripCr l = l ∨ l = stripCr l ++ ['\r'] := by
  rw [stripCr]
  split
  · next h =>
    obtain ⟨hne, hlast⟩ := List.getLast?_eq_some_iff.mp h
    exact .inr (by rw [hlast, List.dropLast_concat])
  · exact .inl rfl

/-- The lines of `s`, of which the first goes on from `acc`, kept in reverse. -/
def linesFrom (acc : List Char) : List Char → List (List Char)
  | [] => if acc = [] then [] else [acc.reverse]
  | c :: s => if c = '\n' then stripCr acc.reverse :: linesFrom [] s else linesFrom (c :: acc) s

def lines (s : List Char) : List (List Char) := linesFrom [] s

/-- The lines, each ended by a newline. -/
def unlines (ls : List (List Char)) : List Char := ls.flatMap (· ++ ['\n'])

theorem linesFrom_append {l : List Char} (h : '\n' ∉ l) (acc s : List Char) :
    linesFrom acc (l ++ '\n' :: s) = stripCr (acc.reverse ++ l) :: linesFrom [] s := by
  induction l generalizing acc with
  | nil => simp [linesFrom]
  | cons x l ih =>
    obtain ⟨hx, hl⟩ : '\n' ≠ x ∧ '\n' ∉ l := by simpa using h
    simp [linesFrom, hx.symm, ih hl]

theorem unlines_cons (l : List Char) (ls : List (List Char)) : unlines (l :: ls) = l ++ '\n' :: unlines ls := by
  simp [unlines]

/-- A last line that no newline ends keeps its carriage return. -/
theorem lines_cut {ls : List (List Char)} (h : ∀ l ∈ ls, '\n' ∉ l) {r : List Char} (hr : '\n' ∉ r) :
    lines (unlines ls ++ r) = ls.map stripCr ++ if r = [] then [] else [r] := by
  induction ls with
  | nil =>
    have hrest : ∀ acc, linesFrom acc r = if acc.reverse ++ r = [] then [] else [acc.reverse ++ r] := by
      induction r with
      | nil => simp [linesFrom]
      | cons c r ih =>
        obtain ⟨hc, hr⟩ : '\n' ≠ c ∧ '\n' ∉ r := by simpa using hr
        intro acc
        rw [linesFrom, if_neg hc.symm, ih hr]
        simp
    exact hrest []
  | cons l ls ih =>
    obtain ⟨hl, hls⟩ := List.forall_mem_cons.mp h
    rw [unlines_cons, List.append_assoc, List.cons_append, lines, linesFrom_append hl, List.reverse_nil,
      List.nil_append, ← lines, ih hls, List.map_cons, List.cons_append]

theorem lines_unlines {ls : List (List Char)} (h : ∀ l ∈ ls, '\n' ∉ l) : lines (unlines ls) = ls.map stripCr := by
  have hcut := lines_cut h (r := []) (by simp)
  rwa [List.append_nil, if_pos rfl, List.append_nil] at hcut

/-- Lines without white space are read as they stand. -/
theorem lines_unlines_visible {ls : List (List Char)} (h : ∀ l ∈ ls, ∀ c ∈ l, isSpace c = false) :
    lines (unlines ls) = ls := by
  have hnl : ∀ l ∈ ls, '\n' ∉ l := fun l hl hmem => absurd (h l hl _ hmem) (by decide)
  have hcr : ∀ l ∈ ls, stripCr l = l := by
    intro l hl
    refine if_neg ?_
    intro hlast
    exact absurd (h l hl _ (List.mem_of_getLast? hlast)) (by decide)
  rw [lines_unlines hnl]
  exact (List.map_congr_left hcr).trans (List.map_id ls)

/-- The lines that a newline ends, and what stands after the last one. -/
def cutLines : List Char → List (List Char) × List Char
  | [] => ([], [])
  | c :: s =>
    if c = '\n' then ([] :: (cutLines s).1, (cutLines s).2)
    else
      match (cutLines s).1 with
      | [] => ([], c :: (cutLines s).2)
      | l :: ls => ((c :: l) :: ls, (cutLines s).2)

theorem cutLines_cons {l : List Char} (h : '\n' ∉ l) (s : List Char) :
    cutLines (l ++ '\n' :: s) = (l :: (cutLines s).1, (cutLines s).2) := by
  induction l with
  | nil => rw [List.nil_append, cutLines, if_pos rfl]
  | cons c l ih =>
    obtain ⟨hc, hl⟩ : '\n' ≠ c ∧ '\n' ∉ l := by simpa using h
    rw [List.cons_append, cutLines, if_neg hc.symm, ih hl]

theorem cutLines_rest {r : List Char} (h : '\n' ∉ r) : cutLines r = ([], r) := by
  induction r with
  | nil => rfl
  | cons c r ih =>
    obtain ⟨hc, hr⟩ : '\n' ≠ c ∧ '\n' ∉ r := by simpa using h
    rw [cutLines, if_neg hc.symm, ih hr]

theorem cutLines_unlines {ls : List (List Char)} (h : ∀ l ∈ ls, '\n' ∉ l) {r : List Char} (hr : '\n' ∉ r) :
    cutLines (unlines ls ++ r) = (ls, r) := by
  induction ls with
  | nil => exact cutLines_rest hr
  | cons l ls ih =>
    obtain ⟨hl, hls⟩ := List.forall_mem_cons.mp h
    rw [unlines_cons, List.append_assoc, List.cons_append, cutLines_cons hl, ih hls]

/-- Every text is lines, and perhaps a last one that no newline ends. -/
theorem exists_cutLines (s : List Char) : ∃ ls r, s = unlines ls ++ r ∧ (∀ l ∈ ls, '\n' ∉ l) ∧ '\n' ∉ r := by
  induction s with
  | nil => exact ⟨[], [], rfl, by simp, by simp⟩
  | cons c s ih =>
    obtain ⟨ls, r, rfl, hls, hr⟩ := ih
    by_cases hc : c = '\n'
    · subst hc
      exact ⟨[] :: ls, r, by rw [unlines_cons]; rfl, List.forall_mem_cons.mpr ⟨by simp, hls⟩, hr⟩
    · cases ls with
      | nil => exact ⟨[], c :: r, rfl, by simp, by simp [hr, Ne.symm hc]⟩
      | cons l ls =>
        obtain ⟨hl, hls⟩ := List.forall_mem_cons.mp hls
        exact ⟨(c :: l) :: ls, r, by simp [unlines_cons], List.forall_mem_cons.mpr ⟨by simp [hl, Ne.symm hc], hls⟩, hr⟩

theorem newline_notMem_linesFrom {acc s l : List Char} (hacc : '\n' ∉ acc) (h : l ∈ linesFrom acc s) : '\n' ∉ l := by
  induction s generalizing acc with
  | nil =>
    rw [linesFrom] at h
    split at h <;> simp_all
  | cons c s ih =>
    rw [linesFrom] at h
    split at h
    · rcases List.mem_cons.mp h with rfl | h
      · intro hmem
        rw [stripCr] at hmem
        split at hmem
        · exact hacc (by simpa using List.dropLast_subset _ hmem)
        · exact hacc (by simpa using hmem)
      · exact ih (by simp) h
    · next hc => exact ih (by simp [hacc, Ne.symm hc]) h

theorem newline_notMem_lines {s l : List Char} (h : l ∈ lines s) : '\n' ∉ l :=
  newline_notMem_linesFrom (by simp) h

/-- A carriage return is white space. -/
@[simp] theorem trim_stripCr (l : List Char) : trim (stripCr l) = trim l := by
  rw [stripCr]
  split
  · next h =>
    obtain ⟨l', rfl⟩ : ∃ l', l = l' ++ ['\r'] := by
      obtain ⟨hne, hlast⟩ := List.getLast?_eq_some_iff.mp h
      exact ⟨_, hlast⟩
    have hcr : isSpace '\r' = true := by decide
    rw [List.dropLast_concat, ← trimStart_trimEnd, ← trimStart_trimEnd (l' ++ ['\r']), trimEnd, trimEnd,
      List.rdropWhile_concat_pos _ _ _ hcr]
  · rfl

/-! ## Decimal numbers -/

/-- The value of a string of digits. -/
def digits (s : List Char) : Option Nat :=
  if s ≠ [] ∧ s.all Char.isDigit then some (s.foldl (fun n c => 10 * n + (c.toNat - 48)) 0) else none

/-- A number with its sign, as far as one is written. -/
def decimal : List Char → Option Nat
  | '+' :: s => digits s
  | s => digits s

/-- Reading an unsigned integer of `bits` bits. -/
def parseUnsigned (bits : Nat) (s : List Char) : Option Nat := (decimal s).filter (· < 2 ^ bits)

/-- A number reads back from its digits. -/
theorem digits_toDigits (n : Nat) : digits (Nat.toDigits 10 n) = some n := by
  have hdigit : (Nat.toDigits 10 n).all Char.isDigit = true :=
    List.all_eq_true.mpr fun c hc => Nat.isDigit_of_mem_toDigits (by decide) (by decide) hc
  rw [digits, if_pos ⟨Nat.toDigits_ne_nil, hdigit⟩]
  exact congrArg some Nat.ofDigitChars_ten_toDigits

theorem decimal_toDigits (n : Nat) : decimal (Nat.toDigits 10 n) = some n := by
  rw [← digits_toDigits n]
  cases hs : Nat.toDigits 10 n with
  | nil => rfl
  | cons c s =>
    have hc : c.isDigit = true := Nat.isDigit_of_mem_toDigits (by decide) (by decide) (hs ▸ List.mem_cons_self ..)
    have hplus : c ≠ '+' := by rintro rfl; exact absurd hc (by decide)
    rw [decimal]
    simpa using hplus

theorem parseUnsigned_toDigits {bits n : Nat} (h : n < 2 ^ bits) :
    parseUnsigned bits (Nat.toDigits 10 n) = some n := by
  simp [parseUnsigned, decimal_toDigits, h]

theorem isSpace_toDigits {c : Char} {n : Nat} (h : c ∈ Nat.toDigits 10 n) : isSpace c = false := by
  have hdigit : c.isDigit = true := Nat.isDigit_of_mem_toDigits (by decide) (by decide) h
  rw [Char.isDigit, Bool.and_eq_true, decide_eq_true_eq, decide_eq_true_eq] at hdigit
  have hlo : 48 ≤ c.toNat := UInt32.le_iff_toNat_le.mp hdigit.1
  have hhi : c.toNat ≤ 57 := UInt32.le_iff_toNat_le.mp hdigit.2
  simp only [isSpace, decide_eq_false_iff_not]
  omega

/-- Reading a signed integer of `bits` bits. -/
def parseSigned (bits : Nat) : List Char → Option Int
  | '-' :: s => ((digits s).filter (· ≤ 2 ^ (bits - 1))).map fun n => -(n : Int)
  | s => ((decimal s).filter (· < 2 ^ (bits - 1))).map fun n => (n : Int)

/-! ## Bytes in hexadecimal -/

/-- The value of a hexadecimal digit. -/
def hexDigit (c : Char) : Option Nat :=
  if '0' ≤ c ∧ c ≤ '9' then some (c.toNat - 48)
  else if 'a' ≤ c ∧ c ≤ 'f' then some (c.toNat - 87)
  else if 'A' ≤ c ∧ c ≤ 'F' then some (c.toNat - 55)
  else none

/-- Two characters read as a number of base 16; the first may be its sign. -/
def hexByte (a b : Char) : Option UInt8 := do
  let hi ← if a = '+' then some 0 else hexDigit a
  let lo ← hexDigit b
  return UInt8.ofNat (16 * hi + lo)

/-- The bytes of a string of pairs of digits. -/
def bytesOfHex : List Char → Option (List UInt8)
  | [] => some []
  | [_] => none
  | a :: b :: s => do
    let x ← hexByte a b
    let xs ← bytesOfHex s
    return x :: xs

/-- Two digits a byte, in lower case. -/
def hexOfBytes (b : List UInt8) : List Char :=
  b.flatMap fun x => [Nat.digitChar (x.toNat / 16), Nat.digitChar (x.toNat % 16)]

theorem hexOfBytes_cons (x : UInt8) (b : List UInt8) :
    hexOfBytes (x :: b) = Nat.digitChar (x.toNat / 16) :: Nat.digitChar (x.toNat % 16) :: hexOfBytes b := rfl

theorem hexDigit_digitChar : ∀ n < 16, hexDigit (Nat.digitChar n) = some n ∧ Nat.digitChar n ≠ '+' := by decide

theorem hexByte_digits (x : UInt8) :
    hexByte (Nat.digitChar (x.toNat / 16)) (Nat.digitChar (x.toNat % 16)) = some x := by
  have hx := x.toNat_lt
  obtain ⟨hhi, hplus⟩ := hexDigit_digitChar (x.toNat / 16) (by omega)
  obtain ⟨hlo, -⟩ := hexDigit_digitChar (x.toNat % 16) (by omega)
  rw [hexByte, if_neg hplus, hhi, hlo]
  change some (UInt8.ofNat (16 * (x.toNat / 16) + x.toNat % 16)) = some x
  rw [Nat.div_add_mod, UInt8.ofNat_toNat]

/-- Bytes read back from their digits. -/
theorem bytesOfHex_hexOfBytes (b : List UInt8) : bytesOfHex (hexOfBytes b) = some b := by
  induction b with
  | nil => rfl
  | cons x b ih =>
    rw [hexOfBytes_cons, bytesOfHex, hexByte_digits, ih]
    rfl

theorem length_hexOfBytes (b : List UInt8) : (hexOfBytes b).length = 2 * b.length := by
  induction b with
  | nil => rfl
  | cons x b ih =>
    rw [hexOfBytes_cons, List.length_cons, List.length_cons, ih, List.length_cons]
    omega

/-- The digits are visible characters of ASCII. -/
theorem hexOfBytes_ascii {b : List UInt8} {c : Char} (h : c ∈ hexOfBytes b) :
    isSpace c = false ∧ c.toNat < 128 := by
  have hdigit : ∀ n < 16, isSpace (Nat.digitChar n) = false ∧ (Nat.digitChar n).toNat < 128 := by decide
  obtain ⟨x, -, hc⟩ := List.mem_flatMap.mp h
  have hx := x.toNat_lt
  rcases List.mem_cons.mp hc with rfl | hc
  · exact hdigit _ (by omega)
  · obtain rfl := List.mem_singleton.mp hc
    exact hdigit _ (by omega)

/-! ### What is read as bytes -/

/-- The pairs of characters a string is read by. -/
def pairs : List Char → List (Char × Char)
  | a :: b :: s => (a, b) :: pairs s
  | _ => []

/-- A pair is a byte if it is two digits, or a plus sign and a digit. -/
def IsHexPair (p : Char × Char) : Prop := (p.1 = '+' ∨ (hexDigit p.1).isSome) ∧ (hexDigit p.2).isSome

instance (p : Char × Char) : Decidable (IsHexPair p) := inferInstanceAs (Decidable (_ ∧ _))

theorem forall_pairs {P : Char → Prop} {s : List Char} (h : s.length % 2 = 0) :
    (∀ c ∈ s, P c) ↔ ∀ p ∈ pairs s, P p.1 ∧ P p.2 := by
  induction s using bytesOfHex.induct with
  | case1 => simp [pairs]
  | case2 c => cases h
  | case3 a b s ih =>
    have hs : s.length % 2 = 0 := by
      rw [List.length_cons, List.length_cons] at h
      omega
    rw [pairs, List.forall_mem_cons, List.forall_mem_cons, List.forall_mem_cons, ih hs, and_assoc]

theorem hexDigit_some {c : Char} {n : Nat} (h : hexDigit c = some n) :
    n < 16 ∧ Nat.digitChar n = c.toLower ∧ c.toNat < 128 := by
  have hall : ∀ k < 128, ∀ n ∈ hexDigit (Char.ofNat k), n < 16 ∧ Nat.digitChar n = (Char.ofNat k).toLower := by decide
  have hc : c.toNat < 128 := by
    have hle : ∀ d : Char, c ≤ d → c.toNat ≤ d.toNat := fun d hd => UInt32.le_iff_toNat_le.mp hd
    rw [hexDigit] at h
    split at h
    · next hd => exact Nat.lt_of_le_of_lt (hle _ hd.2) (by decide)
    split at h
    · next hd => exact Nat.lt_of_le_of_lt (hle _ hd.2) (by decide)
    split at h
    · next hd => exact Nat.lt_of_le_of_lt (hle _ hd.2) (by decide)
    cases h
  obtain ⟨hn, hlower⟩ := hall c.toNat hc n (by rwa [Char.ofNat_toNat])
  rw [Char.ofNat_toNat] at hlower
  exact ⟨hn, hlower, hc⟩

theorem hexByte_isSome (a b : Char) : (hexByte a b).isSome ↔ IsHexPair (a, b) := by
  by_cases ha : a = '+'
  · cases hb : hexDigit b <;> simp [hexByte, IsHexPair, ha, hb]
  · cases hd : hexDigit a <;> cases hb : hexDigit b <;> simp [hexByte, IsHexPair, ha, hd, hb]

/-- A byte without a sign is written as it was read, in lower case. -/
theorem hexByte_written {a b : Char} {x : UInt8} (h : hexByte a b = some x) (ha : a ≠ '+') :
    hexOfBytes [x] = [a.toLower, b.toLower] := by
  cases hhi : hexDigit a with
  | none => simp [hexByte, ha, hhi] at h
  | some hi =>
    cases hlo : hexDigit b with
    | none => simp [hexByte, ha, hhi, hlo] at h
    | some lo =>
      obtain ⟨hhi16, hhia, -⟩ := hexDigit_some hhi
      obtain ⟨hlo16, hlob, -⟩ := hexDigit_some hlo
      obtain rfl : UInt8.ofNat (16 * hi + lo) = x := by simpa [hexByte, ha, hhi, hlo] using h
      have hx : (UInt8.ofNat (16 * hi + lo)).toNat = 16 * hi + lo := by
        rw [UInt8.toNat_ofNat']
        omega
      have hdiv : (16 * hi + lo) / 16 = hi := by omega
      have hmod : (16 * hi + lo) % 16 = lo := by omega
      rw [hexOfBytes_cons, hx, hdiv, hmod, hhia, hlob]
      rfl

/-- A string is read if it is made of such pairs. -/
theorem bytesOfHex_isSome (s : List Char) :
    (bytesOfHex s).isSome ↔ s.length % 2 = 0 ∧ ∀ p ∈ pairs s, IsHexPair p := by
  induction s using bytesOfHex.induct with
  | case1 => simp [bytesOfHex, pairs]
  | case2 c => simp [bytesOfHex]
  | case3 a b s ih =>
    have hlen : (a :: b :: s).length % 2 = 0 ↔ s.length % 2 = 0 := by
      rw [List.length_cons, List.length_cons]
      omega
    rw [pairs, List.forall_mem_cons, ← hexByte_isSome, hlen, and_left_comm, ← ih, bytesOfHex]
    cases hexByte a b <;> cases bytesOfHex s <;> simp

theorem bytesOfHex_ascii {s : List Char} {b : List UInt8} (h : bytesOfHex s = some b) : ∀ c ∈ s, c.toNat < 128 := by
  have hdigit : ∀ c, (hexDigit c).isSome → c.toNat < 128 := by
    intro c hc
    obtain ⟨n, hn⟩ := Option.isSome_iff_exists.mp hc
    exact (hexDigit_some hn).2.2
  obtain ⟨heven, hpairs⟩ := (bytesOfHex_isSome s).mp (h ▸ rfl)
  refine (forall_pairs heven).mpr ?_
  intro p hp
  obtain ⟨hfst, hsnd⟩ := hpairs p hp
  refine ⟨?_, hdigit _ hsnd⟩
  rcases hfst with hplus | hfst
  · rw [hplus]
    decide
  · exact hdigit _ hfst

/-- Without signs it is written as it was read, in lower case. -/
theorem hexOfBytes_bytesOfHex {s : List Char} {b : List UInt8} (h : bytesOfHex s = some b) (hs : '+' ∉ s) :
    hexOfBytes b = s.map Char.toLower := by
  induction s using bytesOfHex.induct generalizing b with
  | case1 =>
    obtain rfl : [] = b := by simpa [bytesOfHex] using h
    rfl
  | case2 c => simp [bytesOfHex] at h
  | case3 a c s ih =>
    cases hx : hexByte a c with
    | none => simp [bytesOfHex, hx] at h
    | some x =>
      cases hxs : bytesOfHex s with
      | none => simp [bytesOfHex, hx, hxs] at h
      | some xs =>
        obtain rfl : x :: xs = b := by simpa [bytesOfHex, hx, hxs] using h
        have ha : a ≠ '+' := fun ha => hs (ha ▸ List.mem_cons_self ..)
        have hrest : '+' ∉ s := fun hmem => hs (List.mem_cons_of_mem _ (List.mem_cons_of_mem _ hmem))
        have hsplit : hexOfBytes (x :: xs) = hexOfBytes [x] ++ hexOfBytes xs := rfl
        rw [hsplit, hexByte_written hx ha, ih hxs hrest]
        rfl

/-! ## Sizes -/

theorem utf8ByteSize_ascii {s : List Char} (h : ∀ c ∈ s, c.toNat < 128) : (String.ofList s).utf8ByteSize = s.length := by
  induction s with
  | nil => rfl
  | cons c s ih =>
    have hc : c.utf8Size = 1 := Char.utf8Size_eq_one_iff.mpr (UInt32.le_iff_toNat_le.mpr
      (Nat.le_of_lt_succ (h c (List.mem_cons_self ..))))
    have hs := ih fun c' hc' => h c' (List.mem_cons_of_mem _ hc')
    have hcons : String.ofList (c :: s) = String.singleton c ++ String.ofList s := by
      rw [String.singleton_eq_ofList, ← String.ofList_append, List.singleton_append]
    rw [hcons, String.utf8ByteSize_append, String.utf8ByteSize_singleton, hc, hs, List.length_cons, Nat.add_comm]

end Text
