/-
What `parse_counters` makes of the listings of both families. iptables prints `--` in the
column of the fragment flag and ip6tables nothing, so a row of an IPv6 rule has a word
less, and every column behind it is read one place too far left.
-/
import Nfqttl.Install
import Nfqttl.VerifyRules

namespace Nfqttl.Verify

open Firewall Text

/-! ## Rows -/

/-- A rule of a payload chain with its counters, and what is printed of it in the columns that are not read. -/
structure Listed where
  input : String
  output : String
  target : String
  pkts : UInt64
  bytes : UInt64
  prot : List Char
  source : List Char
  destination : List Char
  options : List (List Char)

namespace Listed

/-- What is to be read of the rule. -/
def count (r : Listed) : RuleCount := ⟨r.input, r.output, r.target, r.pkts⟩

/-- The words of its row. -/
def columns (v6 : Bool) (r : Listed) : List (List Char) :=
  [printed r.pkts, printed r.bytes, r.target.toList, r.prot] ++ (if v6 then [] else ["--".toList]) ++
    [r.input.toList, r.output.toList, r.source, r.destination] ++ r.options

/-- What is read of a row of an IPv6 rule. -/
def misread (r : Listed) : Option RuleCount :=
  if r.options = [] then none else some ⟨r.output, String.ofList r.source, r.target, r.pkts⟩

end Listed

/-- The rules are those that `install4` or `install6` leaves in the chain it names, with any counters. -/
def Created (v6 : Bool) (rows : List Listed) : Prop :=
  ∃ (l : Links) (kernel : Bool) (workers ttl hl : Nat) (mode : V6Mode) (act : Action),
    (∀ s ∈ l.down ++ l.up, validIface s.toList = true) ∧
    act = (if v6 then target6 mode hl else target4 kernel workers ttl) ∧
    (rows.map fun r => pairRule r.input r.output act) = payload l act ∧
    ∀ r ∈ rows, (pairRule r.input r.output act).target? = some r.target

/-- `text` is printed of a chain with these rules: the two header lines, and a row for each. -/
def Lists (v6 : Bool) (rows : List Listed) (text : List Char) : Prop :=
  ∃ title columns body, lines text = title :: columns :: body ∧ (words title).head? = some "Chain".toList ∧
    (words columns).head? = some "pkts".toList ∧ List.Forall₂ (fun r line => words line = r.columns v6) rows body

variable {r : Listed} {rows : List Listed} {line text : List Char}

/-- The row is one that is printed of its rule, for IPv6 with the opt column blank, where a rule without a source
prints options unless it drops. -/
theorem Listed.prints {v6 : Bool} (h : words line = r.columns v6)
    (hblank : v6 = true → r.source = anywhere.toList ∧ (r.options = [] ↔ r.target = "DROP")) :
    PrintsRow v6 r.count line := by
  refine ⟨r.bytes, r.prot, r.source, r.destination, _, r.options, h, ?_⟩
  cases v6 with
  | false => rfl
  | true => exact ⟨rfl, hblank rfl⟩

/-- A row of an IPv4 rule is read as the rule. -/
theorem parseRow_v4 (h : words line = r.columns false) : parseRow line = some r.count :=
  parseRow_prints (Listed.prints h nofun)

/-- Of a row of an IPv6 rule the columns behind the blank one are read, if there are enough of them. -/
theorem parseRow_v6 (h : words line = r.columns true) : parseRow line = r.misread := by
  cases ho : r.options with
  | nil => simp [parseRow, h, Listed.columns, Listed.misread, ho]
  | cons o os => simp [parseRow, h, Listed.columns, Listed.misread, ho, parse_printed]

/-- The header lines are skipped, whatever the rows are. -/
theorem parseCounters_lists {v6 : Bool} (h : Lists v6 rows text) {f : Listed → Option RuleCount}
    (hf : ∀ r line, words line = r.columns v6 → parseRow line = f r) : parseCounters text = rows.filterMap f := by
  obtain ⟨title, columns, body, hlines, htitle, hcolumns, hbody⟩ := h
  have hrows : body.filterMap parseRow = rows.filterMap f := by
    clear hlines
    induction hbody with
    | nil => rfl
    | cons hr _ ih => rw [List.filterMap_cons, List.filterMap_cons, hf _ _ hr, ih]
  rw [parseCounters, hlines, List.filterMap_cons_none (parseRow_none htitle (by decide)),
    List.filterMap_cons_none (parseRow_none hcolumns (by decide)), hrows]

/-- An installed rule has two different interfaces. -/
theorem Created.apart {v6 : Bool} (h : Created v6 rows) (hr : r ∈ rows) : r.input ≠ r.output := by
  obtain ⟨l, kernel, workers, ttl, hl, mode, act, -, -, hpayload, -⟩ := h
  have hmem : pairRule r.input r.output act ∈ payload l act := hpayload ▸ List.mem_map_of_mem hr
  obtain ⟨p, hp, heq⟩ := List.mem_map.mp hmem
  obtain ⟨hinput, houtput⟩ : p.1 = r.input ∧ p.2 = r.output := by simpa [pairRule] using heq
  rw [← hinput, ← houtput]
  exact (Links.mem_pairs.mp hp).2.2

/-- The rows of IPv6 rules are read as something else. -/
theorem parseCounters_v6 (hc : Created true rows) (h : Lists true rows text) (hne : rows ≠ []) :
    parseCounters text ≠ rows.map Listed.count := by
  rw [parseCounters_lists h fun _ _ => parseRow_v6]
  intro heq
  cases rows with
  | nil => exact hne rfl
  | cons r rows =>
    by_cases ho : r.options = []
    · -- The first row is left out, so there are too few counts.
      have hnone : r.misread = none := if_pos ho
      rw [List.filterMap_cons_none hnone] at heq
      have hle := List.length_filterMap_le Listed.misread rows
      rw [heq, List.length_map, List.length_cons] at hle
      omega
    · have hsome : r.misread = some ⟨r.output, String.ofList r.source, r.target, r.pkts⟩ := if_neg ho
      rw [List.filterMap_cons_some hsome, List.map_cons] at heq
      have hinput : r.output = r.input := congrArg RuleCount.input (List.cons.inj heq).1
      exact hc.apart (List.mem_cons_self ..) hinput.symm

/-- The listing of a chain, with single blanks between the columns. -/
def listed (v6 : Bool) (chain : String) (rows : List Listed) : List Char :=
  unlines ((headWords chain ++ rows.map (Listed.columns v6)).map unwords)

/-- Rules whose columns are words have a listing. -/
theorem listed_lists {v6 : Bool} {chain : String} (hchain : Word chain.toList)
    (h : ∀ r ∈ rows, ∀ w ∈ r.columns v6, Word w) : Lists v6 rows (listed v6 chain rows) := by
  have hwords : ∀ ws ∈ rows.map (Listed.columns v6), ∀ w ∈ ws, Word w := by
    intro ws hws
    obtain ⟨r, hr, rfl⟩ := List.mem_map.mp hws
    exact h r hr
  obtain ⟨title, columns, hlines, htitle, hcolumns⟩ := listing_lines hchain hwords
  refine ⟨title, columns, _, hlines, htitle, hcolumns, ?_⟩
  rw [List.map_map, List.forall₂_map_right_iff, List.forall₂_same]
  intro r hr
  exact words_unwords (h r hr)

/-- **Counter rows.** What is read of the listing of rules that `install4` or `install6` made is one count for each
rule, in order, exactly when they are IPv4 rules or there are none. -/
theorem parseCounters_iff {v6 : Bool} (hc : Created v6 rows) (h : Lists v6 rows text) :
    parseCounters text = rows.map Listed.count ↔ v6 = false ∨ rows = [] := by
  cases v6 with
  | false =>
    refine iff_of_true ?_ (.inl rfl)
    rw [parseCounters_lists h fun _ _ => parseRow_v4]
    exact congrFun List.filterMap_eq_map rows
  | true =>
    refine ⟨fun heq => .inr ?_, fun hor => ?_⟩
    · by_contra hne
      exact parseCounters_v6 hc h hne heq
    · obtain rfl : rows = [] := by simpa using hor
      rw [parseCounters_lists h fun _ _ => parseRow_v6]
      rfl

/-! ## Two listings -/

/-- The rule of an IPv4 and of an IPv6 chain for the same interfaces. -/
def ttlRow : Listed :=
  ⟨"wlan2", "rmnet_data2", "TTL", 1523, 2178044, "all".toList, "0.0.0.0/0".toList, "0.0.0.0/0".toList,
    ["TTL", "set", "to", "64"].map String.toList⟩
def hlRow : Listed :=
  ⟨"wlan2", "rmnet_data2", "HL", 1523, 2178044, "all".toList, "::/0".toList, "::/0".toList,
    ["HL", "set", "to", "64"].map String.toList⟩

theorem created_ttl : Created false [ttlRow] :=
  ⟨⟨["wlan2"], ["rmnet_data2"]⟩, true, 1, 64, 64, .normalize, _, by decide, rfl, by decide, by decide⟩

theorem created_hl : Created true [hlRow] :=
  ⟨⟨["wlan2"], ["rmnet_data2"]⟩, true, 1, 64, 64, .normalize, _, by decide, rfl, by decide, by decide⟩

theorem parseCounters_iff_ttl : parseCounters (listed false chainA [ttlRow]) =
    [⟨"wlan2", "rmnet_data2", "TTL", 1523⟩] :=
  (parseCounters_iff created_ttl (listed_lists (by decide) (by decide))).mpr (.inl rfl)

/-- The upstream is read as the downstream, and the source address as the upstream. -/
theorem parseCounters_hl :
    parseCounters (listed true chain6A [hlRow]) = [⟨"rmnet_data2", "::/0", "HL", 1523⟩] ∧
    ¬ ∀ v6 rows text, Created v6 rows → Lists v6 rows text → parseCounters text = rows.map Listed.count := by
  have hlists : Lists true [hlRow] (listed true chain6A [hlRow]) := listed_lists (by decide) (by decide)
  have hread : parseCounters (listed true chain6A [hlRow]) = [⟨"rmnet_data2", "::/0", "HL", 1523⟩] := by
    rw [parseCounters_lists hlists fun _ _ => parseRow_v6]
    decide
  refine ⟨hread, fun h => ?_⟩
  have hright := h true [hlRow] _ created_hl hlists
  rw [hread] at hright
  exact absurd hright (by decide)

end Nfqttl.Verify
