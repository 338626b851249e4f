/-
What `verify` reads and what it answers: the listings it parses are read back as the
rules that were printed, and a run with rule counters that passes is the two snapshots,
the sample between them and the decision.
-/
import Nfqttl.Verify

namespace Nfqttl.Verify

open Effect Text

/-! ## What iptables prints -/

/-- The digits of a counter. -/
def printed (n : UInt64) : List Char := Nat.toDigits 10 n.toNat

/-- `-S` of the hook chain of a family, which jumps to `c`. -/
def hookLines (v6 : Bool) (c : Option String) : List String :=
  chainLine (hookOf v6) :: (c.map fun c => ruleLine (hookOf v6) (jumpTo c)).toList

/-- `text` is printed of a hook chain that jumps to `c`. Nothing is printed when the hook
chain is missing. -/
def PrintsHook (v6 : Bool) (c : Option String) (text : List Char) : Prop :=
  text = unlines ((hookLines v6 c).map String.toList) ∨ c = none ∧ text = []

/-- What ip6tables prints of a rule that names no source. -/
def anywhere : String := "::/0"

/-- `line` is a row of `r`, with whatever stands in the columns that are not read. Where `blank` says so nothing stands
in the opt column; of such rules only those that drop have no options behind the columns. -/
def PrintsRow (blank : Bool) (r : RuleCount) (line : List Char) : Prop :=
  ∃ (bytes : UInt64) (prot source destination : List Char) (opt more : List (List Char)),
    words line = [printed r.pkts, printed bytes, r.target.toList, prot] ++ opt ++
      [r.input.toList, r.output.toList, source, destination] ++ more ∧
    if blank then opt = [] ∧ source = anywhere.toList ∧ (more = [] ↔ r.target = "DROP") else opt.length = 1

/-- `text` is printed of a chain with the rules `rows`, nothing of a missing chain. -/
def PrintsRows (blank : Bool) (rows : Option (List RuleCount)) (text : List Char) : Prop :=
  match rows with
  | none => text = []
  | some rows => ∃ title columns body, lines text = title :: columns :: body ∧
      (words title).head? = some "Chain".toList ∧ (words columns).head? = some "pkts".toList ∧
      List.Forall₂ (PrintsRow blank) rows body

/-- What is read of a rule. Behind a blank column every word is read one place too far left,
and a row without options is too short. -/
def RuleCount.readAs (blank : Bool) (r : RuleCount) : Option RuleCount :=
  if blank then if r.target = "DROP" then none else some ⟨r.output, anywhere, r.target, r.pkts⟩ else some r

/-- The payload chains of a family, `b` for the second. -/
def payloadChain (v6 b : Bool) : String :=
  match v6, b with
  | false, false => chainA
  | false, true => chainB
  | true, false => chain6A
  | true, true => chain6B

theorem parse_printed (n : UInt64) : parseUnsigned 64 (printed n) = some n.toNat :=
  parseUnsigned_toDigits n.toNat_lt

theorem parseRow_prints {blank : Bool} {r : RuleCount} {line : List Char} (h : PrintsRow blank r line) :
    parseRow line = r.readAs blank := by
  obtain ⟨bytes, prot, source, destination, opt, more, hw, hopt⟩ := h
  cases blank with
  | false =>
    obtain ⟨o, rfl⟩ := List.length_eq_one_iff.mp hopt
    simp [parseRow, hw, parse_printed, RuleCount.readAs]
  | true =>
    obtain ⟨rfl, rfl, hmore⟩ := hopt
    cases more with
    | nil => simp [parseRow, hw, RuleCount.readAs, hmore.mp rfl]
    | cons o os =>
      have htarget : r.target ≠ "DROP" := fun h => List.cons_ne_nil o os (hmore.mpr h)
      simp [parseRow, hw, parse_printed, RuleCount.readAs, htarget]

/-- A line that does not start with a number is skipped. -/
theorem parseRow_none {line w : List Char} (hw : (words line).head? = some w) (hn : parseUnsigned 64 w = none) :
    parseRow line = none := by
  rw [parseRow]
  split
  · next hline =>
    rw [hline, List.head?_cons, Option.some_inj] at hw
    rw [hw, hn]
    rfl
  · rfl

theorem filterMap_prints {blank : Bool} {rows : List RuleCount} {body : List (List Char)}
    (h : List.Forall₂ (PrintsRow blank) rows body) : body.filterMap parseRow = rows.filterMap (RuleCount.readAs blank) := by
  induction h with
  | nil => rfl
  | cons hr _ ih => rw [List.filterMap_cons, List.filterMap_cons, parseRow_prints hr, ih]

/-- What is printed of a chain reads back as its rules, each as it is read. -/
theorem parseCounters_prints {blank : Bool} {rows : Option (List RuleCount)} {text : List Char}
    (h : PrintsRows blank rows text) : parseCounters text = (rows.getD []).filterMap (RuleCount.readAs blank) := by
  cases rows with
  | none =>
    rw [show text = [] from h]
    rfl
  | some rows =>
    obtain ⟨title, columns, body, hlines, htitle, hcolumns, hbody⟩ := h
    rw [parseCounters, hlines, List.filterMap_cons_none (parseRow_none htitle (by decide)),
      List.filterMap_cons_none (parseRow_none hcolumns (by decide)), filterMap_prints hbody]
    rfl

@[simp] theorem filterMap_readAs_false (rows : List RuleCount) : rows.filterMap (RuleCount.readAs false) = rows :=
  List.filterMap_some

theorem activeChain_prints {v6 : Bool} {active : Option Bool} {text : List Char}
    (h : PrintsHook v6 (active.map (payloadChain v6)) text) :
    activeChain text (hookOf v6) = active.map (payloadChain v6) := by
  rcases h with rfl | ⟨hnone, rfl⟩
  · cases active with
    | none => cases v6 <;> decide
    | some b => cases v6 <;> cases b <;> decide
  · rw [hnone]
    rfl

/-! ### Printing -/

/-- The columns of a row. -/
def rowWords (blank : Bool) (r : RuleCount) : List (List Char) :=
  let any := if blank then anywhere else "0.0.0.0/0"
  [printed r.pkts, printed 0, r.target.toList, "all".toList] ++ (if blank then [] else ["--".toList]) ++
    [r.input.toList, r.output.toList, any.toList, any.toList] ++
    if r.target = "DROP" then [] else [r.target.toList]

def headWords (chain : String) : List (List (List Char)) :=
  [["Chain".toList, chain.toList, "(1".toList, "references)".toList],
    ["pkts", "bytes", "target", "prot", "opt", "in", "out", "source", "destination"].map String.toList]

/-- The listing of a chain, with single blanks between the columns. -/
def printRows (blank : Bool) (chain : String) (rows : List RuleCount) : List Char :=
  unlines ((headWords chain ++ rows.map (rowWords blank)).map unwords)

/-- A word of a listing. -/
def Word (w : List Char) : Prop := w ≠ [] ∧ ∀ c ∈ w, isSpace c = false

instance (w : List Char) : Decidable (Word w) :=
  decidable_of_iff (w ≠ [] ∧ (w.all fun c => !isSpace c) = true) (by simp [Word])

theorem word_printed (n : UInt64) : Word (printed n) := ⟨Nat.toDigits_ne_nil, fun _ hc => isSpace_toDigits hc⟩

theorem unwords_line {ws : List (List Char)} (h : ∀ w ∈ ws, Word w) :
    '\n' ∉ unwords ws ∧ stripCr (unwords ws) = unwords ws := by
  refine ⟨fun hmem => ?_, ?_⟩
  · obtain ⟨w, hw, hc⟩ := List.mem_flatMap.mp hmem
    rcases List.mem_append.mp hc with hc | hc
    · exact absurd ((h w hw).2 _ hc) (by decide)
    · exact absurd hc (by decide)
  · rw [stripCr, if_neg]
    cases ws using List.reverseRecOn with
    | nil => simp [unwords]
    | append_singleton ws w => simp [unwords]

theorem lines_unwords {lss : List (List (List Char))} (h : ∀ ws ∈ lss, ∀ w ∈ ws, Word w) :
    lines (unlines (lss.map unwords)) = lss.map unwords := by
  rw [lines_unlines, List.map_map]
  · exact List.map_congr_left fun ws hws => (unwords_line (h ws hws)).2
  · intro l hl
    obtain ⟨ws, hws, rfl⟩ := List.mem_map.mp hl
    exact (unwords_line (h ws hws)).1

/-- The rule names its interfaces and its target by words. -/
def RuleCount.Plain (r : RuleCount) : Prop := Word r.target.toList ∧ Word r.input.toList ∧ Word r.output.toList

theorem headWords_words {chain : String} (h : Word chain.toList) : ∀ ws ∈ headWords chain, ∀ w ∈ ws, Word w := by
  simp only [headWords, List.forall_mem_cons]
  refine ⟨⟨by decide, h, by decide, by decide, ?_⟩, by decide, ?_⟩
  · exact fun _ hw => absurd hw List.not_mem_nil
  · exact fun _ hw => absurd hw List.not_mem_nil

theorem rowWords_words {blank : Bool} {r : RuleCount} (h : r.Plain) : ∀ w ∈ rowWords blank r, Word w := by
  obtain ⟨htarget, hinput, houtput⟩ := h
  have hany : Word (if blank then anywhere else "0.0.0.0/0").toList := by cases blank <;> decide
  have hopt : ∀ w ∈ if blank then [] else ["--".toList], Word w := by cases blank <;> decide
  have hmore : ∀ w ∈ if r.target = "DROP" then [] else [r.target.toList], Word w := by
    split
    · exact fun _ hw => absurd hw List.not_mem_nil
    · exact fun _ hw => List.mem_singleton.mp hw ▸ htarget
  simp only [rowWords, List.forall_mem_append, List.forall_mem_cons]
  refine ⟨⟨⟨⟨word_printed _, word_printed _, htarget, by decide, ?_⟩, hopt⟩, hinput, houtput, hany, hany, ?_⟩, hmore⟩
  · exact fun _ hw => absurd hw List.not_mem_nil
  · exact fun _ hw => absurd hw List.not_mem_nil

theorem rowWords_prints {blank : Bool} {r : RuleCount} (h : r.Plain) :
    PrintsRow blank r (unwords (rowWords blank r)) := by
  refine ⟨0, _, _, _, _, _, words_unwords (rowWords_words h), ?_⟩
  cases blank with
  | false => rfl
  | true => by_cases hd : r.target = "DROP" <;> simp [hd]

/-- The lines of a listing with any rows of words. -/
theorem listing_lines {chain : String} (hchain : Word chain.toList) {rss : List (List (List Char))}
    (h : ∀ ws ∈ rss, ∀ w ∈ ws, Word w) :
    ∃ title columns, lines (unlines ((headWords chain ++ rss).map unwords)) = title :: columns :: rss.map unwords ∧
      (words title).head? = some "Chain".toList ∧ (words columns).head? = some "pkts".toList := by
  have hhead := headWords_words hchain
  have hlines : lines (unlines ((headWords chain ++ rss).map unwords)) = (headWords chain ++ rss).map unwords := by
    refine lines_unwords ?_
    intro ws hws
    rcases List.mem_append.mp hws with hws | hws
    · exact hhead ws hws
    · exact h ws hws
  refine ⟨_, _, hlines, ?_, ?_⟩
  · rw [words_unwords (hhead _ (by simp [headWords]))]
    rfl
  · rw [words_unwords (hhead _ (by simp [headWords]))]
    rfl

/-- Rules that name their interfaces and targets by words have a listing. -/
theorem printRows_prints {blank : Bool} {chain : String} (hchain : Word chain.toList) {rows : List RuleCount}
    (h : ∀ r ∈ rows, r.Plain) : PrintsRows blank (some rows) (printRows blank chain rows) := by
  have hwords : ∀ ws ∈ rows.map (rowWords blank), ∀ w ∈ ws, Word w := by
    intro ws hws
    obtain ⟨r, hr, rfl⟩ := List.mem_map.mp hws
    exact rowWords_words (h r hr)
  obtain ⟨title, columns, hlines, htitle, hcolumns⟩ := listing_lines hchain hwords
  refine ⟨title, columns, _, hlines, htitle, hcolumns, ?_⟩
  rw [List.map_map, List.forall₂_map_right_iff, List.forall₂_same]
  exact fun r hr => rowWords_prints (h r hr)

/-! ## The rules of a snapshot -/

/-- What tells the rules of a chain apart. -/
def RuleCount.key (r : RuleCount) : String × String × String := (r.input, r.output, r.target)

theorem same_iff {a b : RuleCount} : a.same b = true ↔ b.key = a.key := by
  simp [RuleCount.same, RuleCount.key, and_assoc]

/-- A rule of a payload chain is found among its rules. -/
theorem find_same {rows : List RuleCount} (hd : (rows.map RuleCount.key).Nodup) {r : RuleCount} (hr : r ∈ rows) :
    rows.find? r.same = some r := by
  induction rows with
  | nil => cases hr
  | cons a rows ih =>
    obtain ⟨ha, hd⟩ := List.nodup_cons.mp hd
    rcases List.mem_cons.mp hr with rfl | hr
    · exact List.find?_cons_of_pos (same_iff.mpr rfl)
    · have hne : ¬ r.same a = true := fun h => ha (same_iff.mp h ▸ List.mem_map_of_mem hr)
      rw [List.find?_cons_of_neg hne, ih hd hr]

/-! ## The wire sample -/

/-- The TTL of a packet, where it is an IPv4 packet leaving the phone. -/
def ttlOf (p : Packet) : Option UInt8 :=
  if p.outgoing = true ∧ 20 ≤ p.bytes.length ∧ p.bytes.head?.map (fun b : UInt8 => b >>> 4) = some 4 then
    some (p.bytes.getD 8 0)
  else none

/-- At least ten packets, and more than one in twenty of the IPv4 packets, leave with a
TTL that is not one of `own`. -/
def Leaks (own : List UInt8) (pkts : List Packet) : Prop :=
  10 ≤ (pkts.filterMap ttlOf).countP (fun v => !own.contains v) ∧
    (pkts.filterMap ttlOf).length < (pkts.filterMap ttlOf).countP (fun v => !own.contains v) * 20

instance (own : List UInt8) (pkts : List Packet) : Decidable (Leaks own pkts) := inferInstanceAs (Decidable (_ ∧ _))

namespace Hist

theorem nodup_values : values.Nodup := by
  refine List.Nodup.map_on (fun a ha b hb h => ?_) List.nodup_range
  have hmod := congrArg UInt8.toNat h
  rwa [UInt8.toNat_ofNat_of_lt' (List.mem_range.mp ha), UInt8.toNat_ofNat_of_lt' (List.mem_range.mp hb)] at hmod

theorem mem_values (v : UInt8) : v ∈ values :=
  List.mem_map.mpr ⟨v.toNat, List.mem_range.mpr v.toNat_lt, UInt8.ofNat_toNat⟩

theorem sum_bump (f : UInt8 → Nat) (v : UInt8) (l : List UInt8) :
    (l.map fun x => if x = v then f x + 1 else f x).sum = (l.map f).sum + l.count v := by
  induction l with
  | nil => rfl
  | cons x l ih =>
    rw [List.map_cons, List.sum_cons, ih, List.map_cons, List.sum_cons, List.count_cons]
    by_cases hx : x = v <;> simp [hx] <;> omega

theorem foreign_add (h : Hist) (v : UInt8) (ok : List UInt8) :
    (h.add v).foreign ok = h.foreign ok + if !ok.contains v then 1 else 0 := by
  rw [foreign, add, sum_bump, ← foreign]
  congr 1
  cases hv : !ok.contains v with
  | true =>
    rw [List.count_filter (p := fun v => !ok.contains v) hv]
    exact List.count_eq_one_of_mem nodup_values (mem_values v)
  | false => exact List.count_eq_zero.mpr fun hmem => Bool.false_ne_true (hv.symm.trans (List.mem_filter.mp hmem).2)

end Hist

/-- The TTL of a packet, where it is of IPv4 and has a whole header. -/
def wireTtl (pkt : List UInt8) : Option UInt8 :=
  if 20 ≤ pkt.length ∧ pkt.head?.map (fun b : UInt8 => b >>> 4) = some 4 then some (pkt.getD 8 0) else none

/-- Only these count as IPv4. -/
theorem observe_wire (pkt : List UInt8) (h : Hist × Hist) :
    (observe pkt h).1 = match wireTtl pkt with
      | some v => h.1.add v
      | none => h.1 := by
  rw [observe, wireTtl]
  split
  · next h4 =>
    by_cases hl : 20 ≤ pkt.length
    · rw [if_pos hl, if_pos ⟨hl, h4⟩]
    · rw [if_neg hl, if_neg fun h => hl h.1]
  · next h6 =>
    have hno : ¬ (20 ≤ pkt.length ∧ pkt.head?.map (fun b : UInt8 => b >>> 4) = some 4) := fun h =>
      absurd (h6.symm.trans h.2) (by decide)
    rw [if_neg hno]
    split <;> rfl
  · next h4 _ => rw [if_neg fun h => h4 h.2]

/-- What the buffer takes has all that is looked at. -/
theorem wireTtl_take (pkt : List UInt8) : wireTtl (pkt.take 128) = wireTtl pkt := by
  have hlen : 20 ≤ (pkt.take 128).length ↔ 20 ≤ pkt.length := by
    rw [List.length_take]
    omega
  have hhead : (pkt.take 128).head? = pkt.head? := by cases pkt <;> rfl
  have hget : (pkt.take 128).getD 8 0 = pkt.getD 8 0 := by simp [List.getD_eq_getElem?_getD]
  simp only [wireTtl, hlen, hhead, hget]

/-- What is counted of packets is the TTLs of those of IPv4. -/
theorem foldl_observe (own : List UInt8) (pkts : List (List UInt8)) (h : Hist × Hist) :
    (pkts.foldl (fun h pkt => observe pkt h) h).1.total = h.1.total + (pkts.filterMap wireTtl).length ∧
      (pkts.foldl (fun h pkt => observe pkt h) h).1.foreign own =
        h.1.foreign own + (pkts.filterMap wireTtl).countP (fun v => !own.contains v) := by
  induction pkts generalizing h with
  | nil => exact ⟨rfl, rfl⟩
  | cons pkt pkts ih =>
    obtain ⟨htotal, hforeign⟩ := ih (observe pkt h)
    rw [observe_wire] at htotal hforeign
    rw [List.foldl_cons]
    cases hp : wireTtl pkt with
    | none =>
      simp only [hp] at htotal hforeign
      rw [List.filterMap_cons_none hp]
      exact ⟨htotal, hforeign⟩
    | some v =>
      simp only [hp, Hist.foreign_add] at htotal hforeign
      rw [List.filterMap_cons_some hp, List.length_cons, List.countP_cons]
      have hadd : (h.1.add v).total = h.1.total + 1 := rfl
      exact ⟨by omega, by omega⟩

/-- What the taps hand to `observe` of the packets they deliver. -/
def received (pkts : List Packet) : List (List UInt8) := (pkts.filter Packet.outgoing).map fun p => p.bytes.take 128

theorem drain_eq (pkts : List Packet) (h : Hist × Hist) :
    drain h pkts = (received pkts).foldl (fun h pkt => observe pkt h) h := by
  induction pkts generalizing h with
  | nil => rfl
  | cons p pkts ih =>
    rw [drain, List.foldl_cons, ← drain, ih, received, received]
    cases hout : p.outgoing with
    | false => rw [List.filter_cons_of_neg (by simp [hout]), if_neg Bool.false_ne_true]
    | true => rw [List.filter_cons_of_pos hout, if_pos rfl, List.map_cons, List.foldl_cons]

theorem ttlOf_eq (p : Packet) : ttlOf p = if p.outgoing then wireTtl (p.bytes.take 128) else none := by
  rw [wireTtl_take, ttlOf, wireTtl]
  cases p.outgoing <;> simp

theorem received_ttls (pkts : List Packet) : (received pkts).filterMap wireTtl = pkts.filterMap ttlOf := by
  rw [received, List.filterMap_map, List.filterMap_filter]
  exact List.filterMap_congr fun p _ => (ttlOf_eq p).symm

/-- What is counted of a sample is the TTLs of the IPv4 packets leaving the phone. -/
theorem drain_ttls (own : List UInt8) (pkts : List Packet) (h : Hist × Hist) :
    (drain h pkts).1.total = h.1.total + (pkts.filterMap ttlOf).length ∧
      (drain h pkts).1.foreign own = h.1.foreign own + (pkts.filterMap ttlOf).countP (fun v => !own.contains v) := by
  rw [drain_eq, ← received_ttls]
  exact foldl_observe own _ h

/-! ## What the phone answers -/

/-- What `run` finds apart from the rules and the packets. -/
structure Device where
  config : Except IoError (List Char)
  state : String → Option (List Char)
  firewall : Option Firewall
  links : Config → Links
  proc : String → Option (List Char)
  index : String → Option (List Char)
  bind : String → Int → Except IoError Unit

namespace Device

def answer (d : Device) : (o : VerifyOp) → VerifySig.Ans o
  | .readConfig => d.config
  | .readState name => d.state name
  | .select => d.firewall
  | .discover c => d.links c
  | .readProc path => d.proc path
  | .readIndex name => d.index name
  | .bind name index => d.bind name index
  | .print _ | .printUnavailable _ _ | .sleep _ => ()
  | .out _ _ | .receive _ _ => []

/-- The device, with what the rules are printed as and what passes while the window is open. -/
def sem {W : Type} (d : Device) (reads : Bool → Listing → W → List Char → W → Prop)
    (window : W → List Packet → W → Prop) : Sem VerifySig W
  | .out v6 what, w, text, w' => reads v6 what w text w'
  | .receive _ _, w, pkts, w' => window w pkts w'
  | .sleep _, w, _, w' => window w [] w'
  | o, w, a, w' => a = d.answer o ∧ w' = w

/-- A file of the state directory, trimmed. -/
def stateText (d : Device) (name : String) : List Char := ((d.state name).map trim).getD []

def cfg (d : Device) : Config := Config.load d.config.toOption

/-- What `open_tap` answers. -/
def tap (d : Device) (name : String) : Except IoError Unit :=
  if !validIface name.toList then .error (invalid "invalid interface name")
  else
    match ((d.index name).map trim).bind (parseSigned 32) with
    | none => .error (.new .notFound "interface not found")
    | some index => d.bind name index

def taps (d : Device) (o : Options) : List String :=
  (if o.ifaces.isEmpty then (d.links d.cfg).up else o.ifaces).filter fun name => (d.tap name).toBool

/-- The phone's own TTL. -/
def own4 (d : Device) : Nat := byteOr64 (d.proc "/proc/sys/net/ipv4/ip_default_ttl")

/-- `run` gets to compare counters: it accepts the arguments and the settings, the rules
are active, and a firewall is found. -/
structure Measures (d : Device) (args : List (List Char)) (o : Options) (fw : Firewall) : Prop where
  options : parseOptions args = .ok o
  counted : o.wireOnly = false
  valid : ∃ text, d.config = .ok text ∧ Config.validate text = .ok ()
  active : d.stateText "phase" = "active".toList
  firewall : d.firewall = some fw

/-- The run compares the counters of the family. -/
def Compares (d : Device) (args : List (List Char)) (v6 : Bool) : Prop :=
  ∃ o fw, d.Measures args o fw ∧ (v6 = true → usesV6 (some fw) (d.stateText "ipv6_mode") = true)

/-- The TTL values that are not foreign. -/
def ownTtls (d : Device) : List UInt8 := [.ofNat d.cfg.ttl, .ofNat d.own4]

/-- The evidence of a run: the hits, whether a chain changed, and the sample. -/
def evidence (d : Device) (hits : UInt64 × Bool) (pkts : List Packet) : Evidence :=
  let h := drain ({}, {}) pkts
  ⟨some hits.1, h.1.total, h.1.foreign d.ownTtls, hits.2⟩

end Device

/-- A phone with active rules, without ip6tables and with nothing to tap. -/
def phone : Device where
  config := .ok []
  state := fun name => if name = "phase" then some "active".toList else none
  firewall := some ⟨none⟩
  links := fun _ => ⟨["wlan2"], ["rmnet0"]⟩
  proc := fun _ => none
  index := fun _ => none
  bind := fun _ _ => .ok ()

section runs
variable {W : Type} {d : Device} {reads : Bool → Listing → W → List Char → W → Prop}
  {window : W → List Packet → W → Prop} {w w' : W}

theorem judge_pass {e : Evidence} {n : UInt64} (h : e.hits = some n) :
    (judge e).1.exitCode = exitPass ↔ e.leak = false ∧ n ≠ 0 := by
  have hpos : n > 0 ↔ n ≠ 0 := UInt64.pos_iff_ne_zero
  rw [judge, h]
  by_cases hn : n = 0
  · cases hl : e.leak <;> cases hch : e.chainChanged <;>
      simp [hn, Outcome.exitCode, exitPass, exitFail, exitInconclusive]
  · cases hl : e.leak <;> simp [hn, hpos, Outcome.exitCode, exitPass, exitFail]

/-- The sample shows a leak. -/
def Device.leaks (d : Device) (pkts : List Packet) : Bool := (d.evidence (0, false) pkts).leak

theorem judge_evidence {hits : UInt64 × Bool} {pkts : List Packet} :
    (judge (d.evidence hits pkts)).1.exitCode = exitPass ↔ d.leaks pkts = false ∧ hits.1 ≠ 0 := judge_pass rfl

theorem Device.leaks_iff {pkts : List Packet} : d.leaks pkts = true ↔ Leaks d.ownTtls pkts := by
  obtain ⟨htotal, hforeign⟩ := drain_ttls d.ownTtls pkts ({}, {})
  have hzero : ({} : Hist).foreign d.ownTtls = 0 := by simp [Hist.foreign]
  simp only [Device.leaks, Device.evidence, Evidence.leak, htotal, hforeign, hzero, Nat.zero_add, Leaks,
    leakMinPackets, leakRatioDiv, Bool.and_eq_true, decide_eq_true_eq, ge_iff_le, gt_iff_lt]

/-- An operation the device answers leaves everything as it is. -/
theorem runs_answer {α : Type} {o : VerifyOp} (ho : ∀ a w', d.sem reads window o w a w' ↔ a = d.answer o ∧ w' = w)
    {k : VerifySig.Ans o → VerifyProg α} {b : α} :
    Runs (d.sem reads window) (.op o k) w b w' ↔ Runs (d.sem reads window) (k (d.answer o)) w b w' := by
  simp only [runs_op, ho, and_assoc, exists_and_left, exists_eq_left]

theorem runs_openTap {name : String} {r : Except IoError Unit} :
    Runs (d.sem reads window) (openTap name) w r w' ↔ r = d.tap name ∧ w' = w := by
  unfold openTap Device.tap
  split
  · exact runs_ret
  · rw [runs_answer fun _ _ => Iff.rfl, Device.answer]
    cases ((d.index name).map trim).bind (parseSigned 32) with
    | none => exact runs_ret
    | some index => exact (runs_answer fun _ _ => Iff.rfl).trans runs_ret

theorem runs_print {text : String} {a : Unit} : Runs (d.sem reads window) (print text) w a w' ↔ a = () ∧ w' = w := by
  rw [print, runs_answer fun _ _ => Iff.rfl, runs_ret]

theorem runs_printUnavailable {name : String} {e : IoError} {a : Unit} :
    Runs (d.sem reads window) (printUnavailable name e) w a w' ↔ a = () ∧ w' = w := by
  rw [printUnavailable, runs_answer fun _ _ => Iff.rfl, runs_ret]

theorem runs_openTaps {names taps : List String} : Runs (d.sem reads window) (openTaps names) w taps w' ↔
    taps = (names.filter fun name => (d.tap name).toBool) ∧ w' = w := by
  induction names generalizing w taps with
  | nil => exact runs_ret
  | cons name names ih =>
    simp only [openTaps, runs_bind, runs_openTap, and_assoc, exists_and_left, exists_eq_left]
    cases htap : d.tap name with
    | ok a => simp [runs_bind, runs_ret, ih, htap, Except.toBool, and_comm]
    | error e => simp [runs_bind, runs_printUnavailable, ih, htap, Except.toBool]

theorem runs_readState {name : String} {a : Option (List Char)} :
    Runs (d.sem reads window) (readState name) w a w' ↔ a = (d.state name).map trim ∧ w' = w := by
  rw [readState, runs_answer fun _ _ => Iff.rfl, runs_ret, Device.answer]

theorem runs_procU8 {path : String} {n : Nat} :
    Runs (d.sem reads window) (procU8 path) w n w' ↔ n = byteOr64 (d.proc path) ∧ w' = w := by
  rw [procU8, runs_answer fun _ _ => Iff.rfl, runs_ret, Device.answer]

theorem runs_discover {c : Config} {l : Links} :
    Runs (d.sem reads window) (discover c) w l w' ↔ l = d.links c ∧ w' = w := by
  rw [discover, runs_answer fun _ _ => Iff.rfl, runs_ret, Device.answer]

theorem runs_out {v6 : Bool} {what : Listing} {text : List Char} :
    Runs (d.sem reads window) (out v6 what) w text w' ↔ reads v6 what w text w' := by
  rw [out, runs_op]
  refine ⟨?_, ?_⟩
  · intro h
    obtain ⟨a, w₁, h, hret⟩ := h
    obtain ⟨rfl, rfl⟩ := runs_ret.mp hret
    exact h
  · intro h
    exact ⟨text, w', h, .ret⟩

theorem runs_sample {taps : List String} {seconds : Nat} {h : Hist × Hist} :
    Runs (d.sem reads window) (sample taps seconds) w h w' ↔
      ∃ pkts, window w pkts w' ∧ (taps = [] → pkts = []) ∧ h = drain ({}, {}) pkts := by
  cases taps with
  | nil =>
    rw [sample, if_pos List.isEmpty_nil, runs_op]
    refine ⟨?_, ?_⟩
    · intro h
      obtain ⟨a, w₁, hw, hret⟩ := h
      obtain ⟨rfl, rfl⟩ := runs_ret.mp hret
      exact ⟨[], hw, fun _ => rfl, rfl⟩
    · intro h
      obtain ⟨pkts, hw, hnil, rfl⟩ := h
      rw [hnil rfl] at hw ⊢
      exact ⟨(), w', hw, .ret⟩
  | cons tap taps =>
    rw [sample, if_neg (by simp), runs_op]
    refine ⟨?_, ?_⟩
    · intro h
      obtain ⟨a, w₁, hw, hret⟩ := h
      obtain ⟨rfl, rfl⟩ := runs_ret.mp hret
      exact ⟨a, hw, nofun, rfl⟩
    · intro h
      obtain ⟨pkts, hw, -, rfl⟩ := h
      exact ⟨pkts, w', hw, .ret⟩

/-- A snapshot of a family is one reading of the hook chain and one of the chain it names. -/
theorem runs_counters {v6 : Bool} {snap : Snapshot} : Runs (d.sem reads window) (counters v6) w snap w' ↔
    ∃ rules w₁, reads v6 (.rules (hookOf v6)) w rules w₁ ∧
      match activeChain rules (hookOf v6) with
      | none => snap = (none, []) ∧ w' = w₁
      | some chain => ∃ text, reads v6 (.counters chain) w₁ text w' ∧ snap = (some chain, parseCounters text) := by
  rw [counters, runs_bind]
  simp only [runs_out]
  refine exists_congr fun rules => exists_congr fun w₁ => and_congr_right fun _ => ?_
  cases activeChain rules (hookOf v6) with
  | none => exact runs_ret
  | some chain =>
    simp only [runs_bind, runs_out, Prog.pure_eq, runs_ret]
    refine ⟨?_, ?_⟩
    · intro h
      obtain ⟨text, w₂, h, rfl, rfl⟩ := h
      exact ⟨text, h, rfl⟩
    · intro h
      obtain ⟨text, h, rfl⟩ := h
      exact ⟨text, w', h, rfl, rfl⟩

/-- The snapshot of IPv6, where it is taken. -/
def Took (R : Sem VerifySig W) (useV6 : Bool) (w : W) (snap : Option Snapshot) (w' : W) : Prop :=
  if useV6 then ∃ s, Runs R (counters true) w s w' ∧ snap = some s else snap = none ∧ w' = w

theorem Took.isSome {R : Sem VerifySig W} {useV6 : Bool} {snap : Option Snapshot} (h : Took R useV6 w snap w') :
    snap.isSome = useV6 := by
  cases useV6 with
  | false => rw [h.1, Option.isSome_none]
  | true => obtain ⟨s, -, rfl⟩ := h; rfl

theorem runs_before {useV6 : Bool} {b : Snapshot × Option Snapshot} :
    Runs (d.sem reads window) (before useV6) w b w' ↔
      ∃ w₁, Runs (d.sem reads window) (counters false) w b.1 w₁ ∧ Took (d.sem reads window) useV6 w₁ b.2 w' := by
  rw [before, runs_bind]
  cases useV6 with
  | false =>
    simp only [Took, Bool.false_eq_true, if_false, Prog.pure_eq, Prog.bind_ret, runs_ret]
    refine ⟨?_, ?_⟩
    · intro h
      obtain ⟨s4, w₁, h4, rfl, rfl⟩ := h
      exact ⟨w', h4, rfl, rfl⟩
    · intro h
      obtain ⟨w₁, h4, h6, rfl⟩ := h
      exact ⟨b.1, w', h4, Prod.ext rfl h6, rfl⟩
  | true =>
    simp only [Took, if_true, Prog.pure_eq, runs_bind, runs_map, runs_ret]
    refine ⟨?_, ?_⟩
    · intro h
      obtain ⟨s4, w₁, h4, _, w₂, ⟨s6, h6, rfl⟩, rfl, rfl⟩ := h
      exact ⟨w₁, h4, s6, h6, rfl⟩
    · intro h
      obtain ⟨w₁, h4, s6, h6, hs6⟩ := h
      exact ⟨b.1, w₁, h4, _, w', ⟨s6, h6, rfl⟩, Prod.ext rfl hs6, rfl⟩

/-- What the snapshots of a family say was hit. -/
def snapHits (b a : Option Snapshot) : UInt64 :=
  match b, a with
  | some b, some a => totalHits b.2 a.2
  | _, _ => 0

theorem runs_after {b : Snapshot × Option Snapshot} {r : UInt64 × Bool} :
    Runs (d.sem reads window) (after b) w r w' ↔
      ∃ a4 a6 w₁, Runs (d.sem reads window) (counters false) w a4 w₁ ∧
        Took (d.sem reads window) b.2.isSome w₁ a6 w' ∧
        r = (totalHits b.1.2 a4.2 + snapHits b.2 a6, a4.1 != b.1.1 || a6.map (·.1) != b.2.map (·.1)) := by
  obtain ⟨b4, b6⟩ := b
  cases b6 with
  | none =>
    simp only [after, runs_bind, runs_bind_of fun _ _ => runs_print, Prog.pure_eq, runs_ret, Took]
    refine ⟨?_, ?_⟩
    · intro h
      obtain ⟨a4, w₁, h4, rfl, rfl⟩ := h
      exact ⟨a4, none, _, h4, ⟨rfl, rfl⟩, by simp [snapHits]⟩
    · intro h
      obtain ⟨a4, a6, w₁, h4, ⟨rfl, rfl⟩, rfl⟩ := h
      exact ⟨a4, w', h4, by simp [snapHits], rfl⟩
  | some b6 =>
    simp only [after, runs_bind, runs_bind_of fun _ _ => runs_print, Prog.pure_eq, runs_ret, Took]
    refine ⟨?_, ?_⟩
    · intro h
      obtain ⟨a4, w₁, h4, a6, w₂, h6, rfl, rfl⟩ := h
      exact ⟨a4, some a6, _, h4, ⟨a6, h6, rfl⟩, by simp [snapHits, bne]⟩
    · intro h
      obtain ⟨a4, _, w₁, h4, ⟨a6, h6, rfl⟩, rfl⟩ := h
      exact ⟨a4, w₁, h4, a6, w', h6, by simp [snapHits, bne], rfl⟩

theorem runs_printIf {c : Bool} {text : String} {a : Unit} :
    Runs (d.sem reads window) (printIf c text) w a w' ↔ a = () ∧ w' = w := by
  cases c with
  | false => exact runs_ret
  | true => exact runs_print

theorem runs_conclude {v6Mode : List Char} {pkts : List Packet} {hits : UInt64 × Bool} {n : Nat} :
    Runs (d.sem reads window) (conclude d.cfg d.own4 v6Mode (drain ({}, {}) pkts) (some hits)) w n w' ↔
      n = (judge (d.evidence hits pkts)).1.exitCode ∧ w' = w := by
  simp only [conclude, runs_bind_of fun _ _ => runs_print, runs_bind_of fun _ _ => runs_printIf]
  exact runs_ret

theorem runs_upstreamsOf {o : Options} {ups : List String} : Runs (d.sem reads window) (upstreamsOf o d.cfg) w ups w' ↔
    ups = (if o.ifaces.isEmpty then (d.links d.cfg).up else o.ifaces) ∧ w' = w := by
  rw [upstreamsOf]
  split
  · simp only [runs_map, runs_discover]
    refine ⟨?_, ?_⟩
    · intro h
      obtain ⟨l, ⟨rfl, rfl⟩, rfl⟩ := h
      exact ⟨rfl, rfl⟩
    · intro h
      obtain ⟨rfl, rfl⟩ := h
      exact ⟨_, ⟨rfl, rfl⟩, rfl⟩
  · exact runs_ret

theorem runs_measure {o : Options} {fw : Firewall} {n : Nat} :
    Runs (d.sem reads window) (measure o d.cfg (some fw)) w n w' ↔
      ∃ b w₁ pkts w₂ hits, Runs (d.sem reads window) (before (usesV6 (some fw) (d.stateText "ipv6_mode"))) w b w₁ ∧
        window w₁ pkts w₂ ∧ (d.taps o = [] → pkts = []) ∧ Runs (d.sem reads window) (after b) w₂ hits w' ∧
        n = (judge (d.evidence hits pkts)).1.exitCode := by
  rw [measure, runs_bind_of fun _ _ => runs_readState, runs_bind_of fun _ _ => runs_readState,
    runs_bind_of fun _ _ => runs_upstreamsOf, runs_bind_of fun _ _ => runs_procU8, runs_bind_of fun _ _ => runs_procU8,
    runs_bind_of fun _ _ => runs_print]
  simp only [beforeOf, Option.isSome_some, if_true, runs_bind, runs_map, runs_bind_of fun _ _ => runs_openTaps,
    runs_bind_of fun _ _ => runs_print, runs_sample]
  refine ⟨?_, ?_⟩
  · intro h
    obtain ⟨_, w₁, ⟨b, hb, rfl⟩, _, w₂, ⟨pkts, hw, hnil, rfl⟩, counted, w₃, hafter, hend⟩ := h
    rw [afterOf, runs_map] at hafter
    obtain ⟨hits, hafter, rfl⟩ := hafter
    obtain ⟨rfl, rfl⟩ := runs_conclude.mp hend
    exact ⟨b, w₁, pkts, w₂, hits, hb, hw, hnil, hafter, rfl⟩
  · intro h
    obtain ⟨b, w₁, pkts, w₂, hits, hb, hw, hnil, hafter, rfl⟩ := h
    exact ⟨_, w₁, ⟨b, hb, rfl⟩, _, w₂, ⟨pkts, hw, hnil, rfl⟩, _, w', runs_map.mpr ⟨hits, hafter, rfl⟩,
      runs_conclude.mpr ⟨rfl, rfl⟩⟩

theorem runs_readConfig {a : Except IoError (List Char)} :
    Runs (d.sem reads window) readConfig w a w' ↔ a = d.config ∧ w' = w := by
  rw [readConfig, runs_answer fun _ _ => Iff.rfl, runs_ret, Device.answer]

theorem runs_select {a : Option Firewall} : Runs (d.sem reads window) select w a w' ↔ a = d.firewall ∧ w' = w := by
  rw [select, runs_answer fun _ _ => Iff.rfl, runs_ret, Device.answer]

/-- Without `--wire-only`, exit code 0 is that of a measurement. -/
theorem runs_pass {args : List (List Char)} {o : Options} (ho : parseOptions args = .ok o) (hc : o.wireOnly = false) :
    Runs (d.sem reads window) (run args) w (.ok exitPass) w' ↔
      ∃ fw, d.Measures args o fw ∧ Runs (d.sem reads window) (measure o d.cfg (some fw)) w exitPass w' := by
  -- Every early end answers something else, for the part of `Measures` that fails there.
  have early : ∀ {r : Except IoError Nat}, r ≠ .ok exitPass → (∀ fw, ¬ d.Measures args o fw) →
      (Runs (d.sem reads window) (pure r) w (.ok exitPass) w' ↔
        ∃ fw, d.Measures args o fw ∧ Runs (d.sem reads window) (measure o d.cfg (some fw)) w exitPass w') := by
    intro r hr hm
    constructor
    · exact fun h => absurd (runs_ret.mp h).1.symm hr
    · exact fun ⟨fw, h, _⟩ => absurd h (hm fw)
  simp only [run, ho]
  rw [runs_bind_of fun _ _ => runs_readConfig]
  cases hconf : d.config with
  | error e =>
    refine early nofun fun fw h => ?_
    obtain ⟨text, htext, -⟩ := h.valid
    exact absurd (hconf ▸ htext) nofun
  | ok text =>
    cases hval : Config.validate text with
    | error e =>
      simp only [hval]
      refine early nofun fun fw h => ?_
      obtain ⟨text', htext, hvalid⟩ := h.valid
      cases hconf.symm.trans htext
      exact absurd (hval ▸ hvalid) nofun
    | ok u =>
      simp only [hval]
      rw [runs_bind_of fun _ _ => runs_readConfig, hc, if_neg Bool.false_ne_true,
        runs_bind_of fun _ _ => runs_readState]
      split
      · next hphase =>
        rw [runs_bind_of fun _ _ => runs_print]
        exact early (by decide) fun fw h => hphase h.active
      · next hphase =>
        rw [runs_bind_of fun _ _ => runs_select]
        cases hfw : d.firewall with
        | none => exact early nofun fun fw h => absurd (hfw ▸ h.firewall) nofun
        | some fw =>
          have hm : d.Measures args o fw := ⟨ho, hc, ⟨text, hconf, hval⟩, not_not.mp hphase, hfw⟩
          simp only [runs_map]
          refine ⟨?_, ?_⟩
          · intro h
            obtain ⟨n, hrun, heq⟩ := h
            cases heq
            exact ⟨fw, hm, hrun⟩
          · intro h
            obtain ⟨fw', hm', hrun⟩ := h
            cases hfw.symm.trans hm'.firewall
            exact ⟨exitPass, hrun, rfl⟩

/-- A run with counters passes exactly if the rules were hit between its two snapshots and
the sample shows no leak. -/
theorem runs_pass_iff {args : List (List Char)} {o : Options} (ho : parseOptions args = .ok o)
    (hc : o.wireOnly = false) :
    Runs (d.sem reads window) (run args) w (.ok exitPass) w' ↔
      ∃ fw, d.Measures args o fw ∧ ∃ b4 b6 a4 a6 pkts w₁ w₂ w₃ w₄,
        Runs (d.sem reads window) (counters false) w b4 w₁ ∧
        Took (d.sem reads window) (usesV6 (some fw) (d.stateText "ipv6_mode")) w₁ b6 w₂ ∧
        window w₂ pkts w₃ ∧ (d.taps o = [] → pkts = []) ∧
        Runs (d.sem reads window) (counters false) w₃ a4 w₄ ∧
        Took (d.sem reads window) (usesV6 (some fw) (d.stateText "ipv6_mode")) w₄ a6 w' ∧
        d.leaks pkts = false ∧ totalHits b4.2 a4.2 + snapHits b6 a6 ≠ 0 := by
  rw [runs_pass ho hc]
  refine exists_congr fun fw => and_congr_right fun _ => ?_
  rw [runs_measure]
  refine ⟨?_, ?_⟩
  · intro h
    obtain ⟨b, w₂, pkts, w₃, hits, hb, hw, hnil, ha, hcode⟩ := h
    obtain ⟨w₁, hb4, hb6⟩ := runs_before.mp hb
    obtain ⟨a4, a6, w₄, ha4, ha6, rfl⟩ := runs_after.mp ha
    obtain ⟨hleak, hne⟩ := judge_evidence.mp hcode.symm
    rw [hb6.isSome] at ha6
    exact ⟨b.1, b.2, a4, a6, pkts, w₁, w₂, w₃, w₄, hb4, hb6, hw, hnil, ha4, ha6, hleak, hne⟩
  · intro h
    obtain ⟨b4, b6, a4, a6, pkts, w₁, w₂, w₃, w₄, hb4, hb6, hw, hnil, ha4, ha6, hleak, hne⟩ := h
    have hafter : Runs (d.sem reads window) (after (b4, b6)) w₃ _ w' :=
      runs_after.mpr ⟨a4, a6, w₄, ha4, by rw [hb6.isSome]; exact ha6, rfl⟩
    exact ⟨(b4, b6), w₂, pkts, w₃, _, runs_before.mpr ⟨w₁, hb4, hb6⟩, hw, hnil, hafter,
      (judge_evidence.mpr ⟨hleak, hne⟩).symm⟩

end runs

end Nfqttl.Verify
