/-
The way of the settings to the panel and back: `snapshot` prints them (`ctl.rs`), the
panel shows what it reads there in a form and makes arguments of `configure` of the form
(`webroot/app.js`).

What the panel hands to the shell is made of letters, digits and `_.:=-`, whatever is
typed. What it lets through `configure` takes, but for two rules on the SQM that the panel
does not know; and a form that is sent as it came changes nothing.
-/
import Mathlib.Data.List.TakeDrop
import Nfqttl.ConfigBounds
import Nfqttl.CtlLoad
import Nfqttl.Lifetime

namespace Nfqttl.Panel

open Text

/-! ## `snapshot` -/

def switch (b : Bool) : List Char := if b then ['1'] else ['0']

/-- `format!("{:?}", x).to_lowercase()`, from what `{:?}` gives. -/
def lowercase (debug : String) : List Char := debug.toList.map Char.toLower

/-- The lines on the configuration. -/
def configLines (c : Config) : List (String × List Char) :=
  [("VERSION", Life.version.toList), ("TTL", Nat.toDigits 10 c.ttl), ("IPV6_HL", Nat.toDigits 10 c.ipv6Hl),
    ("BACKEND", lowercase (Life.backendDebug c.backend)), ("IPV6_MODE", lowercase (Life.ipv6Debug c.ipv6Mode)),
    ("WORKERS", Nat.toDigits 10 c.workers), ("DISABLE_OFFLOAD", switch c.disableOffload), ("GSO", switch c.gso),
    ("SQM_UP_KBIT", Nat.toDigits 10 c.sqmUpKbit), ("SQM_DOWN_KBIT", Nat.toDigits 10 c.sqmDownKbit),
    ("SQM_UP_IFACE", c.sqmUpIface.toList), ("SQM_DOWN_IFACE", c.sqmDownIface.toList)]

/-- The state files `snapshot` shows. -/
def stateNames : List String :=
  ["phase", "backend", "workers", "ipv6_mode", "interfaces", "sqm.status", "queue.stats", "last-error", "last-recovery"]

/-- `n.replace(['.', '-'], "_").to_uppercase()`, behind `STATE_`. -/
def stateKey (n : String) : String :=
  "STATE_" ++ String.ofList (n.toList.map fun c => if c == '.' || c == '-' then '_' else c.toUpper)

/-- The lines on the daemon; `state` answers what a state file holds. -/
def stateLines (running paused : Bool) (state : String → Option (List Char)) : List (String × List Char) :=
  ("RUNNING", switch running) :: ("PAUSED", switch paused) ::
    stateNames.map fun n => (stateKey n, ((state n).map trim).getD [])

def assign (key : String) (v : List Char) : List Char := key.toList ++ '=' :: v

def output (c : Config) (running paused : Bool) (state : String → Option (List Char)) : List Char :=
  unlines ((configLines c ++ stateLines running paused state).map fun l => assign l.1 l.2)

/-- What `snapshot` prints, from `config.conf` as the checker and as the loader read it. -/
def snapshot (checked : Except IoError (List Char)) (loaded : Option (List Char)) (running paused : Bool)
    (state : String → Option (List Char)) : Except IoError (List Char) := do
  Config.validate (← checked)
  return output (Config.load loaded) running paused state

/-! ## The form -/

/-- `parse`: the lines with a `=`, split at the first. -/
def parse (text : List Char) : List (List Char × List Char) := (text.splitOn '\n').filterMap (splitOnce '=')

/-- A field of `Object.fromEntries`: of several entries the last one counts. -/
def field (s : List (List Char × List Char)) (key : String) : Option (List Char) := s.reverse.lookup key.toList

structure Form where
  ttl : List Char
  ipv6Hl : List Char
  workers : List Char
  backend : List Char
  ipv6Mode : List Char
  sqmUpKbit : List Char
  sqmUpIface : List Char
  sqmDownKbit : List Char
  sqmDownIface : List Char
  disableOffload : Bool
  deriving DecidableEq, Repr

/-- The exponent of a floating-point number. -/
def isExponent : List Char → Bool
  | [] => true
  | _ :: '+' :: ds | _ :: '-' :: ds | _ :: ds => (digits ds).isSome

/-- What an `<input type="number">` holds: the floating-point numbers of HTML. -/
def isFloat (v : List Char) : Bool :=
  let (mantissa, exponent) := (if v.head? = some '-' then v.tail else v).span fun c => c != 'e' && c != 'E'
  let (whole, fraction) := mantissa.span (· != '.')
  isExponent exponent &&
    if fraction.isEmpty then (digits whole).isSome
    else (whole.isEmpty || (digits whole).isSome) && (digits fraction.tail).isSome

/-- The values the inputs take when they are set. -/
def numberInput (v : List Char) : List Char := if isFloat v then v else []
def textInput (v : List Char) : List Char := v.filter fun c => c != '\n' && c != '\r'
def select (options : List String) (v : List Char) : List Char := if options.contains (String.ofList v) then v else []

def backends : List String := ["auto", "kernel", "nfqueue"]
def ipv6Modes : List String := ["auto", "normalize", "block", "pass"]

/-- `refresh`, for a form nobody has touched. A number of workers without an option gets one. -/
def fill (s : List (List Char × List Char)) : Form where
  ttl := numberInput ((field s "TTL").getD [])
  ipv6Hl := numberInput ((field s "IPV6_HL").getD [])
  workers := (field s "WORKERS").getD []
  backend := select backends ((field s "BACKEND").getD [])
  ipv6Mode := select ipv6Modes ((field s "IPV6_MODE").getD [])
  sqmUpKbit := numberInput ((field s "SQM_UP_KBIT").getD ['0'])
  sqmUpIface := textInput ((field s "SQM_UP_IFACE").getD [])
  sqmDownKbit := numberInput ((field s "SQM_DOWN_KBIT").getD ['0'])
  sqmDownIface := textInput ((field s "SQM_DOWN_IFACE").getD [])
  disableOffload := field s "DISABLE_OFFLOAD" == some ['1']

/-! ## Sending the form -/

/-- The blanks `trim` of JavaScript takes off. -/
def isJsSpace (c : Char) : Bool :=
  decide (9 ≤ c.toNat ∧ c.toNat ≤ 13) || [0x20, 0xa0, 0x1680, 0x2028, 0x2029, 0x202f, 0x205f, 0x3000, 0xfeff].contains c.toNat ||
    decide (0x2000 ≤ c.toNat ∧ c.toNat ≤ 0x200a)

def jsTrim (v : List Char) : List Char := (v.dropWhile isJsSpace).rdropWhile isJsSpace

/-- `/^\d{1,n}$/`, with the number. -/
def integer (n : Nat) (v : List Char) : Option Nat := if v.length ≤ n then digits v else none

/-- `/^[A-Za-z0-9_.:-]{1,15}$/` -/
def isIface (v : List Char) : Bool :=
  !v.isEmpty && decide (v.length ≤ 15) && v.all fun c => c.isAlphanum || "_.:-".toList.contains c

/-- One of the numbers, at most `hi`. -/
def bounded (key : String) (hi : Nat) (v : List Char) : Except String (List Char) :=
  match integer 3 v with
  | none => .error "Введи целое число"
  | some n => if n < 1 ∨ n > hi then .error "Значение вне диапазона" else .ok (assign key (Nat.toDigits 10 n))

def chosen (key : String) (allowed : List String) (v : List Char) : Except String (List Char) :=
  if allowed.contains (String.ofList v) then .ok (assign key v) else .error "Недопустимый режим"

/-- One direction of the SQM. -/
def shaped (rateKey ifaceKey : String) (rate iface : List Char) (offload : Bool) : Except String (List (List Char)) :=
  let iface := jsTrim iface
  match integer 7 rate with
  | none => .error "CAKE: 0 или 100–1000000 кбит/с"
  | some n =>
    if n > 1000000 ∨ n > 0 ∧ n < 100 then .error "CAKE: 0 или 100–1000000 кбит/с"
    else if iface ≠ [] ∧ !isIface iface then .error "Недопустимое имя интерфейса"
    else if n > 0 ∧ (iface = [] ∨ !offload) then .error "Для CAKE нужны интерфейс и отключённый offload"
    else .ok [assign rateKey (Nat.toDigits 10 n), assign ifaceKey iface]

/-- The arguments `onsubmit` makes of the form. -/
def submit (f : Form) : Except String (List (List Char)) := do
  let ttl ← bounded "TTL" 255 f.ttl
  let ipv6Hl ← bounded "IPV6_HL" 255 f.ipv6Hl
  let workers ← bounded "WORKERS" 8 f.workers
  let backend ← chosen "BACKEND" backends f.backend
  let ipv6Mode ← chosen "IPV6_MODE" ipv6Modes f.ipv6Mode
  let up ← shaped "SQM_UP_KBIT" "SQM_UP_IFACE" f.sqmUpKbit f.sqmUpIface f.disableOffload
  let down ← shaped "SQM_DOWN_KBIT" "SQM_DOWN_IFACE" f.sqmDownKbit f.sqmDownIface f.disableOffload
  return [ttl, ipv6Hl, workers, backend, ipv6Mode] ++ up ++ down ++ [assign "DISABLE_OFFLOAD" (switch f.disableOffload)]

/-- The command the panel has executed. -/
def command (args : List (List Char)) : List Char :=
  [' '].intercalate ("/data/adb/modules/nfqttl/nfqttl".toList :: "configure".toList :: args)

/-! ## What values are made of -/

/-- Letters, digits and `_.:-`, the characters a value sent may have. -/
def Token (v : List Char) : Prop := ∀ c ∈ v, c.isAlphanum = true ∨ c ∈ "_.:-".toList

theorem Token.range {v : List Char} (h : Token v) {c : Char} (hc : c ∈ v) :
    45 ≤ c.toNat ∧ c.toNat ≤ 122 ∧ c.toNat ≠ 47 ∧ c.toNat ≠ 61 := by
  rcases h c hc with halnum | hmark
  · have hclass : ((c.isUpper || c.isLower) || c.isDigit) = true := halnum
    rw [Bool.or_eq_true, Bool.or_eq_true] at hclass
    rcases hclass with (hupper | hlower) | hdigit
    · have hval : c.val ≥ 65 ∧ c.val ≤ 90 := of_decide_eq_true hupper
      have h₁ : 65 ≤ c.toNat := UInt32.le_iff_toNat_le.mp hval.1
      have h₂ : c.toNat ≤ 90 := UInt32.le_iff_toNat_le.mp hval.2
      omega
    · have hval : (decide (c.val ≥ 97) && decide (c.val ≤ 122)) = true := hlower
      rw [Bool.and_eq_true, decide_eq_true_eq, decide_eq_true_eq] at hval
      have h₁ : 97 ≤ c.toNat := UInt32.le_iff_toNat_le.mp hval.1
      have h₂ : c.toNat ≤ 122 := UInt32.le_iff_toNat_le.mp hval.2
      omega
    · have hval : (decide (c.val ≥ 48) && decide (c.val ≤ 57)) = true := hdigit
      rw [Bool.and_eq_true, decide_eq_true_eq, decide_eq_true_eq] at hval
      have h₁ : 48 ≤ c.toNat := UInt32.le_iff_toNat_le.mp hval.1
      have h₂ : c.toNat ≤ 57 := UInt32.le_iff_toNat_le.mp hval.2
      omega
  · have hmarks : ∀ c ∈ "_.:-".toList, 45 ≤ c.toNat ∧ c.toNat ≤ 122 ∧ c.toNat ≠ 47 ∧ c.toNat ≠ 61 :=
      forall_mem_of_all (by decide)
    exact hmarks c hmark

theorem Token.notMem {v : List Char} (h : Token v) {c : Char} (hc : c.toNat < 45 ∨ c.toNat = 61) : c ∉ v := by
  intro hmem
  have hrange := h.range hmem
  omega

theorem Token.isSpace {v : List Char} (h : Token v) {c : Char} (hc : c ∈ v) : isSpace c = false := by
  have hrange := h.range hc
  simp only [Text.isSpace, decide_eq_false_iff_not]
  omega

theorem Token.unquote {v : List Char} (h : Token v) : unquote v = v := by
  have htrim : trim v = v := trim_eq_self fun c hc => h.isSpace hc
  have hquote : ∀ q : Char, q.toNat < 45 → v.head? ≠ some q := by
    intro q hq hhead
    exact h.notMem (.inl hq) (List.mem_of_mem_head? hhead)
  simp only [Nfqttl.unquote, htrim]
  rw [if_neg]
  rintro ⟨-, ⟨hhead, -⟩ | ⟨hhead, -⟩⟩
  · exact hquote _ (by decide) hhead
  · exact hquote _ (by decide) hhead

theorem token_of_digits {v : List Char} {n : Nat} (h : digits v = some n) : Token v := by
  unfold digits at h
  split at h
  · next hv =>
    intro c hc
    exact .inl (by simp [Char.isAlphanum, List.all_eq_true.mp hv.2 c hc])
  · cases h

theorem token_toDigits (n : Nat) : Token (Nat.toDigits 10 n) := token_of_digits (digits_toDigits n)

theorem token_switch : ∀ b : Bool, Token (switch b) := by
  intro b c hc
  cases b <;> obtain rfl := List.mem_singleton.mp hc <;> decide

theorem token_of_isIface {v : List Char} (h : isIface v = true) : Token v := by
  simp only [isIface, Bool.and_eq_true, List.all_eq_true, Bool.or_eq_true, List.contains_iff_mem] at h
  exact h.2

/-- The panel lets the interfaces through that the configuration may name. -/
theorem isIface_eq_validIface (v : List Char) : isIface v = validIface v := by
  have hall : ∀ h : (v.all fun c => c.isAlphanum || "_.:-".toList.contains c) = true,
      (String.ofList v).utf8ByteSize = v.length := by
    intro h
    refine utf8ByteSize_ascii ?_
    intro c hc
    have htoken : Token v := by
      simp only [List.all_eq_true, Bool.or_eq_true, List.contains_iff_mem] at h
      exact h
    have hrange := htoken.range hc
    omega
  rw [isIface, validIface]
  cases hv : v.all fun c => c.isAlphanum || "_.:-".toList.contains c with
  | false => simp
  | true => rw [hall hv]

theorem token_of_contains {names : List String} (hnames : (names.all fun n => n.toList.all Char.isAlphanum) = true)
    {v : List Char} (h : names.contains (String.ofList v) = true) : Token v := by
  intro c hc
  have hname := List.all_eq_true.mp hnames _ (List.contains_iff_mem.mp h)
  rw [String.toList_ofList] at hname
  exact .inl (List.all_eq_true.mp hname c hc)

/-! ## What the panel lets through -/

theorem integer_eq_some {n k : Nat} {v : List Char} : integer n v = some k ↔ v.length ≤ n ∧ digits v = some k := by
  unfold integer
  split
  · next h => simp [h]
  · next h => simp [h]

/-- The numbers of one direction of the SQM that are let through. -/
structure Shaped (rate iface : List Char) (offload : Bool) (n : Nat) : Prop where
  number : integer 7 rate = some n
  range : n = 0 ∨ 100 ≤ n ∧ n ≤ 1000000
  name : jsTrim iface = [] ∨ isIface (jsTrim iface) = true
  usable : 0 < n → jsTrim iface ≠ [] ∧ offload = true

theorem shaped_ok {rateKey ifaceKey : String} {rate iface : List Char} {offload : Bool} {args : List (List Char)} :
    shaped rateKey ifaceKey rate iface offload = .ok args ↔
      ∃ n, Shaped rate iface offload n ∧ args = [assign rateKey (Nat.toDigits 10 n), assign ifaceKey (jsTrim iface)] := by
  unfold shaped
  refine ⟨?_, ?_⟩
  · intro h
    dsimp only at h
    split at h
    · cases h
    next n hn =>
    split at h
    · cases h
    next hrange =>
    split at h
    · cases h
    next hiface =>
    split at h
    · cases h
    next husable =>
    cases h
    refine ⟨n, ⟨hn, by omega, ?_, ?_⟩, rfl⟩
    · by_cases hnil : jsTrim iface = []
      · exact .inl hnil
      · exact .inr (by simpa [hnil] using hiface)
    · intro hpos
      simpa [hpos] using husable
  · rintro ⟨n, ⟨hn, hrange, hiface, husable⟩, rfl⟩
    have h₁ : ¬(n > 1000000 ∨ n > 0 ∧ n < 100) := by omega
    have h₂ : ¬(jsTrim iface ≠ [] ∧ (!isIface (jsTrim iface)) = true) := by
      rintro ⟨hne, hbad⟩
      rcases hiface with hnil | hok
      · exact hne hnil
      · simp [hok] at hbad
    have h₃ : ¬(n > 0 ∧ (jsTrim iface = [] ∨ (!offload) = true)) := by
      rintro ⟨hpos, hbad⟩
      obtain ⟨hne, hoff⟩ := husable hpos
      simp [hne, hoff] at hbad
    simp only [hn, if_neg h₁, if_neg h₂, if_neg h₃]

/-- A number that is let through, between 1 and `hi`. -/
structure Bounded (hi : Nat) (v : List Char) (n : Nat) : Prop where
  number : integer 3 v = some n
  range : 1 ≤ n ∧ n ≤ hi

theorem bounded_ok {key : String} {hi : Nat} {v arg : List Char} : bounded key hi v = .ok arg ↔
    ∃ n, Bounded hi v n ∧ arg = assign key (Nat.toDigits 10 n) := by
  unfold bounded
  refine ⟨?_, ?_⟩
  · intro h
    split at h
    · cases h
    next n hn =>
    split at h
    · cases h
    next hrange =>
    cases h
    exact ⟨n, ⟨hn, by omega⟩, rfl⟩
  · rintro ⟨n, ⟨hn, hrange⟩, rfl⟩
    have hin : ¬(n < 1 ∨ n > hi) := by omega
    simp only [hn, if_neg hin]

example : bounded "TTL" 255 "064".toList = .ok "TTL=64".toList := by decide

theorem chosen_ok {key : String} {allowed : List String} {v arg : List Char} : chosen key allowed v = .ok arg ↔
    allowed.contains (String.ofList v) = true ∧ arg = assign key v := by
  unfold chosen
  cases allowed.contains (String.ofList v) with
  | false => simp
  | true => simp [eq_comm]

/-- The numbers of a form. -/
structure Numbers where
  ttl : Nat
  ipv6Hl : Nat
  workers : Nat
  up : Nat
  down : Nat

/-- A form that is let through, with its numbers. -/
structure Passes (f : Form) (n : Numbers) : Prop where
  ttl : Bounded 255 f.ttl n.ttl
  ipv6Hl : Bounded 255 f.ipv6Hl n.ipv6Hl
  workers : Bounded 8 f.workers n.workers
  backend : backends.contains (String.ofList f.backend) = true
  ipv6Mode : ipv6Modes.contains (String.ofList f.ipv6Mode) = true
  up : Shaped f.sqmUpKbit f.sqmUpIface f.disableOffload n.up
  down : Shaped f.sqmDownKbit f.sqmDownIface f.disableOffload n.down

/-- The settings sent with a form. -/
def asked (f : Form) (n : Numbers) : List (Setting × List Char) :=
  [(.ttl, Nat.toDigits 10 n.ttl), (.ipv6Hl, Nat.toDigits 10 n.ipv6Hl), (.workers, Nat.toDigits 10 n.workers),
    (.backend, f.backend), (.ipv6Mode, f.ipv6Mode), (.sqmUpKbit, Nat.toDigits 10 n.up),
    (.sqmUpIface, jsTrim f.sqmUpIface), (.sqmDownKbit, Nat.toDigits 10 n.down),
    (.sqmDownIface, jsTrim f.sqmDownIface), (.disableOffload, switch f.disableOffload)]

/-- The arguments that ask for settings. -/
def arguments (as : List (Setting × List Char)) : List (List Char) := as.map fun a => assign a.1.name a.2

theorem submit_ok {f : Form} {args : List (List Char)} :
    submit f = .ok args ↔ ∃ n, Passes f n ∧ args = arguments (asked f n) := by
  unfold submit
  simp only [bind_eq_ok, bounded_ok, chosen_ok, shaped_ok]
  refine ⟨?_, ?_⟩
  · rintro ⟨_, ⟨ttl, httl, rfl⟩, _, ⟨hl, hhl, rfl⟩, _, ⟨workers, hworkers, rfl⟩, _, ⟨hbackend, rfl⟩, _, ⟨hmode, rfl⟩,
      _, ⟨up, hup, rfl⟩, _, ⟨down, hdown, rfl⟩, h⟩
    cases h
    exact ⟨⟨ttl, hl, workers, up, down⟩, ⟨httl, hhl, hworkers, hbackend, hmode, hup, hdown⟩, rfl⟩
  · rintro ⟨n, h, rfl⟩
    exact ⟨_, ⟨_, h.ttl, rfl⟩, _, ⟨_, h.ipv6Hl, rfl⟩, _, ⟨_, h.workers, rfl⟩, _, ⟨h.backend, rfl⟩, _, ⟨h.ipv6Mode, rfl⟩,
      _, ⟨_, h.up, rfl⟩, _, ⟨_, h.down, rfl⟩, rfl⟩

/-! ## What `configure` makes of the arguments -/

section arguments
variable {as : List (Setting × List Char)}

/-- Settings to ask for: each once, with values the shell and `configure` leave as they are. -/
structure Clean (as : List (Setting × List Char)) : Prop where
  nodup : (as.map (·.1)).Nodup
  tokens : ∀ a ∈ as, Token a.2

theorem notMem_name {c : Char} (s : Setting) (h : c.toNat < 48 ∨ c.toNat = 61) : c ∉ s.name.toList := by
  have hnames : ∀ c ∈ s.name.toList, 48 ≤ c.toNat ∧ c.toNat ≠ 61 := by
    cases s <;> exact forall_mem_of_all (by decide)
  intro hmem
  have hc := hnames c hmem
  omega

theorem splitOnce_assign (s : Setting) (v : List Char) : splitOnce '=' (assign s.name v) = some (s.name.toList, v) :=
  splitOnce_append (notMem_name s (.inr rfl)) v

theorem name_inj {s t : Setting} (h : s.name.toList = t.name.toList) : s = t := by
  have hs := Setting.ofName_name s
  rw [h, Setting.ofName_name] at hs
  exact (Option.some.inj hs).symm

theorem requested_arguments : Ctl.requested (arguments as) = as.map fun a => (a.1.name.toList, a.2) := by
  rw [Ctl.requested, arguments, List.filterMap_map, ← List.filterMap_eq_map]
  refine List.filterMap_congr ?_
  intro a _
  exact splitOnce_assign a.1 a.2

theorem parseArg_assign {acc : Ctl.Entries} {s : Setting} {v : List Char} (hv : Token v)
    (hnew : acc.find s.name.toList = none) :
    Ctl.parseArg acc (assign s.name v) = .ok (acc.insert s.name.toList v) := by
  have hclean : v.any ['\n', '\r', Char.ofNat 0].contains = false := by
    rw [List.any_eq_false]
    intro c hc hmem
    have hcontrol : ∀ c ∈ ['\n', '\r', Char.ofNat 0], c.toNat < 45 := forall_mem_of_all (by decide)
    exact hv.notMem (.inl (hcontrol c (List.contains_iff_mem.mp hmem))) hc
  rw [Ctl.parseArg, splitOnce_assign]
  simp only [Customize.validKey_name, Bool.not_true, hclean, hnew, Option.isSome_none, Bool.or_self, Bool.false_eq_true,
    if_false]

theorem foldlM_parseArg_ok {acc : Ctl.Entries} (h : Clean as) (hnew : ∀ a ∈ as, acc.find a.1.name.toList = none) :
    ∃ entries, (arguments as).foldlM Ctl.parseArg acc = .ok entries := by
  induction as generalizing acc with
  | nil => exact ⟨acc, rfl⟩
  | cons a as ih =>
    obtain ⟨hnot, hnodup⟩ := List.nodup_cons.mp h.nodup
    obtain ⟨htoken, htokens⟩ := List.forall_mem_cons.mp h.tokens
    obtain ⟨ha, has⟩ := List.forall_mem_cons.mp hnew
    have hnext : ∀ b ∈ as, (acc.insert a.1.name.toList a.2).find b.1.name.toList = none := by
      intro b hb
      rw [OrdMap.find_insert_ne _ _ ?_, has b hb]
      intro hname
      exact hnot (List.mem_map.mpr ⟨b, hb, name_inj hname⟩)
    obtain ⟨entries, hfold⟩ := ih ⟨hnodup, htokens⟩ hnext
    refine ⟨entries, ?_⟩
    rw [arguments, List.map_cons, List.foldlM_cons, parseArg_assign htoken ha]
    exact hfold

/-- Clean settings come through as they are asked for. -/
theorem parseArgs_arguments (h : Clean as) (hne : as ≠ []) : ∃ entries, Ctl.parseArgs (arguments as) = .ok entries ∧
    ∀ k v, entries.find k = some v ↔ ∃ s : Setting, k = s.name.toList ∧ (s, v) ∈ as := by
  obtain ⟨entries, hfold⟩ : ∃ entries, (arguments as).foldlM Ctl.parseArg .empty = .ok entries :=
    foldlM_parseArg_ok h fun a _ => OrdMap.find_empty _
  obtain ⟨a, has⟩ := List.exists_mem_of_ne_nil as hne
  have hiff : ∀ k v, entries.find k = some v ↔ (k, v) ∈ Ctl.requested (arguments as) := by
    intro k v
    rw [(Ctl.foldlM_parseArg hfold ⟨by simp, by simp⟩).2 k v]
    simp
  have hnonempty : entries.isEmpty = false := by
    cases hempty : entries.isEmpty with
    | false => rfl
    | true =>
      have hfind : entries.find a.1.name.toList = some a.2 := by
        rw [hiff, requested_arguments]
        exact List.mem_map.mpr ⟨a, has, rfl⟩
      rw [OrdMap.find_none_of_isEmpty hempty] at hfind
      cases hfind
  refine ⟨entries, ?_, ?_⟩
  · simp only [Ctl.parseArgs, hfold, bind, Except.bind, hnonempty, Bool.false_eq_true, if_false, pure, Except.pure]
  · intro k v
    rw [hiff, requested_arguments, List.mem_map]
    refine ⟨?_, ?_⟩
    · rintro ⟨⟨s, w⟩, hmem, heq⟩
      cases heq
      exact ⟨s, rfl, hmem⟩
    · rintro ⟨s, rfl, hmem⟩
      exact ⟨(s, v), hmem, rfl⟩

end arguments

section passes
variable {f : Form} {n : Numbers} {entries : Ctl.Entries}

/-- The settings a form has. -/
def sent : List Setting :=
  [.ttl, .ipv6Hl, .workers, .backend, .ipv6Mode, .sqmUpKbit, .sqmUpIface, .sqmDownKbit, .sqmDownIface, .disableOffload]

theorem token_jsTrim {v : List Char} (h : jsTrim v = [] ∨ isIface (jsTrim v) = true) : Token (jsTrim v) := by
  rcases h with h | h
  · rw [h]
    intro c hc
    cases hc
  · exact token_of_isIface h

theorem Passes.clean (h : Passes f n) : Clean (asked f n) := by
  refine ⟨?_, ?_⟩
  · show sent.Nodup
    decide
  · simp only [asked, List.forall_mem_cons, List.not_mem_nil, false_imp_iff, implies_true, and_true]
    exact ⟨token_toDigits _, token_toDigits _, token_toDigits _, token_of_contains (by decide) h.backend,
      token_of_contains (by decide) h.ipv6Mode, token_toDigits _, token_jsTrim h.up.name, token_toDigits _,
      token_jsTrim h.down.name, token_switch _⟩

/-- What the panel lets through the checker takes. -/
theorem Passes.fits (h : Passes f n) : ∀ a ∈ asked f n, a.1.Fits a.2 := by
  have hnumber : ∀ {k lo hi : Nat}, lo ≤ k → k ≤ hi → hi < 2 ^ 64 →
      ∃ m, parseUnsigned 64 (Nat.toDigits 10 k) = some m ∧ lo ≤ m ∧ m ≤ hi := by
    intro k lo hi hlo hhi hbits
    exact ⟨k, parse_of_decimal (decimal_toDigits k) (by omega), hlo, hhi⟩
  have hrate : ∀ {rate iface : List Char} {offload : Bool} {k : Nat}, Shaped rate iface offload k → k ≤ 1000000 :=
    fun hs => hs.range.elim (by omega) (·.2)
  have hname : ∀ {v : List Char}, jsTrim v = [] ∨ isIface (jsTrim v) = true →
      ((jsTrim v).isEmpty || validIface (jsTrim v)) = true := by
    rintro v (hnil | hok)
    · simp [hnil]
    · simp [← isIface_eq_validIface, hok]
  simp only [asked, List.forall_mem_cons, List.not_mem_nil, false_imp_iff, implies_true, and_true]
  refine ⟨hnumber h.ttl.range.1 h.ttl.range.2 (by decide), hnumber h.ipv6Hl.range.1 h.ipv6Hl.range.2 (by decide),
    hnumber h.workers.range.1 h.workers.range.2 (by decide), h.backend, h.ipv6Mode,
    hnumber (Nat.zero_le _) (hrate h.up) (by decide), hname h.up.name, hnumber (Nat.zero_le _) (hrate h.down) (by decide),
    hname h.down.name, ?_⟩
  cases f.disableOffload <;> rfl

/-- A form asks for no other settings. -/
theorem find_unsent
    (hfind : ∀ k v, entries.find k = some v ↔ ∃ s : Setting, k = s.name.toList ∧ (s, v) ∈ asked f n)
    {s : Setting} (hs : s ∉ sent) : entries.find s.name.toList = none := by
  rw [Option.eq_none_iff_forall_not_mem]
  intro v hv
  obtain ⟨t, hname, hmem⟩ := (hfind _ v).mp hv
  exact hs (List.mem_map.mpr ⟨(t, v), hmem, (name_inj hname).symm⟩ : s ∈ (asked f n).map (·.1))

theorem Passes.fitting (h : Passes f n) (hreq : Ctl.Requests entries)
    (hfind : ∀ k v, entries.find k = some v ↔ ∃ s : Setting, k = s.name.toList ∧ (s, v) ∈ asked f n) :
    Ctl.Fitting entries := by
  refine ⟨hreq, ?_, find_unsent hfind (by decide), find_unsent hfind (by decide)⟩
  intro k v hkv
  obtain ⟨s, rfl, hmem⟩ := (hfind k v).mp hkv
  refine ⟨s, rfl, ?_⟩
  rw [(h.clean.tokens _ hmem).unquote]
  exact h.fits _ hmem

/-- The configuration has the settings of the form. -/
structure Form.Shows (f : Form) (c : Config) : Prop where
  ttl : digits f.ttl = some c.ttl
  ipv6Hl : digits f.ipv6Hl = some c.ipv6Hl
  workers : digits f.workers = some c.workers
  backend : f.backend = c.backend.name.toList
  ipv6Mode : f.ipv6Mode = c.ipv6Mode.name.toList
  sqmUpKbit : digits f.sqmUpKbit = some c.sqmUpKbit
  sqmUpIface : jsTrim f.sqmUpIface = c.sqmUpIface.toList
  sqmDownKbit : digits f.sqmDownKbit = some c.sqmDownKbit
  sqmDownIface : jsTrim f.sqmDownIface = c.sqmDownIface.toList
  disableOffload : f.disableOffload = c.disableOffload

/-- A form shows what the settings it sends mean. -/
theorem Passes.shows_iff (h : Passes f n) (c : Config) :
    f.Shows c ↔ ∀ a ∈ asked f n, a.1.Means a.2 c := by
  have hnumber : ∀ {v : List Char} {digitsMax k m : Nat}, integer digitsMax v = some k →
      (digits v = some m ↔ decimal (Nat.toDigits 10 k) = some m) := by
    intro v digitsMax k m hk
    rw [(integer_eq_some.mp hk).2, decimal_toDigits]
  have hswitch : ∀ b b' : Bool, b = b' ↔ String.ofList (switch b) ∈ switchNames b' := by decide
  simp only [asked, List.forall_mem_cons, List.not_mem_nil, false_imp_iff, implies_true, and_true, Setting.Means,
    ← hnumber h.ttl.number, ← hnumber h.ipv6Hl.number, ← hnumber h.workers.number, ← hnumber h.up.number,
    ← hnumber h.down.number, ← hswitch]
  refine ⟨?_, ?_⟩
  · intro hc
    exact ⟨hc.ttl, hc.ipv6Hl, hc.workers, hc.backend, hc.ipv6Mode, hc.sqmUpKbit, hc.sqmUpIface, hc.sqmDownKbit,
      hc.sqmDownIface, hc.disableOffload⟩
  · intro hall
    obtain ⟨h₁, h₂, h₃, h₄, h₅, h₆, h₇, h₈, h₉, h₁₀⟩ := hall
    exact ⟨h₁, h₂, h₃, h₄, h₅, h₆, h₇, h₈, h₉, h₁₀⟩

/-- A form shows one configuration, as far as it goes. -/
theorem Form.Shows.alike {c c' : Config} (h : f.Shows c) (h' : f.Shows c') {s : Setting} (hs : s ∈ sent) :
    s.Alike c c' := by
  have hnumber : ∀ {o : Option Nat} {m n : Nat}, o = some m → o = some n → m = n := by
    rintro _ m n rfl hn
    exact Option.some.inj hn
  simp only [sent, List.mem_cons, List.not_mem_nil, or_false] at hs
  rcases hs with rfl | rfl | rfl | rfl | rfl | rfl | rfl | rfl | rfl | rfl
  · exact hnumber h.ttl h'.ttl
  · exact hnumber h.ipv6Hl h'.ipv6Hl
  · exact hnumber h.workers h'.workers
  · exact Setting.backend_name_inj (String.toList_inj.mp (h.backend.symm.trans h'.backend))
  · exact Setting.ipv6Mode_name_inj (String.toList_inj.mp (h.ipv6Mode.symm.trans h'.ipv6Mode))
  · exact hnumber h.sqmUpKbit h'.sqmUpKbit
  · exact String.toList_inj.mp (h.sqmUpIface.symm.trans h'.sqmUpIface)
  · exact hnumber h.sqmDownKbit h'.sqmDownKbit
  · exact String.toList_inj.mp (h.sqmDownIface.symm.trans h'.sqmDownIface)
  · exact h.disableOffload.symm.trans h'.disableOffload

/-! ## The checks on the SQM -/

/-- What the panel leaves to the checker: that the interfaces differ, and that the upload
is not shaped on CLAT. -/
def refusal (c : Config) : Except IoError Unit :=
  if c.sqmUpKbit > 0 ∨ c.sqmDownKbit > 0 then
    if c.sqmUpIface = c.sqmDownIface ∧ c.sqmUpKbit > 0 ∧ c.sqmDownKbit > 0 then
      .error (Config.invalid "SQM interfaces must differ")
    else if c.sqmUpIface.startsWith "v4-" || c.sqmUpIface.startsWith "clat" then
      .error (Config.invalid "SQM upload: use the underlying physical interface, not CLAT")
    else .ok ()
  else .ok ()

/-- What the panel checks of the SQM's settings. -/
structure Usable (c : Config) : Prop where
  up : c.sqmUpKbit > 0 → 100 ≤ c.sqmUpKbit ∧ c.sqmUpIface ≠ ""
  down : c.sqmDownKbit > 0 → 100 ≤ c.sqmDownKbit ∧ c.sqmDownIface ≠ ""
  offload : c.sqmUpKbit > 0 ∨ c.sqmDownKbit > 0 → c.disableOffload = true

theorem checkSqm_usable {c : Config} (h : Usable c) : Config.checkSqm c = refusal c := by
  have hrow : ∀ {rate : Nat} {iface : String}, (rate > 0 → 100 ≤ rate ∧ iface ≠ "") →
      ¬(rate > 0 ∧ (rate < 100 ∨ iface.isEmpty = true)) := by
    rintro rate iface husable ⟨hpos, hbad⟩
    obtain ⟨hlo, hne⟩ := husable hpos
    rcases hbad with hlow | hempty
    · omega
    · exact hne (String.isEmpty_iff.mp hempty)
  unfold Config.checkSqm refusal
  simp only [List.forIn_cons, List.forIn_nil, if_neg (hrow h.up), if_neg (hrow h.down), pure_bind]
  by_cases hrates : c.sqmUpKbit > 0 ∨ c.sqmDownKbit > 0
  · simp only [if_pos hrates, h.offload hrates, Bool.not_true, Bool.false_eq_true, if_false]
    split
    · rfl
    · split
      · rfl
      · rfl
  · simp only [if_neg hrates]
    rfl

theorem usable_of_checkSqm {c : Config} (h : Config.checkSqm c = .ok ()) : Usable c := by
  have hrow : ∀ {rate : Nat} {iface : String}, ¬(rate > 0 ∧ (rate < 100 ∨ iface.isEmpty = true)) →
      rate > 0 → 100 ≤ rate ∧ iface ≠ "" := by
    intro rate iface hok hpos
    refine ⟨by_contra fun hlow => hok ⟨hpos, .inl (by omega)⟩, fun hempty => hok ⟨hpos, .inr ?_⟩⟩
    exact String.isEmpty_iff.mpr hempty
  have hshaped := shaped_of_checkSqm h
  exact ⟨hrow hshaped.up, hrow hshaped.down, hshaped.offload⟩

theorem Passes.usable (h : Passes f n) {c : Config} (hc : f.Shows c) : Usable c := by
  have hup : n.up = c.sqmUpKbit :=
    Option.some.inj ((integer_eq_some.mp h.up.number).2.symm.trans hc.sqmUpKbit)
  have hdown : n.down = c.sqmDownKbit :=
    Option.some.inj ((integer_eq_some.mp h.down.number).2.symm.trans hc.sqmDownKbit)
  have hups : Shaped f.sqmUpKbit f.sqmUpIface f.disableOffload c.sqmUpKbit := hup ▸ h.up
  have hdowns : Shaped f.sqmDownKbit f.sqmDownIface f.disableOffload c.sqmDownKbit := hdown ▸ h.down
  have hname : ∀ {v : List Char} {s : String}, jsTrim v = s.toList → jsTrim v ≠ [] → s ≠ "" := by
    rintro v s heq hne rfl
    exact hne heq
  refine ⟨fun hpos => ⟨?_, hname hc.sqmUpIface (hups.usable hpos).1⟩,
    fun hpos => ⟨?_, hname hc.sqmDownIface (hdowns.usable hpos).1⟩, ?_⟩
  · exact (hups.range.resolve_left (by omega)).1
  · exact (hdowns.range.resolve_left (by omega)).1
  · intro hpos
    rw [← hc.disableOffload]
    exact hpos.elim (fun hp => (hups.usable hp).2) fun hp => (hdowns.usable hp).2

/-! ## The shell -/

/-- Nothing but letters, digits and `_.:=-` is in an argument. -/
theorem Clean.arguments {as : List (Setting × List Char)} (h : Clean as) : ∀ w ∈ arguments as,
    w ≠ [] ∧ ∀ c ∈ w, isSpace c = false ∧ (c.isAlphanum = true ∨ c ∈ "_.:=-".toList) := by
  intro w hw
  obtain ⟨⟨s, v⟩, hmem, rfl⟩ := List.mem_map.mp hw
  have hkey : ∀ c ∈ s.name.toList, isSpace c = false ∧ (c.isAlphanum = true ∨ c ∈ "_.:=-".toList) := by
    cases s <;> exact forall_mem_of_all (by decide)
  have htoken := h.tokens _ hmem
  refine ⟨by simp [assign], ?_⟩
  intro c hc
  rcases List.mem_append.mp hc with hc | hc
  · exact hkey c hc
  rcases List.mem_cons.mp hc with rfl | hc
  · decide
  · refine ⟨htoken.isSpace hc, (htoken c hc).imp_right ?_⟩
    have hmarks : ∀ c ∈ "_.:-".toList, c ∈ "_.:=-".toList := forall_mem_of_all (by decide)
    exact hmarks c

/-- A command of clean settings is split by the shell as it was put together. -/
theorem words_command {as : List (Setting × List Char)} (h : Clean as) : words (command (Panel.arguments as)) =
    "/data/adb/modules/nfqttl/nfqttl".toList :: "configure".toList :: Panel.arguments as := by
  refine words_intercalate ?_
  refine List.forall_mem_cons.mpr ⟨⟨by decide, forall_mem_of_all (by decide)⟩,
    List.forall_mem_cons.mpr ⟨⟨by decide, forall_mem_of_all (by decide)⟩, ?_⟩⟩
  intro w hw
  exact ⟨(h.arguments w hw).1, fun c hc => ((h.arguments w hw).2 c hc).1⟩

/-! ## A form that is sent -/

/-- The new text has the settings of the form and leaves the others, and the checker has
only the SQM to object to. -/
structure Configured (f : Form) (old new : List Char) : Prop where
  shows : f.Shows (Config.load (some new))
  others : ∀ s : Setting, s ∉ sent → s.Alike (Config.load (some new)) (Config.load (some old))
  checked : Config.validate new = refusal (Config.load (some new))

theorem Passes.configured (h : Passes f n) {old : List Char} (hold : Config.validate old = .ok ()) :
    ∃ entries, Ctl.parseArgs (arguments (asked f n)) = .ok entries ∧
      Configured f old (Ctl.rewrite old entries) := by
  obtain ⟨entries, hargs, hfind⟩ := parseArgs_arguments h.clean (List.cons_ne_nil _ _)
  have hfit := h.fitting (Ctl.parseArgs_ok hargs).1 hfind
  have hload := hfit.load hold (find_unsent hfind (by decide)) (find_unsent hfind (by decide))
  have hshows : f.Shows (Config.load (some (Ctl.rewrite old entries))) := by
    refine (h.shows_iff _).mpr ?_
    intro a ha
    have hmeans := (hload a.1).1 a.2 ((hfind _ _).mpr ⟨a.1, rfl, ha⟩)
    rwa [(h.clean.tokens a ha).unquote] at hmeans
  refine ⟨entries, hargs, hshows, fun s hs => (hload s).2 (find_unsent hfind hs), ?_⟩
  rw [hfit.validate hold, checkSqm_usable (h.usable hshows)]

/-- **What the panel sends.** Whatever stands in the form, if the panel sends it, the shell
gets arguments of letters, digits and `_.:=-`, one word each. On an accepted
configuration they ask for a text with the settings of the form and all others as they
were, which the checker refuses on two grounds only; and however the run of `configure`
goes, `config.conf` stays as it is or becomes that text, if that is accepted. -/
theorem submit_configures {args : List (List Char)} (h : submit f = .ok args) {w : Ctl.World}
    (hw : Config.validate w.config = .ok ()) :
    words (command args) = "/data/adb/modules/nfqttl/nfqttl".toList :: "configure".toList :: args ∧
      (∀ a ∈ args, ∀ c ∈ a, c.isAlphanum = true ∨ c ∈ "_.:=-".toList) ∧
      ∃ new, Configured f w.config new ∧ ∀ faults, (Ctl.run faults w args).2.config = w.config ∨
        Config.validate new = .ok () ∧ (Ctl.run faults w args).2.config = new := by
  obtain ⟨n, hpass, rfl⟩ := submit_ok.mp h
  refine ⟨words_command hpass.clean, fun a ha c hc => ((hpass.clean.arguments a ha).2 c hc).2, ?_⟩
  obtain ⟨entries, hargs, hconf⟩ := hpass.configured hw
  refine ⟨_, hconf, ?_⟩
  intro faults
  rcases Ctl.run_config faults w (arguments (asked f n)) with hsame | ⟨entries', hargs', hv, hnew⟩
  · exact .inl hsame
  · obtain rfl : entries = entries' := Except.ok.inj (hargs.symm.trans hargs')
    exact .inr ⟨hv, hnew⟩

theorem submit_configures_ttl : ∃ new, Configured
    ⟨"065".toList, "64".toList, "1".toList, "auto".toList, "block".toList, "0".toList, " ".toList, "0".toList, [], true⟩
    "# mine\nTTL=64\nGSO=1\n".toList new :=
  have h := submit_configures (w := ⟨"# mine\nTTL=64\nGSO=1\n".toList, none, none, false, .down, false, true, "", none⟩)
    (f := ⟨"065".toList, "64".toList, "1".toList, "auto".toList, "block".toList, "0".toList, " ".toList, "0".toList, [],
      true⟩) rfl (by decide)
  h.2.2.imp fun _ hnew => hnew.1

end passes

/-! ## A form that is sent as it came -/

section refresh

/-- What the lines of a text assign but for the first. -/
def later (v : List Char) : List (List Char × List Char) := (v.splitOn '\n').tail.filterMap (splitOnce '=')

/-- The keys whose values the panel shows in the form. -/
def formKeys : List String := sent.map Setting.name

/-- A text that may stand in a line of the snapshot: what comes after its first line is no field of the form. -/
def Tame (v : List Char) : Prop := ∀ e ∈ later v, String.ofList e.1 ∉ formKeys

theorem later_line {v : List Char} (h : '\n' ∉ v) : later v = [] := by
  rw [later, List.splitOn_eq_singleton h]
  rfl

theorem tame_line {v : List Char} (h : '\n' ∉ v) : Tame v := by
  intro e he
  rw [later_line h] at he
  cases he

theorem parse_append (text rest : List Char) : parse (text ++ '\n' :: rest) = parse text ++ parse rest := by
  rw [parse, List.splitOn_append_cons_self, List.filterMap_append]
  rfl

theorem parse_unlines (ls : List (List Char)) : parse (unlines ls) = ls.flatMap parse := by
  induction ls with
  | nil => rfl
  | cons l ls ih => rw [unlines_cons, parse_append, ih, List.flatMap_cons]

theorem parse_line {key : String} (hkey : '=' ∉ key.toList ∧ '\n' ∉ key.toList) {v : List Char} (hv : '\n' ∉ v) :
    parse (assign key v) = [(key.toList, v)] := by
  have hnone : '\n' ∉ assign key v := by
    rw [assign, List.mem_append, List.mem_cons]
    rintro (hmem | hmem | hmem)
    · exact hkey.2 hmem
    · exact absurd hmem (by decide)
    · exact hv hmem
  rw [parse, List.splitOn_eq_singleton hnone, List.filterMap_cons, assign, splitOnce_append hkey.1]
  rfl

/-- A line of the snapshot, with what a value of several lines brings along. -/
theorem parse_assign {key : String} (hkey : '=' ∉ key.toList ∧ '\n' ∉ key.toList) (v : List Char) :
    ∃ first, parse (assign key v) = (key.toList, first) :: later v := by
  by_cases hv : '\n' ∈ v
  · obtain ⟨first, rest, rfl, hfirst⟩ := List.eq_append_cons_of_mem hv
    have hsplit : assign key (first ++ '\n' :: rest) = assign key first ++ '\n' :: rest := by simp [assign]
    refine ⟨first, ?_⟩
    rw [hsplit, parse_append, parse_line hkey hfirst, later, List.splitOn_append_cons_self_of_not_mem hfirst]
    rfl
  · exact ⟨v, by rw [parse_line hkey hv, later_line hv]⟩

/-- A field with one value. -/
theorem field_of_mem {s : List (List Char × List Char)} {key : String} {v : List Char} (hmem : (key.toList, v) ∈ s)
    (honly : ∀ e ∈ s, e.1 = key.toList → e.2 = v) : field s key = some v := by
  have hlookup : ∀ {l : List (List Char × List Char)}, (key.toList, v) ∈ l →
      (∀ e ∈ l, e.1 = key.toList → e.2 = v) → l.lookup key.toList = some v := by
    intro l hmem honly
    induction l with
    | nil => cases hmem
    | cons e l ih =>
      obtain ⟨he, hl⟩ := List.forall_mem_cons.mp honly
      by_cases hkey : e.1 = key.toList
      · rw [List.lookup_cons, hkey, beq_self_eq_true, ← he hkey]
      · have hne : (key.toList == e.1) = false := beq_false_of_ne (Ne.symm hkey)
        rw [List.lookup_cons, hne]
        refine ih ((List.mem_cons.mp hmem).resolve_left ?_) hl
        rintro rfl
        exact hkey rfl
  refine hlookup (List.mem_reverse.mpr hmem) ?_
  intro e he
  exact honly e (List.mem_reverse.mp he)

end refresh

/-! ## What an accepted configuration shows -/

/-- What the checker makes sure of in the settings of the form. -/
structure Sound (c : Config) : Prop where
  ttl : 1 ≤ c.ttl ∧ c.ttl ≤ 255
  ipv6Hl : 1 ≤ c.ipv6Hl ∧ c.ipv6Hl ≤ 255
  workers : 1 ≤ c.workers ∧ c.workers ≤ 8
  sqmUpKbit : c.sqmUpKbit ≤ 1000000
  sqmDownKbit : c.sqmDownKbit ≤ 1000000
  sqmUpIface : c.sqmUpIface.toList = [] ∨ isIface c.sqmUpIface.toList = true
  sqmDownIface : c.sqmDownIface.toList = [] ∨ isIface c.sqmDownIface.toList = true
  usable : Usable c

theorem sound_of_validate {text : List Char} (h : Config.validate text = .ok ()) : Sound (Config.load (some text)) := by
  have hheld := Config.load_held (some text)
  obtain ⟨-, hacc⟩ := accepted_of_validate h
  obtain ⟨-, -, -, hsqm⟩ := Customize.validate_iff.mp h
  -- A setting that is assigned fits, and another one has its default.
  have hvalue : ∀ s : Setting, s ≠ .maxBacklog →
      (∃ v, s.Fits v ∧ s.Means v (Config.load (some text))) ∨ s.Alike (Config.load (some text)) {} := by
    intro s hs
    have hcapped : s.Alike (Config.load (some text)) ((lines text).foldl Config.loadLine {}) :=
      Config.capped_alike hs _
    obtain ⟨hmeans, hdefault⟩ := foldl_loadLine hacc {} s
    by_cases hassigned : ∃ v, (s.name.toList, v) ∈ assignmentsOf (lines text)
    · obtain ⟨v, hv⟩ := hassigned
      obtain ⟨t, ht, hfits⟩ := hacc.fits _ v hv
      rw [Setting.ofName_name] at ht
      cases ht
      exact .inl ⟨v, hfits, hcapped.means (hmeans v hv)⟩
    · exact .inr (hcapped.trans (hdefault fun v hv => hassigned ⟨v, hv⟩))
  generalize Config.load (some text) = c at hheld hsqm hvalue
  have hrate : ∀ {v : List Char} {n : Nat}, (∃ m, parseUnsigned 64 v = some m ∧ 0 ≤ m ∧ m ≤ 1000000) →
      decimal v = some n → n ≤ 1000000 := by
    rintro v n ⟨m, hm, -, hle⟩ hn
    obtain rfl := Option.some.inj ((decimal_of_parse hm).symm.trans hn)
    exact hle
  have hiface : ∀ {v : List Char} {i : String}, (v.isEmpty || validIface v) = true → v = i.toList →
      i.toList = [] ∨ isIface i.toList = true := by
    rintro v i hv rfl
    rw [isIface_eq_validIface]
    simpa using hv
  have httl := hheld.numbers .ttl rfl 1 255 rfl
  have hhl := hheld.numbers .ipv6Hl rfl 1 255 rfl
  have hworkers := hheld.numbers .workers rfl 1 8 rfl
  simp only [Setting.number] at httl hhl hworkers
  refine ⟨by omega, by omega, by omega, ?_, ?_, ?_, ?_, usable_of_checkSqm hsqm⟩
  · rcases hvalue .sqmUpKbit (by decide) with ⟨v, hfits, hmeans⟩ | hdefault
    · exact hrate hfits hmeans
    · rw [show c.sqmUpKbit = 0 from hdefault]
      exact Nat.zero_le _
  · rcases hvalue .sqmDownKbit (by decide) with ⟨v, hfits, hmeans⟩ | hdefault
    · exact hrate hfits hmeans
    · rw [show c.sqmDownKbit = 0 from hdefault]
      exact Nat.zero_le _
  · rcases hvalue .sqmUpIface (by decide) with ⟨v, hfits, hmeans⟩ | hdefault
    · exact hiface hfits hmeans
    · exact .inl (by rw [show c.sqmUpIface = "" from hdefault]; rfl)
  · rcases hvalue .sqmDownIface (by decide) with ⟨v, hfits, hmeans⟩ | hdefault
    · exact hiface hfits hmeans
    · exact .inl (by rw [show c.sqmDownIface = "" from hdefault]; rfl)

section snapshot
variable {c : Config} {running paused : Bool} {state : String → Option (List Char)}

theorem token_iface {i : String} (h : i.toList = [] ∨ isIface i.toList = true) : Token i.toList := by
  rcases h with h | h
  · rw [h]
    intro c hc
    cases hc
  · exact token_of_isIface h

theorem token_backend (b : Backend) : Token (lowercase (Life.backendDebug b)) := by
  cases b <;> exact forall_mem_of_all (by decide)

theorem token_ipv6Mode (m : Ipv6Mode) : Token (lowercase (Life.ipv6Debug m)) := by
  cases m <;> exact forall_mem_of_all (by decide)

theorem Sound.tokens (h : Sound c) : ∀ l ∈ configLines c, Token l.2 := by
  simp only [configLines, List.forall_mem_cons, List.not_mem_nil, false_imp_iff, implies_true, and_true]
  exact ⟨forall_mem_of_all (by decide), token_toDigits _, token_toDigits _, token_backend _, token_ipv6Mode _,
    token_toDigits _, token_switch _, token_switch _, token_toDigits _, token_toDigits _, token_iface h.sqmUpIface,
    token_iface h.sqmDownIface⟩

/-- The keys of the lines on the configuration. -/
def configKeys : List String :=
  ["VERSION", "TTL", "IPV6_HL", "BACKEND", "IPV6_MODE", "WORKERS", "DISABLE_OFFLOAD", "GSO", "SQM_UP_KBIT",
    "SQM_DOWN_KBIT", "SQM_UP_IFACE", "SQM_DOWN_IFACE"]

theorem parse_configLines (h : Sound c) : (configLines c).flatMap (fun l => parse (assign l.1 l.2)) =
    (configLines c).map fun l => (l.1.toList, l.2) := by
  have hkeys : ∀ k ∈ configKeys, '=' ∉ k.toList ∧ '\n' ∉ k.toList := by decide
  have hline : ∀ l ∈ configLines c, parse (assign l.1 l.2) = [(l.1.toList, l.2)] := by
    intro l hl
    have hkey : l.1 ∈ configKeys := List.mem_map_of_mem (f := Prod.fst) hl
    exact parse_line (hkeys l.1 hkey) ((h.tokens l hl).notMem (.inl (by decide)))
  rw [List.flatMap_congr hline, List.map_eq_flatMap]

/-- The lines on the daemon are no fields of the form, nor is what comes along with them. -/
theorem stateLines_free (hstate : ∀ n v, state n = some v → Tame (trim v)) :
    ∀ e ∈ (stateLines running paused state).flatMap (fun l => parse (assign l.1 l.2)), String.ofList e.1 ∉ formKeys := by
  have hkeys : ∀ k ∈ "RUNNING" :: "PAUSED" :: stateNames.map stateKey,
      ('=' ∉ k.toList ∧ '\n' ∉ k.toList) ∧ k ∉ formKeys := by decide
  have htame : ∀ l ∈ stateLines running paused state,
      l.1 ∈ "RUNNING" :: "PAUSED" :: stateNames.map stateKey ∧ Tame l.2 := by
    have hswitch : ∀ b : Bool, Tame (switch b) := fun b => tame_line ((token_switch b).notMem (.inl (by decide)))
    intro l hl
    rcases List.mem_cons.mp hl with rfl | hl
    · exact ⟨List.mem_cons_self .., hswitch running⟩
    rcases List.mem_cons.mp hl with rfl | hl
    · exact ⟨List.mem_cons_of_mem _ (List.mem_cons_self ..), hswitch paused⟩
    obtain ⟨n, hn, rfl⟩ := List.mem_map.mp hl
    refine ⟨List.mem_cons_of_mem _ (List.mem_cons_of_mem _ (List.mem_map_of_mem hn)), ?_⟩
    cases hv : state n with
    | none => exact tame_line (List.not_mem_nil)
    | some v => exact hstate n v hv
  intro e he
  obtain ⟨l, hl, he⟩ := List.mem_flatMap.mp he
  obtain ⟨hmem, hl⟩ := htame l hl
  obtain ⟨hkey, hfree⟩ := hkeys l.1 hmem
  obtain ⟨first, hparse⟩ := parse_assign hkey l.2
  rw [hparse] at he
  rcases List.mem_cons.mp he with rfl | he
  · rwa [String.ofList_toList]
  · exact hl e he

/-- The panel finds the configuration in the snapshot. -/
theorem Sound.fields (h : Sound c) (hstate : ∀ n v, state n = some v → Tame (trim v)) :
    ∀ l ∈ configLines c, l.1 ∈ formKeys → field (parse (output c running paused state)) l.1 = some l.2 := by
  have hnodup : ((configLines c).map (·.1)).Nodup := by
    show configKeys.Nodup
    decide
  intro l hl hkey
  rw [output, parse_unlines, List.flatMap_map, List.flatMap_append, parse_configLines h]
  refine field_of_mem (List.mem_append_left _ (List.mem_map_of_mem hl)) ?_
  intro e he hsame
  rcases List.mem_append.mp he with he | he
  · obtain ⟨l', hl', rfl⟩ := List.mem_map.mp he
    rw [List.inj_on_of_nodup_map hnodup hl' hl (String.toList_inj.mp hsame)]
  · refine absurd hkey ?_
    have hfree := stateLines_free hstate e he
    rwa [hsame, String.ofList_toList] at hfree

theorem numberInput_toDigits (n : Nat) : numberInput (Nat.toDigits 10 n) = Nat.toDigits 10 n := by
  have hdigit : ∀ c ∈ Nat.toDigits 10 n, c.isDigit = true := fun c hc =>
    Nat.isDigit_of_mem_toDigits (by decide) (by decide) hc
  have hhead : (Nat.toDigits 10 n).head? ≠ some '-' := fun h => absurd (hdigit _ (List.mem_of_mem_head? h)) (by decide)
  have hspan : ∀ p : Char → Bool, (∀ c, c.isDigit = true → p c = true) →
      (Nat.toDigits 10 n).span p = (Nat.toDigits 10 n, []) := by
    intro p hp
    have hall : ∀ c ∈ Nat.toDigits 10 n, p c = true := fun c hc => hp c (hdigit c hc)
    rw [List.span_eq_takeWhile_dropWhile, List.takeWhile_eq_self_iff.mpr hall, List.dropWhile_eq_nil_iff.mpr hall]
  have hne : ∀ c d : Char, d.isDigit = false → c.isDigit = true → c != d := by
    intro c d hd hc
    rw [bne_iff_ne]
    rintro rfl
    simp [hd] at hc
  have hfloat : isFloat (Nat.toDigits 10 n) = true := by
    rw [isFloat, if_neg hhead, hspan _ fun c hc => by simp [hne c 'e' (by decide) hc, hne c 'E' (by decide) hc]]
    simp only [hspan (· != '.') fun c hc => hne c '.' (by decide) hc, isExponent, digits_toDigits]
    rfl
  rw [numberInput, if_pos hfloat]

theorem textInput_token {v : List Char} (h : Token v) : textInput v = v := by
  refine List.filter_eq_self.mpr ?_
  intro c hc
  have hrange := h.range hc
  have hn : c ≠ '\n' := by
    rintro rfl
    exact absurd hrange.1 (by decide)
  have hr : c ≠ '\r' := by
    rintro rfl
    exact absurd hrange.1 (by decide)
  simp [hn, hr]

theorem jsTrim_token {v : List Char} (h : Token v) : jsTrim v = v := by
  have hvisible : ∀ c ∈ v, isJsSpace c = false := by
    intro c hc
    have hrange := h.range hc
    simp only [isJsSpace, Bool.or_eq_false_iff, decide_eq_false_iff_not, List.contains_eq_mem, List.mem_cons,
      List.not_mem_nil, or_false]
    omega
  have hstart : v.dropWhile isJsSpace = v := by
    cases v with
    | nil => rfl
    | cons c v => rw [List.dropWhile_cons, if_neg (by simp [hvisible c (List.mem_cons_self ..)])]
  rw [jsTrim, hstart]
  exact List.rdropWhile_eq_self_iff.mpr fun hne => by simp [hvisible _ (List.getLast_mem hne)]

theorem integer_toDigits {n k : Nat} (hn : 0 < n) (hk : k < 10 ^ n) : integer n (Nat.toDigits 10 k) = some k :=
  integer_eq_some.mpr ⟨(Nat.length_toDigits_le_iff (by decide) hn).mpr hk, digits_toDigits k⟩

/-- A snapshot fills the form with the configuration, and the panel lets it through. -/
theorem Sound.filled (h : Sound c) (hstate : ∀ n v, state n = some v → Tame (trim v)) :
    (fill (parse (output c running paused state))).Shows c ∧
      ∃ n, Passes (fill (parse (output c running paused state))) n := by
  have hfields : ∀ l ∈ configLines c, l.1 ∈ formKeys → field (parse (output c running paused state)) l.1 = some l.2 :=
    h.fields hstate
  generalize parse (output c running paused state) = fields at hfields ⊢
  simp only [configLines, List.forall_mem_cons] at hfields
  have hform : fill fields =
      { ttl := Nat.toDigits 10 c.ttl, ipv6Hl := Nat.toDigits 10 c.ipv6Hl, workers := Nat.toDigits 10 c.workers
        backend := c.backend.name.toList, ipv6Mode := c.ipv6Mode.name.toList
        sqmUpKbit := Nat.toDigits 10 c.sqmUpKbit, sqmUpIface := c.sqmUpIface.toList
        sqmDownKbit := Nat.toDigits 10 c.sqmDownKbit, sqmDownIface := c.sqmDownIface.toList
        disableOffload := c.disableOffload } := by
    have hbackend : ∀ b : Backend, select backends (lowercase (Life.backendDebug b)) = b.name.toList := by
      intro b
      cases b <;> decide
    have hmode : ∀ m : Ipv6Mode, select ipv6Modes (lowercase (Life.ipv6Debug m)) = m.name.toList := by
      intro m
      cases m <;> decide
    have hswitch : ∀ b : Bool, (some (switch b) == some ['1']) = b := by decide
    simp (disch := decide) only [fill, hfields, Option.getD_some, numberInput_toDigits,
      textInput_token (token_iface h.sqmUpIface), textInput_token (token_iface h.sqmDownIface), hbackend, hmode, hswitch]
  rw [hform]
  have hup := jsTrim_token (token_iface h.sqmUpIface)
  have hdown := jsTrim_token (token_iface h.sqmDownIface)
  have hname : ∀ {i : String}, i ≠ "" → i.toList ≠ [] := fun hne hnil => hne (String.toList_inj.mp hnil)
  have httl := h.ttl
  have hhl := h.ipv6Hl
  have hworkers := h.workers
  have hupKbit := h.sqmUpKbit
  have hdownKbit := h.sqmDownKbit
  refine ⟨⟨digits_toDigits _, digits_toDigits _, digits_toDigits _, rfl, rfl, digits_toDigits _, hup, digits_toDigits _,
    hdown, rfl⟩, ?_⟩
  refine ⟨⟨c.ttl, c.ipv6Hl, c.workers, c.sqmUpKbit, c.sqmDownKbit⟩, ⟨integer_toDigits (by decide) (by omega), httl⟩,
    ⟨integer_toDigits (by decide) (by omega), hhl⟩, ⟨integer_toDigits (by decide) (by omega), hworkers⟩, ?_, ?_, ?_, ?_⟩
  · rw [String.ofList_toList]
    cases c.backend <;> decide
  · rw [String.ofList_toList]
    cases c.ipv6Mode <;> decide
  · refine ⟨integer_toDigits (by decide) (by omega), ?_, hup.symm ▸ h.sqmUpIface, fun hpos => ⟨?_, ?_⟩⟩
    · by_cases hzero : c.sqmUpKbit = 0
      · exact .inl hzero
      · exact .inr ⟨(h.usable.up (by omega)).1, hupKbit⟩
    · exact hup.symm ▸ hname (h.usable.up hpos).2
    · exact h.usable.offload (.inl hpos)
  · refine ⟨integer_toDigits (by decide) (by omega), ?_, hdown.symm ▸ h.sqmDownIface, fun hpos => ⟨?_, ?_⟩⟩
    · by_cases hzero : c.sqmDownKbit = 0
      · exact .inl hzero
      · exact .inr ⟨(h.usable.down (by omega)).1, hdownKbit⟩
    · exact hdown.symm ▸ hname (h.usable.down hpos).2
    · exact h.usable.offload (.inr hpos)

/-- **The form that is sent as it came.** From an accepted configuration, while no state file has a field
of the form in its second line or a later one, `snapshot` fills the form with the configuration; the panel
sends it, and `configure` accepts it; and whatever fails on the way, what `config.conf` says stays. -/
theorem refresh_submit {text : List Char} (h : Config.validate text = .ok ()) (running paused : Bool)
    (hstate : ∀ n v, state n = some v → Tame (trim v)) :
    ∃ out args, snapshot (.ok text) (some text) running paused state = .ok out ∧
      (fill (parse out)).Shows (Config.load (some text)) ∧ submit (fill (parse out)) = .ok args ∧
      (∃ entries, Ctl.parseArgs args = .ok entries ∧ Config.validate (Ctl.rewrite text entries) = .ok ()) ∧
      ∀ faults w, w.config = text → Config.validate (Ctl.run faults w args).2.config = .ok () ∧
        Config.load (some (Ctl.run faults w args).2.config) = Config.load (some text) := by
  have hsound := sound_of_validate h
  obtain ⟨-, -, -, hsqm⟩ := Customize.validate_iff.mp h
  obtain ⟨hshows, n, hpass⟩ :
      (fill (parse (output (Config.load (some text)) running paused state))).Shows (Config.load (some text)) ∧
        ∃ n, Passes (fill (parse (output (Config.load (some text)) running paused state))) n := hsound.filled hstate
  obtain ⟨entries, hargs, hconf⟩ := hpass.configured h
  have hload : Config.load (some (Ctl.rewrite text entries)) = Config.load (some text) := by
    refine Setting.eq_of_alike ?_
    intro s
    by_cases hs : s ∈ sent
    · exact hconf.shows.alike hshows hs
    · exact hconf.others s hs
  have hvalid : Config.validate (Ctl.rewrite text entries) = .ok () := by
    rw [hconf.checked, hload, ← checkSqm_usable hsound.usable, hsqm]
  refine ⟨_, _, ?_, hshows, submit_ok.mpr ⟨n, hpass, rfl⟩, ⟨entries, hargs, hvalid⟩, ?_⟩
  · simp only [snapshot, bind, Except.bind, h, pure, Except.pure]
  · rintro faults w rfl
    rcases Ctl.run_config faults w _ with hsame | ⟨entries', hargs', -, hnew⟩
    · rw [hsame]
      exact ⟨h, rfl⟩
    · obtain rfl : entries = entries' := Except.ok.inj (hargs.symm.trans hargs')
      rw [hnew]
      exact ⟨hvalid, hload⟩

theorem refresh_submit_tabbed : ∃ args, ∀ faults w, w.config = "\tTTL = '65'\n".toList →
    Config.load (some (Ctl.run faults w args).2.config) = Config.load (some "\tTTL = '65'\n".toList) := by
  have hvalid : Config.validate "\tTTL = '65'\n".toList = .ok () := by decide
  have hstate : ∀ n v, (fun _ : String => some "error: no TTL=5\nactive\n".toList) n = some v → Tame (trim v) := by
    rintro - _ ⟨⟩ e he
    have hnone : later (trim "error: no TTL=5\nactive\n".toList) = [] := by decide
    rw [hnone] at he
    cases he
  obtain ⟨_, args, -, -, -, -, hrun⟩ := refresh_submit hvalid true false hstate
  exact ⟨args, fun faults w hw => (hrun faults w hw).2⟩

end snapshot

end Nfqttl.Panel
