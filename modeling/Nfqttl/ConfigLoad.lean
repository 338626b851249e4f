/-
The two readers of `config.conf` agree: of a text the checker accepts, the loader takes
every setting as it is written.

`Setting.Means` says which values a written one stands for. What the checker lets
through is `Setting.Fits`, and a line that fits is taken as it is; the other lines leave
the setting alone.
-/
import Nfqttl.ConfigFile

namespace Nfqttl

open Text

def Backend.name : Backend → String
  | auto => "auto"
  | kernel => "kernel"
  | nfqueue => "nfqueue"

def Ipv6Mode.name : Ipv6Mode → String
  | auto => "auto"
  | normalize => "normalize"
  | block => "block"
  | pass => "pass"

/-- How a switch is written. -/
def switchNames : Bool → List String
  | true => ["1", "true"]
  | false => ["0", "false"]

namespace Setting

/-- The configuration has the value that `v` stands for. -/
def Means (v : List Char) (c : Config) : Setting → Prop
  | ttl => decimal v = some c.ttl
  | backend => v = c.backend.name.toList
  | workers => decimal v = some c.workers
  | downstreams => words v = c.downstreams.map String.toList
  | upstreams => words v = c.upstreams.map String.toList
  | disableOffload => String.ofList v ∈ switchNames c.disableOffload
  | ipv6Mode => v = c.ipv6Mode.name.toList
  | ipv6Hl => decimal v = some c.ipv6Hl
  | maxFailures => decimal v = some c.maxFailures
  | cooldown => decimal v = some c.cooldown
  | queueMaxlen => decimal v = some c.queueMaxlen
  | rcvbufMb => decimal v = some c.rcvbufMb
  | maxBacklog => decimal v = some c.maxBacklog
  | stallLimit => decimal v = some c.stallLimit
  | watchdogMs => (decimal v).map Int.ofNat = some c.watchdogMs
  | idleMs => (decimal v).map Int.ofNat = some c.idleMs
  | rescanMs => decimal v = some c.rescanMs
  | checkMs => decimal v = some c.checkMs
  | sqmUpKbit => decimal v = some c.sqmUpKbit
  | sqmDownKbit => decimal v = some c.sqmDownKbit
  | sqmUpIface => v = c.sqmUpIface.toList
  | sqmDownIface => v = c.sqmDownIface.toList
  | gso => String.ofList v ∈ switchNames c.gso

/-- Two configurations have the same value of a setting. -/
def Alike (c c' : Config) : Setting → Prop
  | ttl => c.ttl = c'.ttl
  | backend => c.backend = c'.backend
  | workers => c.workers = c'.workers
  | downstreams => c.downstreams = c'.downstreams
  | upstreams => c.upstreams = c'.upstreams
  | disableOffload => c.disableOffload = c'.disableOffload
  | ipv6Mode => c.ipv6Mode = c'.ipv6Mode
  | ipv6Hl => c.ipv6Hl = c'.ipv6Hl
  | maxFailures => c.maxFailures = c'.maxFailures
  | cooldown => c.cooldown = c'.cooldown
  | queueMaxlen => c.queueMaxlen = c'.queueMaxlen
  | rcvbufMb => c.rcvbufMb = c'.rcvbufMb
  | maxBacklog => c.maxBacklog = c'.maxBacklog
  | stallLimit => c.stallLimit = c'.stallLimit
  | watchdogMs => c.watchdogMs = c'.watchdogMs
  | idleMs => c.idleMs = c'.idleMs
  | rescanMs => c.rescanMs = c'.rescanMs
  | checkMs => c.checkMs = c'.checkMs
  | sqmUpKbit => c.sqmUpKbit = c'.sqmUpKbit
  | sqmDownKbit => c.sqmDownKbit = c'.sqmDownKbit
  | sqmUpIface => c.sqmUpIface = c'.sqmUpIface
  | sqmDownIface => c.sqmDownIface = c'.sqmDownIface
  | gso => c.gso = c'.gso

theorem Alike.refl (c : Config) (s : Setting) : s.Alike c c := by cases s <;> rfl

theorem Alike.trans {c₁ c₂ c₃ : Config} {s : Setting} (h : s.Alike c₁ c₂) (h' : s.Alike c₂ c₃) : s.Alike c₁ c₃ := by
  cases s <;> exact Eq.trans h h'

theorem Alike.means {c c' : Config} {s : Setting} {v : List Char} (h : s.Alike c c') (hc : s.Means v c') :
    s.Means v c := by
  cases s <;> (simp only [Alike] at h; simp only [Means, h] at hc ⊢; exact hc)

theorem Alike.symm {c c' : Config} {s : Setting} (h : s.Alike c c') : s.Alike c' c := by
  cases s <;> exact Eq.symm h

theorem backend_name_inj {b b' : Backend} (h : b.name = b'.name) : b = b' := by
  cases b <;> cases b' <;> first | rfl | exact absurd h (by decide)

theorem ipv6Mode_name_inj {m m' : Ipv6Mode} (h : m.name = m'.name) : m = m' := by
  cases m <;> cases m' <;> first | rfl | exact absurd h (by decide)

theorem switchNames_inj {t : String} {b b' : Bool} (h : t ∈ switchNames b) (h' : t ∈ switchNames b') : b = b' := by
  have hdisj : ∀ t ∈ switchNames true, t ∉ switchNames false := by decide
  cases b <;> cases b'
  · rfl
  · exact absurd h (hdisj t h')
  · exact absurd h' (hdisj t h)
  · rfl

/-- A written value stands for one value only. -/
theorem Means.alike {c c' : Config} {s : Setting} {v : List Char} (h : s.Means v c) (h' : s.Means v c') :
    s.Alike c c' := by
  cases s with
  | backend => exact backend_name_inj (String.toList_inj.mp (Eq.trans (Eq.symm h) h'))
  | ipv6Mode => exact ipv6Mode_name_inj (String.toList_inj.mp (Eq.trans (Eq.symm h) h'))
  | downstreams | upstreams =>
    exact List.map_injective_iff.mpr (fun _ _ => String.toList_inj.mp) (Eq.trans (Eq.symm h) h')
  | disableOffload | gso => exact switchNames_inj h h'
  | sqmUpIface | sqmDownIface => exact String.toList_inj.mp (Eq.trans (Eq.symm h) h')
  | ttl | workers | ipv6Hl | maxFailures | cooldown | queueMaxlen | rcvbufMb | maxBacklog | stallLimit | watchdogMs
  | idleMs | rescanMs | checkMs | sqmUpKbit | sqmDownKbit => exact Option.some.inj (Eq.trans (Eq.symm h) h')

/-- The settings are all there is. -/
theorem eq_of_alike {c c' : Config} (h : ∀ s : Setting, s.Alike c c') : c = c' := by
  obtain ⟨⟩ := c
  obtain ⟨⟩ := c'
  rw [Config.mk.injEq]
  exact ⟨h ttl, h backend, h workers, h downstreams, h upstreams, h disableOffload, h ipv6Mode, h ipv6Hl, h maxFailures,
    h cooldown, h queueMaxlen, h rcvbufMb, h maxBacklog, h stallLimit, h watchdogMs, h idleMs, h rescanMs, h checkMs,
    h gso, h sqmUpKbit, h sqmDownKbit, h sqmUpIface, h sqmDownIface⟩

/-- What the checker demands of a value. -/
def Fits (v : List Char) (s : Setting) : Prop :=
  match s.bounds with
  | some (lo, hi) => ∃ n, parseUnsigned 64 v = some n ∧ lo ≤ n ∧ n ≤ hi
  | none => s.valid v = true

end Setting

/-! ## One value -/

theorem ranged_of_mem {α : Type} [LE α] [DecidableLE α] {n lo hi : α} (h : lo ≤ n ∧ n ≤ hi) (old : α) :
    ranged n lo hi old = n := if_pos h

theorem Config.set_alike {s t : Setting} (h : t ≠ s) (c : Config) (v : List Char) : t.Alike (c.set v s) c := by
  cases s <;> cases t <;> first | rfl | exact absurd rfl h

theorem decimal_of_parse {bits n : Nat} {v : List Char} (h : parseUnsigned bits v = some n) : decimal v = some n :=
  (Option.filter_eq_some_iff.mp h).1

theorem parse_of_decimal {bits n : Nat} {v : List Char} (h : decimal v = some n) (hn : n < 2 ^ bits) :
    parseUnsigned bits v = some n := by
  rw [parseUnsigned, h, Option.filter_some, decide_eq_true hn, if_pos rfl]

theorem parseSigned_of_decimal {bits n : Nat} {v : List Char} (h : decimal v = some n) (hn : n < 2 ^ (bits - 1)) :
    parseSigned bits v = some (n : Int) := by
  unfold parseSigned
  split
  · next s => simp [decimal, digits, Char.isDigit] at h
  · rw [h, Option.filter_some, decide_eq_true hn, if_pos rfl]
    rfl

theorem eq_toList {v : List Char} {name : String} (h : String.ofList v = name) : v = name.toList := by
  rw [← h, String.toList_ofList]

/-- A number that fits is taken as it is. -/
theorem ranged_parse {bits lo hi n : Nat} {v : List Char} (h : decimal v = some n) (hn : lo ≤ n ∧ n ≤ hi)
    (hbits : hi < 2 ^ bits) (default old : Nat) :
    decimal v = some (ranged (int (parseUnsigned bits v) default) lo hi old) := by
  rw [parse_of_decimal h (by omega), int, Option.getD_some, ranged_of_mem hn, h]

theorem clamp_of_mem {n lo hi : Int} (h : lo ≤ n ∧ n ≤ hi) : clamp n lo hi = n := by
  unfold clamp
  omega

theorem clamp_parse {bits lo hi n : Nat} {v : List Char} (h : decimal v = some n) (hn : lo ≤ n ∧ n ≤ hi)
    (hbits : hi < 2 ^ bits) (default : Nat) :
    decimal v = some (clamp (int (parseUnsigned bits v) default) lo hi) := by
  rw [parse_of_decimal h (by omega), int, Option.getD_some, h, clamp, Nat.min_eq_left hn.2, Nat.max_eq_right hn.1]

theorem int_parse {bits hi n : Nat} {v : List Char} (h : decimal v = some n) (hn : n ≤ hi) (hbits : hi < 2 ^ bits)
    (default : Nat) : decimal v = some (int (parseUnsigned bits v) default) := by
  rw [parse_of_decimal h (by omega), int, Option.getD_some, h]

theorem words_toStrings {v : List Char} (h : (words v).all validIface = true) :
    words v = (Config.toStrings ((words v).filter validIface)).map String.toList := by
  rw [List.filter_eq_self.mpr (List.all_eq_true.mp h), Config.toStrings, List.map_map]
  simp

theorem mem_switchNames {v : List Char} (h : ["0", "1", "true", "false"].contains (String.ofList v) = true) :
    String.ofList v ∈ switchNames (isTrue v) := by
  simp only [List.contains_eq_mem, List.mem_cons, List.not_mem_nil, or_false, decide_eq_true_eq] at h
  rcases h with h | h | h | h <;> obtain rfl := eq_toList h <;> decide

theorem Config.set_means {s : Setting} {v : List Char} (h : s.Fits v) (c : Config) : s.Means v (c.set v s) := by
  have hnum : ∀ {lo hi : Nat}, s.bounds = some (lo, hi) → ∃ n, decimal v = some n ∧ lo ≤ n ∧ n ≤ hi := by
    intro lo hi hb
    rw [Setting.Fits, hb] at h
    obtain ⟨n, hn, hr⟩ := h
    exact ⟨n, decimal_of_parse hn, hr⟩
  cases s with
  | ttl | ipv6Hl | workers | maxFailures | cooldown | queueMaxlen | rcvbufMb | maxBacklog | stallLimit =>
    obtain ⟨n, hn, hr⟩ := hnum rfl
    exact ranged_parse hn hr (by decide) _ _
  | rescanMs | checkMs =>
    obtain ⟨n, hn, hr⟩ := hnum rfl
    exact clamp_parse hn hr (by decide) _
  | sqmUpKbit | sqmDownKbit =>
    obtain ⟨n, hn, -, hr⟩ := hnum rfl
    exact int_parse hn hr (by decide) _
  | watchdogMs =>
    obtain ⟨n, hn, hr⟩ := hnum rfl
    rw [Setting.Means, hn]
    simp only [Config.set, parseSigned_of_decimal hn (show n < 2 ^ (32 - 1) by omega), int, Option.getD_some]
    rw [ranged_of_mem (by omega)]
    rfl
  | idleMs =>
    obtain ⟨n, hn, hr⟩ := hnum rfl
    rw [Setting.Means, hn]
    simp only [Config.set, parseSigned_of_decimal hn (show n < 2 ^ (32 - 1) by omega), int, Option.getD_some]
    rw [clamp_of_mem (by omega)]
    rfl
  | backend =>
    simp only [Setting.Fits, Setting.bounds, Setting.valid, List.contains_eq_mem, List.mem_cons, List.not_mem_nil,
      or_false, decide_eq_true_eq] at h
    rcases h with h | h | h <;> obtain rfl := eq_toList h <;> rfl
  | ipv6Mode =>
    simp only [Setting.Fits, Setting.bounds, Setting.valid, List.contains_eq_mem, List.mem_cons, List.not_mem_nil,
      or_false, decide_eq_true_eq] at h
    rcases h with h | h | h | h <;> obtain rfl := eq_toList h <;> rfl
  | downstreams | upstreams => exact words_toStrings h
  | disableOffload | gso => exact mem_switchNames h
  | sqmUpIface | sqmDownIface => exact String.toList_ofList.symm

/-! ## The lines -/

/-- What the lines assign, by the grammar both readers use. -/
def assignmentsOf (ls : List (List Char)) : List (List Char × List Char) :=
  ls.filterMap fun raw =>
    match Line.parse raw with
    | .assign k v => some (k, v)
    | _ => none

def assignments (text : List Char) : List (List Char × List Char) := assignmentsOf (lines text)

/-- The lines that were let through after those with the keys `seen`. -/
structure Accepted (seen : List (List Char)) (ls : List (List Char)) : Prop where
  nodup : ((assignmentsOf ls).map (·.1)).Nodup
  fresh : ∀ k ∈ (assignmentsOf ls).map (·.1), k ∉ seen
  fits : ∀ k v, (k, v) ∈ assignmentsOf ls → ∃ s, Setting.ofName k = some s ∧ s.Fits v

theorem checkValue_ok {i : Nat} {seen seen' : Config.Seen} {k v : List Char} {s : Setting}
    (h : Config.checkValue i seen k v s = .ok seen') : s.Fits v ∧ seen'.keys = seen.keys := by
  cases hb : s.bounds with
  | some bounds =>
    obtain ⟨lo, hi⟩ := bounds
    simp only [Config.checkValue, hb] at h
    simp only [Setting.Fits, hb]
    split at h
    · cases h
    · next n hn =>
      split at h
      · next hr =>
        cases h
        exact ⟨⟨n, hn, hr⟩, rfl⟩
      · cases h
  | none =>
    simp only [Config.checkValue, hb] at h
    simp only [Setting.Fits, hb]
    split at h
    · next hv =>
      cases h
      exact ⟨hv, by cases s <;> rfl⟩
    · cases h

theorem checkValue_fits {s : Setting} {v : List Char} (h : s.Fits v) (i : Nat) (seen : Config.Seen) (k : List Char) :
    Config.checkValue i seen k v s = .ok (seen.note v s) := by
  rw [Setting.Fits] at h
  cases hb : s.bounds with
  | some bounds =>
    obtain ⟨lo, hi⟩ := bounds
    rw [hb] at h
    obtain ⟨n, hn, hr⟩ := h
    have hnote : seen.note v s = seen := by cases s <;> first | rfl | cases hb
    rw [Config.checkValue, hb, hnote]
    simp only [hn, if_pos hr]
  | none =>
    rw [hb] at h
    rw [Config.checkValue, hb]
    exact if_pos h

/-- A line that is let through is skipped, or assigns a new key a value that fits. -/
theorem checkLine_ok {seen next : Config.Seen} {raw : List Char} {i : Nat}
    (h : Config.checkLine seen (raw, i) = .ok next) :
    (Line.parse raw = .skipped ∧ next.keys = seen.keys) ∨
      ∃ k v s, Line.parse raw = .assign k v ∧ k ∉ seen.keys ∧ Setting.ofName k = some s ∧ s.Fits v ∧
        next.keys = k :: seen.keys := by
  rw [Config.checkLine] at h
  split at h
  · next hp =>
    cases h
    exact .inl ⟨hp, rfl⟩
  · cases h
  · next k v hp =>
    split at h
    · cases h
    next hk =>
    split at h
    · next s hs =>
      obtain ⟨hfits, hkeys⟩ := checkValue_ok h
      exact .inr ⟨k, v, s, hp, hk, hs, hfits, hkeys⟩
    · cases h

/-- A line that assigns nothing. -/
theorem assignmentsOf_other {raw : List Char} (h : ∀ k v, Line.parse raw ≠ .assign k v) (ls : List (List Char)) :
    assignmentsOf (raw :: ls) = assignmentsOf ls := by
  rw [assignmentsOf, List.filterMap_cons]
  cases hp : Line.parse raw with
  | skipped | malformed => rfl
  | assign k v => exact absurd hp (h k v)

theorem assignmentsOf_assign {raw k v : List Char} (h : Line.parse raw = .assign k v) (ls : List (List Char)) :
    assignmentsOf (raw :: ls) = (k, v) :: assignmentsOf ls := by
  rw [assignmentsOf, List.filterMap_cons, h]
  rfl

theorem Accepted.congr {seen ls ls' : List (List Char)} (h : Accepted seen ls)
    (heq : assignmentsOf ls' = assignmentsOf ls) : Accepted seen ls' :=
  ⟨heq ▸ h.nodup, heq ▸ h.fresh, heq ▸ h.fits⟩

/-- A line that assigns a new key a value that fits. -/
theorem Accepted.cons {seen ls : List (List Char)} {raw k v : List Char} {s : Setting} (h : Accepted (k :: seen) ls)
    (hp : Line.parse raw = .assign k v) (hk : k ∉ seen) (hs : Setting.ofName k = some s) (hfits : s.Fits v) :
    Accepted seen (raw :: ls) := by
  have heq := assignmentsOf_assign hp ls
  refine ⟨?_, fun k' hk' => ?_, fun k' v' hmem => ?_⟩
  · rw [heq, List.map_cons, List.nodup_cons]
    exact ⟨fun hmem => h.fresh k hmem (List.mem_cons_self ..), h.nodup⟩
  · rw [heq, List.map_cons] at hk'
    rcases List.mem_cons.mp hk' with rfl | hk'
    · exact hk
    · exact fun hmem => h.fresh k' hk' (List.mem_cons_of_mem _ hmem)
  · rw [heq] at hmem
    rcases List.mem_cons.mp hmem with heq' | hmem
    · cases heq'
      exact ⟨s, hs, hfits⟩
    · exact h.fits k' v' hmem

theorem checkLines_ok {ls : List (List Char)} {i : Nat} {seen seen' : Config.Seen}
    (h : (ls.zipIdx i).foldlM Config.checkLine seen = .ok seen') :
    (∀ raw ∈ ls, Line.parse raw ≠ .malformed) ∧ Accepted seen.keys ls := by
  induction ls generalizing i seen with
  | nil => exact ⟨by simp, .nil, by simp [assignmentsOf], by simp [assignmentsOf]⟩
  | cons raw ls ih =>
    rw [List.zipIdx_cons, List.foldlM_cons] at h
    cases hraw : Config.checkLine seen (raw, i) with
    | error e =>
      rw [hraw] at h
      cases h
    | ok next =>
      rw [hraw] at h
      obtain ⟨hform, hrest⟩ := ih h
      rcases checkLine_ok hraw with ⟨hp, hkeys⟩ | ⟨k, v, s, hp, hk, hs, hfits, hkeys⟩
      · rw [hkeys] at hrest
        exact ⟨List.forall_mem_cons.mpr ⟨by simp [hp], hform⟩, hrest.congr (assignmentsOf_other (by simp [hp]) ls)⟩
      · rw [hkeys] at hrest
        exact ⟨List.forall_mem_cons.mpr ⟨by simp [hp], hform⟩, hrest.cons hp hk hs hfits⟩

/-- The keys seen are those assigned. -/
theorem checkLines_keys {ls : List (List Char)} {i : Nat} {seen seen' : Config.Seen}
    (h : (ls.zipIdx i).foldlM Config.checkLine seen = .ok seen') {k : List Char} (hk : k ∈ seen'.keys) :
    k ∈ seen.keys ∨ k ∈ (assignmentsOf ls).map (·.1) := by
  induction ls generalizing i seen with
  | nil =>
    cases h
    exact .inl hk
  | cons raw ls ih =>
    rw [List.zipIdx_cons, List.foldlM_cons] at h
    cases hraw : Config.checkLine seen (raw, i) with
    | error e =>
      rw [hraw] at h
      cases h
    | ok next =>
      rw [hraw] at h
      rcases checkLine_ok hraw with ⟨hp, hkeys⟩ | ⟨k', v, s, hp, -, -, -, hkeys⟩
      · rw [assignmentsOf_other (by simp [hp]), ← hkeys]
        exact ih h
      · rw [assignmentsOf_assign hp, List.map_cons]
        rcases ih h with hseen | hmem
        · rw [hkeys] at hseen
          rcases List.mem_cons.mp hseen with rfl | hseen
          · exact .inr (List.mem_cons_self ..)
          · exact .inl hseen
        · exact .inr (List.mem_cons_of_mem _ hmem)

theorem Config.loadLine_other {raw : List Char} (h : ∀ k v, Line.parse raw ≠ .assign k v) (c : Config) :
    Config.loadLine c raw = c := by
  rw [Config.loadLine]
  cases hp : Line.parse raw with
  | skipped | malformed => rfl
  | assign k v => exact absurd hp (h k v)

/-- What the lines make of a configuration: the settings they assign are as written, the
others as they were. -/
theorem foldl_loadLine {seen : List (List Char)} {ls : List (List Char)} (h : Accepted seen ls) (c : Config)
    (s : Setting) :
    (∀ v, (s.name.toList, v) ∈ assignmentsOf ls → s.Means v (ls.foldl Config.loadLine c)) ∧
      ((∀ v, (s.name.toList, v) ∉ assignmentsOf ls) → s.Alike (ls.foldl Config.loadLine c) c) := by
  induction ls generalizing c seen with
  | nil => exact ⟨by simp [assignmentsOf], fun _ => .refl c s⟩
  | cons raw ls ih =>
    rw [List.foldl_cons]
    by_cases hp : ∃ k v, Line.parse raw = .assign k v
    · obtain ⟨k, v, hp⟩ := hp
      have heq := assignmentsOf_assign hp ls
      have hnodup := h.nodup
      rw [heq, List.map_cons, List.nodup_cons] at hnodup
      obtain ⟨t, ht, hfits⟩ := h.fits k v (heq ▸ List.mem_cons_self ..)
      have hstep : Config.loadLine c raw = c.set v t := by simp only [Config.loadLine, hp, ht]
      have hrest : Accepted [] ls := ⟨hnodup.2, by simp, fun k' v' hm => h.fits k' v' (heq ▸ List.mem_cons_of_mem _ hm)⟩
      obtain ⟨hset, hkeep⟩ := ih hrest (c.set v t)
      rw [hstep, heq]
      have hk := Setting.name_ofName ht
      refine ⟨fun w hw => ?_, fun hnone => ?_⟩
      · rcases List.mem_cons.mp hw with hw | hw
        · -- The key of this line: no later line has it.
          obtain ⟨hk', rfl⟩ := Prod.mk.inj hw
          rw [← hk', Setting.ofName_name] at ht
          cases ht
          exact (hkeep fun u hu => hnodup.1 (List.mem_map.mpr ⟨_, hu, hk'⟩)).means (Config.set_means hfits c)
        · exact hset w hw
      · have hne : s ≠ t := fun hst => hnone v (by rw [hst, ← hk]; exact List.mem_cons_self ..)
        exact (hkeep fun u hu => hnone u (List.mem_cons_of_mem _ hu)).trans (Config.set_alike hne c v)
    · have hother : ∀ k v, Line.parse raw ≠ .assign k v := fun k v hkv => hp ⟨k, v, hkv⟩
      have heq := assignmentsOf_other hother ls
      rw [Config.loadLine_other hother, heq]
      exact ih (h.congr heq.symm) c

/-! ## The last step of `load` -/

namespace Config

theorem capped_eq (c : Config) : c.capped = { c with maxBacklog := min c.maxBacklog c.queueMaxlen } := by
  rw [capped]
  split
  · next hlt => rw [Nat.min_eq_right (Nat.le_of_lt hlt)]
  · next hle => rw [Nat.min_eq_left (Nat.le_of_not_lt hle)]

theorem capped_alike {s : Setting} (hs : s ≠ .maxBacklog) (c : Config) : s.Alike c.capped c := by
  rw [capped_eq]
  cases s <;> first | rfl | exact absurd rfl hs

/-- Which configurations are loaded alike: only of `max_backlog` something may be cut off. -/
theorem capped_eq_iff {c c' : Config} : c.capped = c'.capped ↔ (∀ s : Setting, s ≠ .maxBacklog → s.Alike c c') ∧
    min c.maxBacklog c.queueMaxlen = min c'.maxBacklog c'.queueMaxlen := by
  refine ⟨?_, ?_⟩
  · intro h
    refine ⟨?_, by simpa only [capped_eq] using congrArg Config.maxBacklog h⟩
    intro s hs
    have heq : s.Alike c.capped c'.capped := h ▸ .refl _ s
    exact ((capped_alike hs c).symm.trans heq).trans (capped_alike hs c')
  · intro h
    refine Setting.eq_of_alike ?_
    intro s
    by_cases hs : s = .maxBacklog
    · subst hs
      simpa only [Setting.Alike, capped_eq] using h.2
    · exact ((capped_alike hs c).trans (h.1 s hs)).trans (capped_alike hs c').symm

end Config

/-! ## A text that is accepted -/

theorem accepted_of_validate {text : List Char} (h : Config.validate text = .ok ()) :
    (∀ raw ∈ lines text, Line.parse raw ≠ .malformed) ∧ Accepted [] (lines text) := by
  rw [Config.validate] at h
  cases hfold : (lines text).zipIdx.foldlM Config.checkLine {} with
  | error e =>
    rw [hfold] at h
    cases h
  | ok seen => exact checkLines_ok hfold

theorem checkSqm_of_validate {text : List Char} (h : Config.validate text = .ok ()) :
    Config.checkSqm (Config.load (some text)) = .ok () := by
  unfold Config.validate at h
  obtain ⟨seen, _, h⟩ := bind_eq_ok.mp h
  cases hb : seen.down.any seen.up.contains with
  | true =>
    rw [hb] at h
    cases h
  | false =>
    rw [hb] at h
    exact h

/-- What the last checks demand of the settings of the SQM, but for the kind of the upload's
interface. -/
structure Config.Shaped (c : Config) : Prop where
  up : ¬(c.sqmUpKbit > 0 ∧ (c.sqmUpKbit < 100 ∨ c.sqmUpIface.isEmpty = true))
  down : ¬(c.sqmDownKbit > 0 ∧ (c.sqmDownKbit < 100 ∨ c.sqmDownIface.isEmpty = true))
  offload : c.sqmUpKbit > 0 ∨ c.sqmDownKbit > 0 → c.disableOffload = true
  differ : c.sqmUpKbit > 0 → c.sqmDownKbit > 0 → c.sqmUpIface ≠ c.sqmDownIface

theorem shaped_of_checkSqm {c : Config} (h : Config.checkSqm c = .ok ()) : c.Shaped := by
  unfold Config.checkSqm at h
  simp only [List.forIn_cons, List.forIn_nil] at h
  by_cases hup : c.sqmUpKbit > 0 ∧ (c.sqmUpKbit < 100 ∨ c.sqmUpIface.isEmpty = true)
  · rw [if_pos hup] at h
    cases h
  by_cases hdown : c.sqmDownKbit > 0 ∧ (c.sqmDownKbit < 100 ∨ c.sqmDownIface.isEmpty = true)
  · rw [if_neg hup, if_pos hdown] at h
    cases h
  rw [if_neg hup, if_neg hdown] at h
  have hrates : c.sqmUpKbit > 0 ∨ c.sqmDownKbit > 0 →
      c.disableOffload = true ∧ ¬(c.sqmUpIface = c.sqmDownIface ∧ c.sqmUpKbit > 0 ∧ c.sqmDownKbit > 0) := by
    intro hrates
    simp only [pure_bind, if_pos hrates] at h
    cases hoff : c.disableOffload with
    | false =>
      rw [hoff] at h
      cases h
    | true =>
      refine ⟨rfl, fun hsame => ?_⟩
      simp only [hoff, Bool.not_true, Bool.false_eq_true, if_false, if_pos hsame] at h
      cases h
  refine ⟨hup, hdown, fun hpos => (hrates hpos).1, ?_⟩
  intro hposUp hposDown heq
  exact (hrates (.inl hposUp)).2 ⟨heq, hposUp, hposDown⟩

/-- Every setting is as the text writes it, or has its default; only `max_backlog` is then
held to the length of the queue. -/
def Loads (text : List Char) (loaded : Config) : Prop :=
  ∃ c : Config, (∀ s : Setting, (∀ v, (s.name.toList, v) ∈ assignments text → s.Means v c) ∧
      ((∀ v, (s.name.toList, v) ∉ assignments text) → s.Alike c {})) ∧
    (∀ k v, (k, v) ∈ assignments text → ∃ s : Setting, k = s.name.toList) ∧
    loaded = { c with maxBacklog := min c.maxBacklog c.queueMaxlen }

/-- An accepted text is loaded exactly. -/
theorem validate_loads {text : List Char} (h : Config.validate text = .ok ()) :
    Loads text (Config.load (some text)) := by
  obtain ⟨-, hacc⟩ := accepted_of_validate h
  refine ⟨Config.loaded text, fun s => foldl_loadLine hacc {} s, fun k v hmem => ?_, ?_⟩
  · obtain ⟨s, hs, -⟩ := hacc.fits k v hmem
    exact ⟨s, Setting.name_ofName hs⟩
  · exact Config.capped_eq _

theorem validate_loads_capped : Loads "QUEUE_MAXLEN=512\n BACKEND = 'kernel'\n".toList
    { queueMaxlen := 512, backend := .kernel, maxBacklog := 512 } := by
  have haccepted : Config.validate "QUEUE_MAXLEN=512\n BACKEND = 'kernel'\n".toList = .ok () := by decide
  exact validate_loads haccepted

end Nfqttl
