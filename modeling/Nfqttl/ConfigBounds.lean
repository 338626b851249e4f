/-
Whatever the text, what the loader answers against the bounds the checker has for it.

The loader holds every number to its range as it goes, but for the rates of the SQM, and
every interface but for the SQM's. Those are what the last line of their key says.
-/
import Nfqttl.ConfigLoad

namespace Nfqttl

open Text

namespace Setting

/-- The number a setting that is one has. -/
def number (c : Config) : Setting → Int
  | ttl => c.ttl
  | workers => c.workers
  | ipv6Hl => c.ipv6Hl
  | maxFailures => c.maxFailures
  | cooldown => c.cooldown
  | queueMaxlen => c.queueMaxlen
  | rcvbufMb => c.rcvbufMb
  | maxBacklog => c.maxBacklog
  | stallLimit => c.stallLimit
  | watchdogMs => c.watchdogMs
  | idleMs => c.idleMs
  | rescanMs => c.rescanMs
  | checkMs => c.checkMs
  | sqmUpKbit => c.sqmUpKbit
  | sqmDownKbit => c.sqmDownKbit
  | _ => 0

theorem Alike.number {c c' : Config} {s : Setting} (h : s.Alike c c') : s.number c = s.number c' := by
  cases s <;> first | rfl | exact congrArg Int.ofNat h | exact h

/-- The rates of the SQM, which the loader takes as they are. -/
def isRate : Setting → Bool
  | sqmUpKbit | sqmDownKbit => true
  | _ => false

/-- The number of `s` is within the bounds of `s`. -/
def InRange (c : Config) (s : Setting) : Prop :=
  ∀ lo hi, s.bounds = some (lo, hi) → (lo : Int) ≤ s.number c ∧ s.number c ≤ hi

end Setting

/-! ## What every line keeps -/

theorem ranged_bounds {α : Type} [LE α] [DecidableLE α] {n lo hi old : α} (h : lo ≤ old ∧ old ≤ hi) :
    lo ≤ ranged n lo hi old ∧ ranged n lo hi old ≤ hi := by
  unfold ranged
  split
  · next hn => exact hn
  · exact h

/-- What the loader holds to its bounds. -/
structure Config.Held (c : Config) : Prop where
  numbers : ∀ s : Setting, s.isRate = false → s.InRange c
  links : ∀ i ∈ c.downstreams ++ c.upstreams, validIface i.toList = true

theorem Config.set_inRange {c : Config} {s : Setting} (h : s.InRange c) (hs : s.isRate = false) (v : List Char) :
    s.InRange (c.set v s) := by
  intro lo hi hb
  have hold := h lo hi hb
  cases s with
  | sqmUpKbit | sqmDownKbit => cases hs
  | backend | downstreams | upstreams | disableOffload | ipv6Mode | sqmUpIface | sqmDownIface | gso => cases hb
  | watchdogMs =>
    cases hb
    exact ranged_bounds hold
  | idleMs =>
    cases hb
    simp only [Config.set, Setting.number, clamp]
    omega
  | rescanMs | checkMs =>
    cases hb
    simp only [Config.set, Setting.number, clamp]
    omega
  | ttl | workers | ipv6Hl | maxFailures | cooldown | queueMaxlen | rcvbufMb | maxBacklog | stallLimit =>
    cases hb
    simp only [Config.set, Setting.number, Int.ofNat_le] at hold ⊢
    exact ranged_bounds hold

theorem valid_toStrings (v : List Char) : ∀ i ∈ Config.toStrings ((words v).filter validIface),
    validIface i.toList = true := by
  intro i hi
  obtain ⟨w, hw, rfl⟩ := List.mem_map.mp hi
  rw [String.toList_ofList]
  exact (List.mem_filter.mp hw).2

theorem Config.Held.set {c : Config} (h : c.Held) (v : List Char) (t : Setting) : (c.set v t).Held where
  numbers s hs := by
    by_cases hst : s = t
    · subst hst
      exact Config.set_inRange (h.numbers s hs) hs v
    · have hsame := (Config.set_alike hst c v).number
      intro lo hi hb
      rw [hsame]
      exact h.numbers s hs lo hi hb
  links i hi := by
    have hlinks := h.links i
    rw [List.mem_append] at hi hlinks
    cases t with
    | downstreams => exact hi.elim (valid_toStrings v i) fun hup => hlinks (.inr hup)
    | upstreams => exact hi.elim (fun hdown => hlinks (.inl hdown)) (valid_toStrings v i)
    | _ => exact hlinks hi

theorem Config.Held.loadLine {c : Config} (h : c.Held) (raw : List Char) : (c.loadLine raw).Held := by
  unfold Config.loadLine
  split
  · next k v hp =>
    split
    · next s hs => exact h.set v s
    · exact h
  · exact h

theorem Config.Held.lines {c : Config} (h : c.Held) (ls : List (List Char)) : (ls.foldl Config.loadLine c).Held := by
  induction ls generalizing c with
  | nil => exact h
  | cons raw ls ih => exact ih (h.loadLine raw)

theorem Config.held_default : Config.Held {} where
  numbers s _ := by
    intro lo hi hb
    cases s <;> cases hb <;> decide
  links := by decide

/-- Holding `max_backlog` to the queue leaves it in its range. -/
theorem Config.Held.capped {c : Config} (h : c.Held) : c.capped.Held := by
  unfold Config.capped
  split
  · next hlt =>
    have hq := h.numbers .queueMaxlen rfl _ _ rfl
    refine ⟨?_, h.links⟩
    intro s hs lo hi hb
    by_cases hst : s = .maxBacklog
    · subst hst
      cases hb
      simp only [Setting.number] at hq ⊢
      omega
    · have hsame : s.number { c with maxBacklog := c.queueMaxlen } = s.number c := by
        cases s <;> first | rfl | exact absurd rfl hst
      rw [hsame]
      exact h.numbers s hs lo hi hb
  · exact h

/-- Every configuration the loader answers. -/
theorem Config.load_held (text : Option (List Char)) : (Config.load text).Held := by
  cases text with
  | none => exact held_default
  | some t => exact (held_default.lines _).capped

/-! ## What the last line of a key decides -/

/-- The value the last line with its key gives a setting. -/
def Setting.last (ls : List (List Char)) (s : Setting) : Option (List Char) :=
  (assignmentsOf ls).reverse.lookup s.name.toList

theorem Setting.last_other {s : Setting} {raw : List Char} (h : ∀ v, Line.parse raw ≠ .assign s.name.toList v)
    (ls : List (List Char)) : s.last (ls ++ [raw]) = s.last ls := by
  simp only [last, assignmentsOf, List.filterMap_append, List.filterMap_cons, List.filterMap_nil]
  cases hp : Line.parse raw with
  | skipped | malformed => rw [List.append_nil]
  | assign k v =>
    have hk : s.name.toList ≠ k := by
      rintro rfl
      exact h v hp
    rw [List.reverse_concat, List.lookup_cons, beq_false_of_ne hk]

theorem Setting.last_assign {s : Setting} {raw v : List Char} (h : Line.parse raw = .assign s.name.toList v)
    (ls : List (List Char)) : s.last (ls ++ [raw]) = some v := by
  simp only [last, assignmentsOf, List.filterMap_append, List.filterMap_cons, List.filterMap_nil, h]
  rw [List.reverse_concat, List.lookup_cons_self]

/-- A setting that a line overwrites whatever it was is what the last line makes it. -/
theorem foldl_last {s : Setting} (hs : ∀ (c c' : Config) (v : List Char), s.Alike (c.set v s) (c'.set v s)) (c : Config)
    (ls : List (List Char)) :
    s.Alike (ls.foldl Config.loadLine c) (match s.last ls with | some v => c.set v s | none => c) := by
  induction ls using List.reverseRecOn with
  | nil => exact .refl c s
  | append_singleton ls raw ih =>
    rw [List.foldl_concat]
    by_cases hp : ∃ v, Line.parse raw = .assign s.name.toList v
    · obtain ⟨v, hp⟩ := hp
      rw [Setting.last_assign hp, Config.loadLine, hp]
      simp only [Setting.ofName_name]
      exact hs ..
    · have hno : ∀ v, Line.parse raw ≠ .assign s.name.toList v := fun v hv => hp ⟨v, hv⟩
      rw [Setting.last_other hno]
      refine Setting.Alike.trans ?_ ih
      unfold Config.loadLine
      split
      · next k v hkv =>
        split
        · next t ht =>
          -- The line is about another setting.
          have hne : s ≠ t := by
            rintro rfl
            exact hno v (Setting.name_ofName ht ▸ hkv)
          exact Config.set_alike hne _ v
        · exact .refl _ s
      · exact .refl _ s

/-- The rate that is the last value written of a key. -/
def lastRate (v : Option (List Char)) : Nat := v.elim 0 fun v => int (parseUnsigned 32 v) 0

/-- The interface that is the last value written of a key. -/
def lastIface (v : Option (List Char)) : String := v.elim "" String.ofList

theorem load_sqm (text : List Char) :
    (Config.load (some text)).sqmUpKbit = lastRate (Setting.last (lines text) .sqmUpKbit) ∧
      (Config.load (some text)).sqmDownKbit = lastRate (Setting.last (lines text) .sqmDownKbit) ∧
      (Config.load (some text)).sqmUpIface = lastIface (Setting.last (lines text) .sqmUpIface) ∧
      (Config.load (some text)).sqmDownIface = lastIface (Setting.last (lines text) .sqmDownIface) := by
  have hcap : ∀ c : Config, c.capped.sqmUpKbit = c.sqmUpKbit ∧ c.capped.sqmDownKbit = c.sqmDownKbit ∧
      c.capped.sqmUpIface = c.sqmUpIface ∧ c.capped.sqmDownIface = c.sqmDownIface := by
    intro c
    unfold Config.capped
    split <;> exact ⟨rfl, rfl, rfl, rfl⟩
  obtain ⟨hup, hdown, hupi, hdowni⟩ := hcap (Config.loaded text)
  rw [Config.load, hup, hdown, hupi, hdowni]
  refine ⟨?_, ?_, ?_, ?_⟩
  · refine Eq.trans (foldl_last (s := .sqmUpKbit) (fun _ _ _ => rfl) {} (lines text)) ?_
    cases Setting.last (lines text) .sqmUpKbit <;> rfl
  · refine Eq.trans (foldl_last (s := .sqmDownKbit) (fun _ _ _ => rfl) {} (lines text)) ?_
    cases Setting.last (lines text) .sqmDownKbit <;> rfl
  · refine Eq.trans (foldl_last (s := .sqmUpIface) (fun _ _ _ => rfl) {} (lines text)) ?_
    cases Setting.last (lines text) .sqmUpIface <;> rfl
  · refine Eq.trans (foldl_last (s := .sqmDownIface) (fun _ _ _ => rfl) {} (lines text)) ?_
    cases Setting.last (lines text) .sqmDownIface <;> rfl

/-! ## The bounds of the checker -/

/-- Every field is within the bounds the checker has for its key. -/
structure Config.Bounded (c : Config) : Prop where
  numbers : ∀ s : Setting, s.InRange c
  /-- A positive rate is at least 100. -/
  rates : ∀ r ∈ [c.sqmUpKbit, c.sqmDownKbit], r = 0 ∨ 100 ≤ r
  links : ∀ i ∈ c.downstreams ++ c.upstreams, validIface i.toList = true
  sqm : ∀ i ∈ [c.sqmUpIface, c.sqmDownIface], i = "" ∨ validIface i.toList = true
  backlog : c.maxBacklog ≤ c.queueMaxlen

/-- The last lines with the keys of the SQM have values the checker takes: a rate is 0 or in its range, if it is a
number at all, an interface empty or valid. -/
structure SqmFits (ls : List (List Char)) : Prop where
  rates : ∀ s ∈ [Setting.sqmUpKbit, .sqmDownKbit], ∀ v n, s.last ls = some v → parseUnsigned 32 v = some n →
    n = 0 ∨ 100 ≤ n ∧ n ≤ 1000000
  ifaces : ∀ s ∈ [Setting.sqmUpIface, .sqmDownIface], ∀ v, s.last ls = some v → v = [] ∨ validIface v = true

theorem lastRate_fits {o : Option (List Char)} : (lastRate o = 0 ∨ 100 ≤ lastRate o ∧ lastRate o ≤ 1000000) ↔
    ∀ v n, o = some v → parseUnsigned 32 v = some n → n = 0 ∨ 100 ≤ n ∧ n ≤ 1000000 := by
  cases o with
  | none => simp [lastRate]
  | some v =>
    refine ⟨?_, ?_⟩
    · intro h w n hw hn
      cases hw
      simpa [lastRate, int, hn] using h
    · intro h
      cases hn : parseUnsigned 32 v with
      | none => exact .inl (by simp [lastRate, int, hn])
      | some n => simpa [lastRate, int, hn] using h v n rfl hn

theorem lastIface_fits {o : Option (List Char)} : (lastIface o = "" ∨ validIface (lastIface o).toList = true) ↔
    ∀ v, o = some v → v = [] ∨ validIface v = true := by
  cases o with
  | none => simp [lastIface]
  | some v => simp [lastIface, String.ofList_eq_empty_iff]

theorem capped_backlog (c : Config) : c.capped.maxBacklog ≤ c.capped.queueMaxlen := by
  unfold Config.capped
  split <;> simp_all

theorem load_backlog (text : Option (List Char)) : (Config.load text).maxBacklog ≤ (Config.load text).queueMaxlen := by
  cases text with
  | none => decide
  | some t => exact capped_backlog _

/-- With what the loader holds anyway, only the rates and interfaces of the SQM are left. -/
theorem load_bounded (text : Option (List Char)) : (Config.load text).Bounded ↔
    (∀ r ∈ [(Config.load text).sqmUpKbit, (Config.load text).sqmDownKbit], r = 0 ∨ 100 ≤ r ∧ r ≤ 1000000) ∧
      ∀ i ∈ [(Config.load text).sqmUpIface, (Config.load text).sqmDownIface],
        i = "" ∨ validIface i.toList = true := by
  have hheld := Config.load_held text
  refine ⟨?_, ?_⟩
  · intro h
    have hup := h.numbers .sqmUpKbit _ _ rfl
    have hdown := h.numbers .sqmDownKbit _ _ rfl
    have hrates := h.rates
    refine ⟨?_, h.sqm⟩
    simp only [Setting.number, List.forall_mem_cons] at hup hdown hrates ⊢
    refine ⟨?_, ?_, by simp⟩ <;> omega
  · intro ⟨hrates, hifaces⟩
    refine ⟨?_, ?_, hheld.links, hifaces, load_backlog text⟩
    · intro s lo hi hb
      cases hs : s.isRate with
      | false => exact hheld.numbers s hs lo hi hb
      | true =>
        simp only [List.forall_mem_cons] at hrates
        cases s <;> cases hs <;> cases hb <;> simp only [Setting.number] <;> omega
    · intro r hr
      exact (hrates r hr).imp_right And.left

/-- **The loader stays within the checker's bounds just when the SQM's settings do.** For any text and for none, every
field of the configuration loaded is within the bounds of its key, and `max_backlog` within the queue, if and only if
the last line of each SQM key fits: all the other settings are held to their bounds as they are read. -/
theorem load_bounded_iff (text : Option (List Char)) :
    (Config.load text).Bounded ↔ ∀ t, text = some t → SqmFits (lines t) := by
  cases text with
  | none =>
    refine ⟨fun _ t h => absurd h (by simp), fun _ => (load_bounded none).mpr ⟨?_, ?_⟩⟩ <;> decide
  | some t =>
    obtain ⟨hup, hdown, hupi, hdowni⟩ := load_sqm t
    rw [load_bounded, hup, hdown, hupi, hdowni]
    simp only [List.forall_mem_cons, List.not_mem_nil, false_imp_iff, implies_true, and_true, lastRate_fits,
      lastIface_fits, Option.some.injEq, forall_eq']
    refine ⟨?_, ?_⟩
    · intro ⟨hrates, hifaces⟩
      exact ⟨by simpa using hrates, by simpa using hifaces⟩
    · intro ⟨hrates, hifaces⟩
      exact ⟨by simpa using hrates, by simpa using hifaces⟩

/-- A rate past the range, and past what the checker takes. -/
theorem load_unbounded : ¬ ∀ text : Option (List Char), (Config.load text).Bounded := by
  intro h
  have hrate := (h (some "SQM_UP_KBIT=4000000000\nSQM_UP_IFACE=rmnet_data2\n".toList)).numbers .sqmUpKbit _ _ rfl
  exact absurd hrate (by decide)

end Nfqttl
