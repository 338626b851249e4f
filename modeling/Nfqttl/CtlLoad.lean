/-
What the checker and the loader make of an edit.

An edit of an accepted text whose values fit, and that leaves the interfaces alone, is
refused by the checks on the SQM's settings together or not at all. It is loaded with
the settings asked for, and with the others as they were.
-/
import Nfqttl.CtlEdit
import Nfqttl.Customize

namespace Nfqttl

open Text

/-! ## Lines that are let through -/

/-- The words `s` is left with by what lines assign, which the last of them decides. -/
def lastWords (s : Setting) (as : List (List Char × List Char)) (ws : List (List Char)) : List (List Char) :=
  as.foldl (fun ws a => if a.1 = s.name.toList then words a.2 else ws) ws

theorem lastWords_filter (s : Setting) (as : List (List Char × List Char)) (ws : List (List Char)) :
    lastWords s (as.filter (·.1 = s.name.toList)) ws = lastWords s as ws := by
  rw [lastWords, List.foldl_filter, lastWords]
  congr
  funext ws a
  by_cases ha : a.1 = s.name.toList <;> simp [ha]

theorem Config.Seen.note_down {seen : Config.Seen} {s : Setting} (v : List Char) :
    (seen.note v s).down = if s.name.toList = Setting.downstreams.name.toList then words v else seen.down := by
  cases s <;> rfl

theorem Config.Seen.note_up {seen : Config.Seen} {s : Setting} (v : List Char) :
    (seen.note v s).up = if s.name.toList = Setting.upstreams.name.toList then words v else seen.up := by
  cases s <;> rfl

theorem Accepted.tail {seen ls : List (List Char)} {raw k v : List Char} (h : Accepted seen (raw :: ls))
    (hp : Line.parse raw = .assign k v) : Accepted (k :: seen) ls := by
  have heq := assignmentsOf_assign hp ls
  have hnodup := h.nodup
  rw [heq, List.map_cons, List.nodup_cons] at hnodup
  refine ⟨hnodup.2, ?_, ?_⟩
  · intro k' hk' hmem
    rcases List.mem_cons.mp hmem with rfl | hmem
    · exact hnodup.1 hk'
    · exact h.fresh k' (heq ▸ List.mem_cons_of_mem _ hk') hmem
  · intro k' v' hmem
    exact h.fits k' v' (heq ▸ List.mem_cons_of_mem _ hmem)

/-- Lines with keys of their own and values that fit are let through. -/
theorem checkLines_accepted {ls : List (List Char)} (seen : Config.Seen)
    (hform : ∀ raw ∈ ls, Line.parse raw ≠ .malformed) (hacc : Accepted seen.keys ls) (i : Nat) :
    ∃ seen', (ls.zipIdx i).foldlM Config.checkLine seen = .ok seen' ∧
      seen'.down = lastWords .downstreams (assignmentsOf ls) seen.down ∧
      seen'.up = lastWords .upstreams (assignmentsOf ls) seen.up := by
  induction ls generalizing seen i with
  | nil => exact ⟨seen, rfl, rfl, rfl⟩
  | cons raw ls ih =>
    obtain ⟨hraw, hls⟩ := List.forall_mem_cons.mp hform
    rw [List.zipIdx_cons, List.foldlM_cons]
    cases hp : Line.parse raw with
    | malformed => exact absurd hp hraw
    | skipped =>
      have hstep : Config.checkLine seen (raw, i) = .ok seen := by simp only [Config.checkLine, hp]
      have heq : assignmentsOf (raw :: ls) = assignmentsOf ls := assignmentsOf_other (by simp [hp]) ls
      rw [hstep, heq]
      exact ih seen hls (hacc.congr heq.symm) (i + 1)
    | assign k v =>
      have heq := assignmentsOf_assign hp ls
      obtain ⟨s, hs, hfits⟩ := hacc.fits k v (heq ▸ List.mem_cons_self ..)
      have hnew : k ∉ seen.keys := hacc.fresh k (heq ▸ List.mem_cons_self ..)
      let next : Config.Seen := { seen with keys := k :: seen.keys }
      have hstep : Config.checkLine seen (raw, i) = .ok (next.note v s) := by
        simp only [Config.checkLine, hp, if_neg hnew, hs]
        exact checkValue_fits hfits i _ k
      have hkeys : (next.note v s).keys = k :: seen.keys := by cases s <;> rfl
      have hk := Setting.name_ofName hs
      obtain ⟨seen', hfold, hdown, hup⟩ := ih _ hls (hkeys ▸ hacc.tail hp) (i + 1)
      refine ⟨seen', by rw [hstep]; exact hfold, ?_, ?_⟩
      · rw [hdown, heq, Config.Seen.note_down, hk]
        rfl
      · rw [hup, heq, Config.Seen.note_up, hk]
        rfl

namespace Ctl

/-! ## What the edited lines assign -/

theorem keyOf_of_parse {raw k v : List Char} (h : Line.parse raw = .assign k v) : keyOf raw = some k := by
  rw [Line.parse] at h
  split at h
  · cases h
  rw [splitOnce_trim (by decide)] at h
  cases hs : splitOnce '=' raw with
  | none =>
    rw [hs] at h
    cases h
  | some p =>
    simp only [hs, Option.map_some, trim_trimStart, Line.assign.injEq] at h
    rw [keyOf, hs, Option.map_some, h.1]

variable {entries : Entries} {ls : List (List Char)}

theorem parse_entry (h : Requests entries) {k v : List Char} (hkv : entries.find k = some v) :
    Line.parse (k ++ '=' :: v) = .assign k (unquote v) :=
  parse_assignment (h.keys k v hkv) v

theorem assignmentsOf_entries (h : Requests entries) :
    assignmentsOf (editLines entries []) = entries.entries.map fun e => (e.1, unquote e.2) := by
  rw [editLines, assignmentsOf, List.filterMap_map, ← List.filterMap_eq_map]
  refine List.filterMap_congr ?_
  intro e he
  simp only [Function.comp_apply, parse_entry h (OrdMap.mem_entries.mp he)]

/-- The edited lines assign what is asked for, and beside it what they did. -/
theorem mem_assignmentsOf_edit (h : Requests entries) (hls : ((assignmentsOf ls).map (·.1)).Nodup) :
    ((assignmentsOf (editLines entries ls)).map (·.1)).Nodup ∧ ∀ k v, (k, v) ∈ assignmentsOf (editLines entries ls) ↔
      (∃ w, entries.find k = some w ∧ v = unquote w) ∨ entries.find k = none ∧ (k, v) ∈ assignmentsOf ls := by
  induction ls generalizing entries with
  | nil =>
    rw [assignmentsOf_entries h]
    refine ⟨?_, ?_⟩
    · rw [List.map_map]
      exact entries.nodup_keys
    · intro k v
      simp only [List.mem_map, Prod.mk.injEq, Prod.exists, OrdMap.mem_entries, assignmentsOf, List.filterMap_nil,
        List.not_mem_nil, and_false, or_false]
      refine ⟨?_, ?_⟩
      · rintro ⟨k', w, hw, rfl, rfl⟩
        exact ⟨w, hw, rfl⟩
      · rintro ⟨w, hw, rfl⟩
        exact ⟨k, w, hw, rfl, rfl⟩
  | cons raw ls ih =>
    rw [editLines]
    rcases editLine_cases entries raw with ⟨heq, hnone⟩ | ⟨k₀, v₀, hkey, hf, heq⟩
    · rw [heq]
      cases hp : Line.parse raw with
      | skipped | malformed =>
        have hother : ∀ k v, Line.parse raw ≠ .assign k v := by simp [hp]
        rw [assignmentsOf_other hother] at hls ⊢
        rw [assignmentsOf_other hother]
        exact ih h hls
      | assign k₀ v₀ =>
        rw [assignmentsOf_assign hp, List.map_cons, List.nodup_cons] at hls
        obtain ⟨hnodup, hiff⟩ := ih h hls.2
        have hfree : entries.find k₀ = none := hnone k₀ (keyOf_of_parse hp)
        rw [assignmentsOf_assign hp, assignmentsOf_assign hp, List.map_cons, List.nodup_cons]
        refine ⟨⟨?_, hnodup⟩, ?_⟩
        · intro hmem
          obtain ⟨⟨k, v⟩, hkv, rfl⟩ := List.mem_map.mp hmem
          rcases (hiff k v).mp hkv with ⟨w, hw, -⟩ | ⟨-, hold⟩
          · simp [hfree] at hw
          · exact hls.1 (List.mem_map.mpr ⟨_, hold, rfl⟩)
        · intro k v
          rw [List.mem_cons, List.mem_cons, hiff]
          by_cases hk : k = k₀
          · subst hk
            simp [hfree]
          · simp [hk]
    · -- The line is replaced, and no other line has its key.
      rw [heq]
      have hraw : ∃ v, Line.parse raw = .assign k₀ v := by
        obtain ⟨p, hs, hk⟩ := Option.map_eq_some_iff.mp hkey
        exact ⟨_, parse_of_split hs hk (h.keys k₀ v₀ hf)⟩
      obtain ⟨old, hp⟩ := hraw
      rw [assignmentsOf_assign hp, List.map_cons, List.nodup_cons] at hls
      obtain ⟨hnodup, hiff⟩ := ih (h.erase k₀) hls.2
      have habsent : ∀ v, (k₀, v) ∉ assignmentsOf ls := fun v hmem => hls.1 (List.mem_map.mpr ⟨_, hmem, rfl⟩)
      rw [assignmentsOf_assign (parse_entry h hf), assignmentsOf_assign hp, List.map_cons, List.nodup_cons]
      refine ⟨⟨?_, hnodup⟩, ?_⟩
      · intro hmem
        obtain ⟨⟨k, v⟩, hkv, rfl⟩ := List.mem_map.mp hmem
        rcases (hiff k v).mp hkv with ⟨w, hw, -⟩ | ⟨-, hold⟩
        · simp [OrdMap.find_erase] at hw
        · exact habsent v hold
      · intro k v
        rw [List.mem_cons, List.mem_cons, hiff, OrdMap.find_erase]
        by_cases hk : k = k₀
        · subst hk
          simp [hf, habsent]
        · simp [hk]

/-! ## The new text -/

/-- What an edit may ask for: values that fit, of settings that are not the interfaces. -/
structure Fitting (entries : Entries) : Prop extends Requests entries where
  fits : ∀ k v, entries.find k = some v → ∃ s : Setting, k = s.name.toList ∧ s.Fits (unquote v)
  downstreams : entries.find Setting.downstreams.name.toList = none
  upstreams : entries.find Setting.upstreams.name.toList = none

variable {old : List Char}

theorem lines_rewrite (h : Requests entries) :
    lines (rewrite old entries) = (editLines entries (lines old)).map stripCr := by
  rw [rewrite_eq, lines_unlines (newline_notMem_editLines h fun l hl => newline_notMem_lines hl)]

theorem assignments_rewrite (h : Requests entries) :
    assignments (rewrite old entries) = assignmentsOf (editLines entries (lines old)) := by
  rw [assignments, lines_rewrite h, assignmentsOf_stripCr]

/-- Every new line is one of the old or one that was asked for. -/
theorem mem_editLines_cases {raw : List Char} (hraw : raw ∈ editLines entries ls) :
    raw ∈ ls ∨ ∃ k v, entries.find k = some v ∧ raw = k ++ '=' :: v := by
  induction ls generalizing entries with
  | nil =>
    obtain ⟨⟨k, v⟩, hmem, rfl⟩ := List.mem_map.mp hraw
    exact .inr ⟨k, v, OrdMap.mem_entries.mp hmem, rfl⟩
  | cons line ls ih =>
    rw [editLines] at hraw
    rcases editLine_cases entries line with ⟨heq, -⟩ | ⟨k, v, -, hf, heq⟩
    · rw [heq] at hraw
      rcases List.mem_cons.mp hraw with rfl | hraw
      · exact .inl (List.mem_cons_self ..)
      · exact (ih hraw).imp (List.mem_cons_of_mem _) id
    · rw [heq] at hraw
      rcases List.mem_cons.mp hraw with rfl | hraw
      · exact .inr ⟨k, v, hf, rfl⟩
      · refine (ih hraw).imp (List.mem_cons_of_mem _) ?_
        rintro ⟨k', v', hf', rfl⟩
        exact ⟨k', v', OrdMap.find_of_erase hf', rfl⟩

theorem Fitting.accepted (h : Fitting entries) (hform : ∀ raw ∈ lines old, Line.parse raw ≠ .malformed)
    (hacc : Accepted [] (lines old)) :
    (∀ raw ∈ lines (rewrite old entries), Line.parse raw ≠ .malformed) ∧ Accepted [] (lines (rewrite old entries)) := by
  have hmem := mem_assignmentsOf_edit h.toRequests hacc.nodup
  refine ⟨?_, ?_⟩
  · intro raw hraw
    rw [lines_rewrite h.toRequests] at hraw
    obtain ⟨line, hline, rfl⟩ := List.mem_map.mp hraw
    rw [parse_stripCr]
    rcases mem_editLines_cases hline with hold | ⟨k, v, hkv, rfl⟩
    · exact hform line hold
    · simp [parse_entry h.toRequests hkv]
  · have heq : assignmentsOf (lines (rewrite old entries)) = assignmentsOf (editLines entries (lines old)) :=
      assignments_rewrite h.toRequests
    refine ⟨heq ▸ hmem.1, by simp, ?_⟩
    intro k v hkv
    rcases (hmem.2 k v).mp (heq ▸ hkv) with ⟨w, hw, rfl⟩ | ⟨-, hold⟩
    · obtain ⟨s, rfl, hfits⟩ := h.fits k w hw
      exact ⟨s, Setting.ofName_name s, hfits⟩
    · exact hacc.fits k v hold

/-- The interfaces are assigned the words they were. -/
theorem Fitting.lastWords (h : Fitting entries) {s : Setting} (hs : entries.find s.name.toList = none) :
    lastWords s (assignments (rewrite old entries)) [] = lastWords s (assignments old) [] := by
  let keys := entries.keys
  have hkeys : ∀ k v, entries.find k = some v → k ∈ keys := fun k v hkv =>
    List.mem_map.mpr ⟨(k, v), OrdMap.mem_entries.mpr hkv, rfl⟩
  have hnot : s.name.toList ∉ keys := by
    intro hmem
    obtain ⟨⟨k, v⟩, hkv, hk⟩ := List.mem_map.mp hmem
    rw [← hk, OrdMap.mem_entries.mp hkv] at hs
    cases hs
  have hothers : (assignments (rewrite old entries)).filter (·.1 ∉ keys) = (assignments old).filter (·.1 ∉ keys) := by
    rw [assignments_rewrite h.toRequests, assignments, assignmentsOf_untouched, assignmentsOf_untouched,
      editLines_untouched h.toRequests hkeys]
  have hkey : ∀ as : List (List Char × List Char),
      as.filter (·.1 = s.name.toList) = (as.filter (·.1 ∉ keys)).filter (·.1 = s.name.toList) := by
    intro as
    rw [List.filter_filter]
    refine List.filter_congr ?_
    intro a _
    by_cases ha : a.1 = s.name.toList
    · simp [ha, hnot]
    · simp [ha]
  rw [← lastWords_filter, hkey, hothers, ← hkey, lastWords_filter]

/-- An edit of an accepted text is left to the checks on the SQM's settings. -/
theorem Fitting.validate (h : Fitting entries) (hold : Config.validate old = .ok ()) :
    Config.validate (rewrite old entries) = Config.checkSqm (Config.load (some (rewrite old entries))) := by
  obtain ⟨hform, hacc⟩ := accepted_of_validate hold
  obtain ⟨seen₀, hfold₀, hapart₀, -⟩ := Customize.validate_iff.mp hold
  obtain ⟨seen₁, hfold₁, hdown₁, hup₁⟩ := checkLines_accepted {} hform hacc 0
  obtain rfl : seen₀ = seen₁ := Except.ok.inj (hfold₀.symm.trans hfold₁)
  obtain ⟨hform', hacc'⟩ := h.accepted hform hacc
  obtain ⟨seen, hfold, hdown, hup⟩ := checkLines_accepted {} hform' hacc' 0
  have hsame : seen.down = seen₀.down ∧ seen.up = seen₀.up :=
    ⟨by rw [hdown, hdown₁]; exact h.lastWords h.downstreams, by rw [hup, hup₁]; exact h.lastWords h.upstreams⟩
  have hapart : seen.down.any seen.up.contains = false := by rw [hsame.1, hsame.2]; exact hapart₀
  rw [Config.validate, hfold]
  simp only [bind, Except.bind, hapart, Bool.false_eq_true, if_false]

/-- The lines leave the settings asked for as asked, and the others as they were. -/
theorem Fitting.loads (h : Fitting entries) (hold : Config.validate old = .ok ()) (s : Setting) :
    (∀ v, entries.find s.name.toList = some v → s.Means (unquote v) (Config.loaded (rewrite old entries))) ∧
      (entries.find s.name.toList = none → s.Alike (Config.loaded (rewrite old entries)) (Config.loaded old)) := by
  obtain ⟨hform, hacc⟩ := accepted_of_validate hold
  obtain ⟨-, hacc'⟩ := h.accepted hform hacc
  have hmem : ∀ v, (s.name.toList, v) ∈ assignmentsOf (lines (rewrite old entries)) ↔
      (∃ w, entries.find s.name.toList = some w ∧ v = unquote w) ∨
        entries.find s.name.toList = none ∧ (s.name.toList, v) ∈ assignmentsOf (lines old) := by
    intro v
    rw [← assignments, assignments_rewrite h.toRequests]
    exact (mem_assignmentsOf_edit h.toRequests hacc.nodup).2 s.name.toList v
  obtain ⟨hmeans, hdefault⟩ := foldl_loadLine hacc {} s
  obtain ⟨hmeans', hdefault'⟩ := foldl_loadLine hacc' {} s
  refine ⟨?_, ?_⟩
  · intro v hv
    exact hmeans' _ ((hmem _).mpr (.inl ⟨v, hv, rfl⟩))
  · intro hnone
    by_cases hassigned : ∃ v, (s.name.toList, v) ∈ assignmentsOf (lines old)
    · obtain ⟨v, hv⟩ := hassigned
      exact (hmeans' v ((hmem v).mpr (.inr ⟨hnone, hv⟩))).alike (hmeans v hv)
    · have hv : ∀ v, (s.name.toList, v) ∉ assignmentsOf (lines old) := fun v hv => hassigned ⟨v, hv⟩
      refine (hdefault' fun v hv' => ?_).trans (hdefault hv).symm
      rcases (hmem v).mp hv' with ⟨w, hw, -⟩ | ⟨-, hold⟩
      · simp [hnone] at hw
      · exact hv v hold

/-- So does the loader, when neither `max_backlog` nor the queue it is held to is asked for. -/
theorem Fitting.load (h : Fitting entries) (hold : Config.validate old = .ok ())
    (hbacklog : entries.find Setting.maxBacklog.name.toList = none)
    (hqueue : entries.find Setting.queueMaxlen.name.toList = none) (s : Setting) :
    (∀ v, entries.find s.name.toList = some v → s.Means (unquote v) (Config.load (some (rewrite old entries)))) ∧
      (entries.find s.name.toList = none →
        s.Alike (Config.load (some (rewrite old entries))) (Config.load (some old))) := by
  obtain ⟨hmeans, halike⟩ := h.loads hold s
  have hload : ∀ text, Config.load (some text) = (Config.loaded text).capped := fun _ => rfl
  rw [hload, hload]
  by_cases hs : s = .maxBacklog
  · subst hs
    refine ⟨fun v hv => by simp [hbacklog] at hv, fun _ => ?_⟩
    have hlen : (Config.loaded (rewrite old entries)).queueMaxlen = (Config.loaded old).queueMaxlen :=
      (h.loads hold .queueMaxlen).2 hqueue
    have hmax : (Config.loaded (rewrite old entries)).maxBacklog = (Config.loaded old).maxBacklog := halike hbacklog
    simp only [Setting.Alike, Config.capped_eq, hlen, hmax]
  · have hcapped : ∀ text, s.Alike (Config.loaded text).capped (Config.loaded text) := fun _ => Config.capped_alike hs _
    exact ⟨fun v hv => (hcapped _).means (hmeans v hv),
      fun hnone => ((hcapped _).trans (halike hnone)).trans (hcapped _).symm⟩

/-! ## Runs -/

/-- A run leaves `config.conf` as it is, or edited as asked for and accepted. -/
theorem run_config (f : Faults) (w : World) (settings : List (List Char)) :
    (run f w settings).2.config = w.config ∨ ∃ entries, parseArgs settings = .ok entries ∧
      Config.validate (rewrite w.config entries) = .ok () ∧
      (run f w settings).2.config = rewrite w.config entries := by
  rw [run_eq]
  split
  · exact .inl rfl
  cases hargs : parseArgs settings with
  | error e => exact .inl rfl
  | ok entries =>
    cases hv : Config.validate (rewrite w.config entries) with
    | error e => exact .inl (configured_error (f := f) (w := { w with offered := none }) hv).1
    | ok u =>
      rcases configured_ok (f := f) (w := { w with offered := none }) hv with ⟨hconfig, -⟩ | ⟨hconfig, -⟩
      · exact .inl hconfig
      · exact .inr ⟨entries, rfl, hv, hconfig⟩

end Ctl

end Nfqttl
