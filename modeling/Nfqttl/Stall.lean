/-
`stall_sample` counts exactly: over any history of samples, what it answers is how long
the queue that stood still the longest has been standing.

`standing` reads the count off the history, with no map to carry it. A map that `Tracks`
the history holds it for every queue of the last sample, and a sample more keeps it so.
-/
import Mathlib.Data.List.Induction
import Nfqttl.Daemon

namespace Nfqttl.Daemon

/-- The run of samples, the last one of `samples` and backwards, that show the queue of `row` at its length and
sequence number. An empty queue stands only now. -/
def standing (row : Nat × Nat × Nat) (samples : List QStats) : Nat :=
  if row.2.1 = 0 then 1 else (samples.reverse.takeWhile fun s => decide (row ∈ s.entries)).length

/-- The map after a history of samples, from an empty one. -/
def progressAfter (samples : List QStats) : Progress :=
  samples.foldl (fun previous sample => (stallSample previous sample).1) .empty

/-! ## One sample -/

/-- The count `stall_sample` gives a row. -/
def stallCount (previous : Progress) (row : Nat × Nat × Nat) : Nat :=
  match previous.find row.1 with
  | some (oldLen, oldSeq, n) =>
    if row.2.1 > 0 && row.2.1 == oldLen && row.2.2 == oldSeq then min (n + 1) 255 else 0
  | none => 0

theorem stallRow_eq (acc : Progress × Nat) (row : Nat × Nat × Nat) : stallRow acc row =
    (acc.1.insert row.1 (row.2.1, row.2.2, stallCount acc.1 row), max acc.2 (stallCount acc.1 row)) := rfl

theorem stallCount_congr {p p' : Progress} {row : Nat × Nat × Nat} (h : p'.find row.1 = p.find row.1) :
    stallCount p' row = stallCount p row := by
  rw [stallCount, stallCount, h]

/-- Rows of different queues are counted apart. -/
theorem foldl_stallRow : ∀ (rows : List (Nat × Nat × Nat)) (acc : Progress × Nat), (rows.map (·.1)).Nodup →
    (rows.foldl stallRow acc).2 = (rows.map (stallCount acc.1)).foldl max acc.2 ∧
      (∀ row ∈ rows, (rows.foldl stallRow acc).1.find row.1 = some (row.2.1, row.2.2, stallCount acc.1 row)) ∧
      ∀ q, q ∉ rows.map (·.1) → (rows.foldl stallRow acc).1.find q = acc.1.find q
  | [], acc, _ => ⟨rfl, by simp, fun _ _ => rfl⟩
  | r :: rows, acc, hnd => by
    rw [List.map_cons, List.nodup_cons] at hnd
    obtain ⟨hr, hnd⟩ := hnd
    obtain ⟨hworst, hrows, hothers⟩ := foldl_stallRow rows (stallRow acc r) hnd
    rw [stallRow_eq] at hworst hrows hothers
    -- The count of a later row is not touched by this one.
    have hsame : ∀ row ∈ rows,
        stallCount (acc.1.insert r.1 (r.2.1, r.2.2, stallCount acc.1 r)) row = stallCount acc.1 row := by
      intro row hrow
      refine stallCount_congr (OrdMap.find_insert_ne _ _ ?_)
      intro heq
      exact hr (heq ▸ List.mem_map_of_mem hrow)
    rw [List.foldl_cons, stallRow_eq]
    refine ⟨?_, ?_, ?_⟩
    · rw [hworst, List.map_cons, List.foldl_cons, List.map_congr_left hsame]
    · intro row hrow
      rcases List.mem_cons.mp hrow with rfl | hrow
      · rw [hothers row.1 hr, OrdMap.find_insert_self]
      · rw [hrows row hrow, hsame row hrow]
    · intro q hq
      rw [List.map_cons, List.mem_cons, not_or] at hq
      rw [hothers q hq.2, OrdMap.find_insert_ne _ _ hq.1]

/-- What a sample makes of the map and of the answer. -/
theorem stallSample_eq (previous : Progress) {now : QStats} (hnd : (now.entries.map (·.1)).Nodup) :
    (stallSample previous now).2 = (now.entries.map (stallCount previous)).foldl max 0 ∧
      (∀ row ∈ now.entries,
        (stallSample previous now).1.find row.1 = some (row.2.1, row.2.2, stallCount previous row)) ∧
      ∀ q, q ∉ now.entries.map (·.1) → (stallSample previous now).1.find q = none := by
  have hfind := previous.find_retain fun q => now.entries.any (·.1 == q)
  obtain ⟨hworst, hrows, hothers⟩ := foldl_stallRow now.entries
    (previous.retain fun q => now.entries.any (·.1 == q), 0) hnd
  have hsame : ∀ row ∈ now.entries,
      stallCount (previous.retain fun q => now.entries.any (·.1 == q)) row = stallCount previous row := by
    intro row hrow
    refine stallCount_congr ((hfind row.1).trans (if_pos ?_))
    exact List.any_eq_true.mpr ⟨row, hrow, beq_self_eq_true _⟩
  refine ⟨?_, ?_, ?_⟩
  · rw [stallSample, hworst, List.map_congr_left hsame]
  · intro row hrow
    rw [stallSample, hrows row hrow, hsame row hrow]
  · intro q hq
    rw [stallSample, hothers q hq, hfind, if_neg]
    intro hany
    obtain ⟨row, hrow, heq⟩ := List.any_eq_true.mp hany
    exact hq (List.mem_map.mpr ⟨row, hrow, beq_iff_eq.mp heq⟩)

/-! ## The history -/

/-- The last sample of a history that shows a queue as `row`. -/
def LastShows (samples : List QStats) (row : Nat × Nat × Nat) : Prop := ∃ s ∈ samples.getLast?, row ∈ s.entries

/-- The map binds the queues of the last sample, to how it shows them and how long they have stood. -/
def Tracks (samples : List QStats) (p : Progress) : Prop :=
  ∀ q len seq n, p.find q = some (len, seq, n) ↔
    LastShows samples (q, len, seq) ∧ n = min 255 (standing (q, len, seq) samples - 1)

theorem tracks_nil : Tracks [] .empty := by
  intro q len seq n
  refine ⟨fun h => ?_, fun h => ?_⟩
  · cases h
  · obtain ⟨⟨s, hs, _⟩, _⟩ := h
    cases hs

theorem lastShows_concat {samples : List QStats} {now : QStats} {row : Nat × Nat × Nat} :
    LastShows (samples ++ [now]) row ↔ row ∈ now.entries := by
  simp [LastShows, List.getLast?_append]

/-- A queue shown now stands one sample longer if the last sample showed it so, and it is not empty. -/
theorem standing_concat (samples : List QStats) {now : QStats} {row : Nat × Nat × Nat} (h : row ∈ now.entries) :
    (LastShows samples row → row.2.1 ≠ 0 →
      0 < standing row samples ∧ standing row (samples ++ [now]) = standing row samples + 1) ∧
    (row.2.1 = 0 ∨ ¬ LastShows samples row → standing row (samples ++ [now]) = 1) := by
  have hconcat : row.2.1 ≠ 0 → standing row (samples ++ [now]) =
      (samples.reverse.takeWhile fun s => decide (row ∈ s.entries)).length + 1 := by
    intro hlen
    rw [standing, if_neg hlen, List.reverse_concat, List.takeWhile_cons, if_pos (decide_eq_true h), List.length_cons]
  refine ⟨?_, ?_⟩
  · intro ⟨s, hs, hrow⟩ hlen
    rw [hconcat hlen, standing, if_neg hlen]
    obtain ⟨init, rfl⟩ : ∃ init, samples = init ++ [s] := by
      obtain ⟨hne, hlast⟩ := List.getLast?_eq_some_iff.mp hs
      exact ⟨_, hlast⟩
    rw [List.reverse_concat, List.takeWhile_cons, if_pos (decide_eq_true hrow)]
    exact ⟨Nat.succ_pos _, rfl⟩
  · intro hno
    by_cases hlen : row.2.1 = 0
    · rw [standing, if_pos hlen]
    · have hlast := hno.resolve_left hlen
      rw [hconcat hlen]
      rcases List.eq_nil_or_concat samples with rfl | ⟨init, s, hinit⟩
      · rfl
      · rw [List.concat_eq_append] at hinit
        subst hinit
        have hrow : row ∉ s.entries := fun hrow => hlast (lastShows_concat.mpr hrow)
        rw [List.reverse_concat, List.takeWhile_cons, if_neg (by simpa using hrow), List.length_nil]

/-- Under a map that tracks the samples before, a row's count is how long its queue has stood. -/
theorem Tracks.count {samples : List QStats} {p : Progress} (h : Tracks samples p) {now : QStats}
    {row : Nat × Nat × Nat} (hrow : row ∈ now.entries) :
    stallCount p row = min 255 (standing row (samples ++ [now]) - 1) := by
  obtain ⟨q, len, seq⟩ := row
  obtain ⟨hlonger, hagain⟩ := standing_concat samples hrow
  by_cases hstill : LastShows samples (q, len, seq) ∧ len ≠ 0
  · obtain ⟨hlast, hlen⟩ := hstill
    obtain ⟨hpos, hsucc⟩ := hlonger hlast hlen
    have hfind := (h q len seq _).mpr ⟨hlast, rfl⟩
    have hgt : len > 0 := Nat.pos_of_ne_zero hlen
    simp only [stallCount, hfind, hsucc, hgt, decide_true, beq_self_eq_true, Bool.and_self, if_true]
    omega
  · have hone : standing (q, len, seq) (samples ++ [now]) = 1 := by
      refine hagain ?_
      by_cases hlen : len = 0
      · exact .inl hlen
      · exact .inr fun hlast => hstill ⟨hlast, hlen⟩
    rw [hone, stallCount]
    split
    · next oldLen oldSeq n hfind =>
      -- The map has the queue as the last sample shows it, and that is not as now.
      refine if_neg ?_
      intro hsame
      simp only [Bool.and_eq_true, decide_eq_true_eq, beq_iff_eq] at hsame
      obtain ⟨⟨hlen, rfl⟩, rfl⟩ := hsame
      exact hstill ⟨((h q len seq n).mp hfind).1, Nat.pos_iff_ne_zero.mp hlen⟩
    · rfl

/-- One sample more is tracked too. -/
theorem Tracks.step {samples : List QStats} {p : Progress} (h : Tracks samples p) {now : QStats}
    (hnd : (now.entries.map (·.1)).Nodup) : Tracks (samples ++ [now]) (stallSample p now).1 := by
  obtain ⟨_, hrows, hothers⟩ := stallSample_eq p hnd
  intro q len seq n
  rw [lastShows_concat]
  refine ⟨?_, ?_⟩
  · intro hfind
    by_cases hq : q ∈ now.entries.map (·.1)
    · obtain ⟨row, hrow, rfl⟩ := List.mem_map.mp hq
      rw [hrows row hrow, h.count hrow] at hfind
      cases hfind
      exact ⟨hrow, rfl⟩
    · rw [hothers q hq] at hfind
      cases hfind
  · intro ⟨hrow, hn⟩
    rw [hrows _ hrow, h.count hrow, hn]

/-- So the map after any history tracks it. -/
theorem progressAfter_tracks (samples : List QStats) (h : ∀ s ∈ samples, (s.entries.map (·.1)).Nodup) :
    Tracks samples (progressAfter samples) := by
  induction samples using List.reverseRecOn with
  | nil => exact tracks_nil
  | append_singleton samples now ih =>
    rw [progressAfter, List.foldl_concat]
    exact (ih fun s hs => h s (List.mem_append_left _ hs)).step (h now (by simp))

/-- **Stalls are counted exactly.** After any history of samples in which no sample has a queue twice, the answer to
the next one is the maximum, over its queues, of how many samples each has been standing beyond the first, held to
255. A queue that is empty, or that the sample before does not show as it is now, counts 0; what a queue counts does
not depend on the others. -/
theorem stallSample_exact (past : List QStats) (now : QStats)
    (h : ∀ s ∈ past ++ [now], (s.entries.map (·.1)).Nodup) :
    (stallSample (progressAfter past) now).2 =
        (now.entries.map fun row => min 255 (standing row (past ++ [now]) - 1)).foldl max 0 ∧
      (∀ row ∈ now.entries, (progressAfter (past ++ [now])).find row.1 =
        some (row.2.1, row.2.2, min 255 (standing row (past ++ [now]) - 1))) ∧
      ∀ row ∈ now.entries, row.2.1 = 0 ∨ ¬ LastShows past row → min 255 (standing row (past ++ [now]) - 1) = 0 := by
  have htracks := progressAfter_tracks past fun s hs => h s (List.mem_append_left _ hs)
  refine ⟨?_, ?_, ?_⟩
  · rw [(stallSample_eq _ (h now (by simp))).1, List.map_congr_left fun row hrow => htracks.count hrow]
  · intro row hrow
    exact (progressAfter_tracks _ h _ _ _ _).mpr ⟨lastShows_concat.mpr hrow, rfl⟩
  · intro row hrow hagain
    rw [(standing_concat past hrow).2 hagain]
    rfl

/-- Two queues, the first of which stands still for three samples while the other goes on. -/
def oneStalled : List QStats :=
  [200, 201, 202].map fun seq => ⟨2, 25, 0, 0, [(6464, 20, 100), (6465, 5, seq)]⟩

theorem stallSample_oneStalled :
    (stallSample (progressAfter oneStalled) ⟨2, 25, 0, 0, [(6464, 20, 100), (6465, 5, 203)]⟩).2 = 3 := by
  rw [(stallSample_exact oneStalled ⟨2, 25, 0, 0, [(6464, 20, 100), (6465, 5, 203)]⟩ (by decide)).1]
  decide

end Nfqttl.Daemon
