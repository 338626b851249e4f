/-
Finite maps as key-sorted entry lists: one list per map, so two maps with the
same bindings are equal, and iterating over a map goes by increasing key.
-/
import Mathlib.Data.List.Sort
import Mathlib.Data.String.Basic

/-- A finite map from `κ` to `ν`, kept as its entries by strictly increasing key. -/
structure OrdMap (κ ν : Type) [LinearOrder κ] where
  entries : List (κ × ν)
  sorted : entries.Pairwise fun a b => a.1 < b.1

namespace OrdMap

variable {κ ν : Type} [LinearOrder κ]

instance [DecidableEq ν] : DecidableEq (OrdMap κ ν) := fun a b =>
  decidable_of_iff (a.entries = b.entries) (by cases a; cases b; simp)

def empty : OrdMap κ ν := ⟨[], .nil⟩

def isEmpty (m : OrdMap κ ν) : Bool := m.entries.isEmpty

def keys (m : OrdMap κ ν) : List κ := m.entries.map (·.1)

/-- The value bound to `k`. -/
def find (m : OrdMap κ ν) (k : κ) : Option ν :=
  (m.entries.find? fun p => decide (p.1 = k)).map (·.2)

/-- Put `k ↦ v` at its place among entries sorted by key, over any binding of `k`. -/
def insertEntry (k : κ) (v : ν) : List (κ × ν) → List (κ × ν)
  | [] => [(k, v)]
  | (k', v') :: l =>
    if k < k' then (k, v) :: (k', v') :: l
    else if k = k' then (k, v) :: l
    else (k', v') :: insertEntry k v l

theorem mem_insertEntry {k : κ} {v : ν} {p : κ × ν} : ∀ {l : List (κ × ν)},
    p ∈ insertEntry k v l → p = (k, v) ∨ p ∈ l
  | [], h => by simpa [insertEntry] using h
  | (k', v') :: l, h => by
    simp only [insertEntry] at h
    split at h
    · simpa using h
    split at h
    · simp only [List.mem_cons] at h ⊢
      exact h.imp id .inr
    · simp only [List.mem_cons] at h ⊢
      rcases h with h | h
      · exact .inr (.inl h)
      · exact (mem_insertEntry h).imp id .inr

theorem insertEntry_sorted {k : κ} {v : ν} : ∀ {l : List (κ × ν)},
    l.Pairwise (fun a b => a.1 < b.1) → (insertEntry k v l).Pairwise fun a b => a.1 < b.1
  | [], _ => by simp [insertEntry]
  | (k', v') :: l, h => by
    obtain ⟨hk, hl⟩ := List.pairwise_cons.mp h
    simp only [insertEntry]
    split
    · next hlt =>
      refine List.pairwise_cons.mpr ⟨fun p hp => ?_, h⟩
      rcases List.mem_cons.mp hp with rfl | hp
      · exact hlt
      · exact hlt.trans (hk p hp)
    split
    · next heq => subst heq; exact List.pairwise_cons.mpr ⟨fun p hp => hk p hp, hl⟩
    · next hlt hne =>
      refine List.pairwise_cons.mpr ⟨fun p hp => ?_, insertEntry_sorted hl⟩
      rcases mem_insertEntry hp with rfl | hp
      · exact lt_of_le_of_ne (not_lt.mp hlt) (Ne.symm hne)
      · exact hk p hp

def insert (m : OrdMap κ ν) (k : κ) (v : ν) : OrdMap κ ν :=
  ⟨insertEntry k v m.entries, insertEntry_sorted m.sorted⟩

def erase (m : OrdMap κ ν) (k : κ) : OrdMap κ ν :=
  ⟨m.entries.filter fun p => decide (p.1 ≠ k), m.sorted.filter _⟩

/-- The entries whose key `p` holds of. -/
def retain (m : OrdMap κ ν) (p : κ → Bool) : OrdMap κ ν :=
  ⟨m.entries.filter fun e => p e.1, m.sorted.filter _⟩

@[simp] theorem find_empty (k : κ) : (empty : OrdMap κ ν).find k = none := rfl

/-- An entry is a binding. -/
theorem mem_entries {m : OrdMap κ ν} {k : κ} {v : ν} : (k, v) ∈ m.entries ↔ m.find k = some v := by
  obtain ⟨l, hl⟩ := m
  simp only [find]
  induction l with
  | nil => simp
  | cons p l ih =>
    obtain ⟨k', v'⟩ := p
    obtain ⟨hk, hl⟩ := List.pairwise_cons.mp hl
    by_cases he : k' = k
    · subst he
      have hnot : ∀ w, (k', w) ∉ l := fun w hw => (hk _ hw).false
      simp [hnot, eq_comm]
    · simp only [List.mem_cons, Prod.mk.injEq, Ne.symm he, false_and, false_or, List.find?_cons, he,
        decide_false]
      exact ih hl

theorem find_insertEntry {k : κ} {v : ν} (k₁ : κ) : ∀ {l : List (κ × ν)},
    l.Pairwise (fun a b => a.1 < b.1) →
    ((insertEntry k v l).find? fun p => decide (p.1 = k₁)).map (·.2) =
      if k₁ = k then some v else (l.find? fun p => decide (p.1 = k₁)).map (·.2)
  | [], _ => by
    by_cases h : k = k₁
    · subst h; simp [insertEntry]
    · simp [insertEntry, h, Ne.symm h]
  | (k', v') :: l, hl => by
    obtain ⟨hk, hl⟩ := List.pairwise_cons.mp hl
    simp only [insertEntry]
    split
    · by_cases h : k = k₁
      · subst h; simp
      · simp [List.find?_cons, h, Ne.symm h]
    split
    · next heq =>
      subst heq
      by_cases h : k = k₁
      · subst h; simp
      · simp [h, Ne.symm h]
    · next hne =>
      by_cases h : k' = k₁
      · subst h; simp [Ne.symm hne]
      · simpa [List.find?_cons, h] using find_insertEntry k₁ hl

theorem find_insert (m : OrdMap κ ν) (k : κ) (v : ν) (k' : κ) :
    (m.insert k v).find k' = if k' = k then some v else m.find k' := find_insertEntry k' m.sorted

@[simp] theorem find_insert_self (m : OrdMap κ ν) (k : κ) (v : ν) : (m.insert k v).find k = some v := by
  simp [find_insert]

theorem find_insert_ne (m : OrdMap κ ν) {k k' : κ} (v : ν) (h : k' ≠ k) :
    (m.insert k v).find k' = m.find k' := by simp [find_insert, h]

theorem find_erase (m : OrdMap κ ν) (k k' : κ) :
    (m.erase k).find k' = if k' = k then none else m.find k' := by
  apply Option.ext
  intro v
  rw [← mem_entries]
  split
  · next h => subst h; simp [erase]
  · next h => simp [erase, h, mem_entries]

theorem find_retain (m : OrdMap κ ν) (p : κ → Bool) (k : κ) :
    (m.retain p).find k = if p k then m.find k else none := by
  apply Option.ext
  intro v
  rw [← mem_entries]
  split
  · next h => simp [retain, h, mem_entries]
  · next h => simp [retain, h]

theorem find_of_erase {m : OrdMap κ ν} {k k' : κ} {v : ν} (h : (m.erase k).find k' = some v) :
    m.find k' = some v := by
  rw [find_erase] at h
  split at h
  · cases h
  · exact h

/-- Insert the entries of `l` one after the other. -/
def insertAll (m : OrdMap κ ν) (l : List (κ × ν)) : OrdMap κ ν := l.foldl (fun m e => m.insert e.1 e.2) m

/-- Of entries with different keys each is a binding, and no other binding is overwritten. -/
theorem find_insertAll {l : List (κ × ν)} (hl : (l.map (·.1)).Nodup) (m : OrdMap κ ν) {k : κ} {v : ν} :
    (m.insertAll l).find k = some v ↔ (k, v) ∈ l ∨ k ∉ l.map (·.1) ∧ m.find k = some v := by
  induction l generalizing m with
  | nil => simp [insertAll]
  | cons e l ih =>
    obtain ⟨k', w⟩ := e
    obtain ⟨hk, hl⟩ := List.nodup_cons.mp hl
    have hstep : (m.insertAll ((k', w) :: l)).find k = ((m.insert k' w).insertAll l).find k := rfl
    rw [hstep, ih hl, find_insert]
    by_cases he : k = k'
    · subst he
      have hnot : (k, v) ∉ l := fun h => hk (List.mem_map.mpr ⟨_, h, rfl⟩)
      simp only [hnot, hk, not_false_eq_true, if_true, true_and, false_or, List.mem_cons, List.map_cons, not_true,
        false_and, or_false, Prod.mk.injEq, Option.some.injEq, eq_comm]
    · simp [he]

theorem nodup_keys (m : OrdMap κ ν) : (m.entries.map (·.1)).Nodup :=
  List.pairwise_map.mpr (m.sorted.imp fun h => h.ne)

/-- Two maps with the same bindings are equal. -/
theorem ext {a b : OrdMap κ ν} (h : ∀ k, a.find k = b.find k) : a = b := by
  have hnd : ∀ m : OrdMap κ ν, m.entries.Nodup := fun m =>
    m.sorted.imp fun {p q} hpq heq => (heq ▸ hpq).false
  have hperm : a.entries.Perm b.entries := (List.perm_ext_iff_of_nodup (hnd a) (hnd b)).2 fun ⟨k, v⟩ => by
    rw [mem_entries, mem_entries, h]
  have heq : a.entries = b.entries := hperm.eq_of_pairwise
    (fun p q _ _ h₁ h₂ => absurd (h₁.trans h₂) (lt_irrefl _)) a.sorted b.sorted
  cases a; cases b; cases heq; rfl

/-- A map is its entries, inserted one after the other. -/
theorem insertAll_entries (m : OrdMap κ ν) : empty.insertAll m.entries = m := by
  refine ext ?_
  intro k
  refine Option.ext ?_
  intro v
  simp [find_insertAll m.nodup_keys, mem_entries]

theorem find_none_of_isEmpty {m : OrdMap κ ν} (h : m.isEmpty = true) (k : κ) : m.find k = none := by
  simp only [isEmpty, List.isEmpty_iff] at h
  simp [find, h]

theorem eq_empty_of_isEmpty {m : OrdMap κ ν} (h : m.isEmpty = true) : m = empty :=
  ext fun k => by simp [find_none_of_isEmpty h]

end OrdMap
