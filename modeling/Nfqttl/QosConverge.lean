/-
`reconcile` converges and is reversible: when nothing fails it makes the journals and
the roots those wanted, a second call changes nothing, and a call that wants nothing
takes all of it back.
-/
import Nfqttl.QosForeign

namespace Nfqttl.Qos

open Effect

/-- Two interfaces never share an ifindex. -/
def Distinct (m : OrdMap String Entry) : Prop :=
  ∀ iface iface' e e', m.find iface = some e → m.find iface' = some e' → e.1 = e'.1 → iface = iface'

/-- Where the wanted qdiscs can go: each wanted interface has no root, a default of the
kernel's or one that a journal names, and nothing below it has a handle. -/
structure Settable (wanted : OrdMap String Entry) (s : Host) : Prop where
  distinct : Distinct wanted
  journals : Distinct s.journals
  roots : ∀ iface e, wanted.find iface = some e → ∀ r ∈ s.kernel.qdiscs, r.index = e.1 → r.parent = root →
    replaceable r = true ∨ Ours s.journals r
  below : ∀ iface e, wanted.find iface = some e → ∀ c ∈ s.kernel.qdiscs, c.index = e.1 → c.parent ≠ root →
    c.isIngress = true ∨ c.handle = 0

variable {wanted : OrdMap String Entry} {s₀ s₁ s : Host} {fails : QosOp → Host → Prop} {faulty : Prop}

/-! ## The first loop -/

/-- The first loop, with the journals `es` still to be looked at: what is wanted and there
stays, with its journal; what was removed is gone. -/
structure Sorting (wanted : OrdMap String Entry) (s₀ : Host) (es : List (String × Entry)) (s : Host) : Prop where
  dropped : Dropped s₀.journals s₀.kernel s.kernel
  among : ∀ iface e, s.journals.find iface = some e → s₀.journals.find iface = some e
  left : ∀ iface e, (iface, e) ∈ es → s.journals.find iface = some e
  stays : ∀ iface e, s₀.journals.find iface = some e → wanted.find iface = some e →
    cake e.1 e.2 ∈ s₀.kernel.qdiscs → s.journals.find iface = some e
  looked : ∀ iface e, s.journals.find iface = some e → (iface, e) ∈ es ∨ wanted.find iface = some e
  there : ∀ iface e, s.journals.find iface = some e → cake e.1 e.2 ∈ s₀.kernel.qdiscs →
    cake e.1 e.2 ∈ s.kernel.qdiscs
  gone : ∀ iface e, s₀.journals.find iface = some e → s.journals.find iface = none →
    cake e.1 e.2 ∉ s.kernel.qdiscs
  acts : ∃ done, s.acts = s₀.acts ++ done ∧ ∀ iface e, s₀.journals.find iface = some e →
    s.journals.find iface = none → cake e.1 e.2 ∈ s₀.kernel.qdiscs → .delete e.1 ∈ done

theorem Sorting.start : Sorting wanted s₀ s₀.journals.entries s₀ where
  dropped := .refl
  among _ _ h := h
  left _ _ h := OrdMap.mem_entries.mp h
  stays _ _ h _ _ := h
  looked _ _ h := .inl (OrdMap.mem_entries.mpr h)
  there _ _ _ h := h
  gone _ _ h hn := absurd (h.symm.trans hn) (by simp)
  acts := ⟨[], by simp, fun _ _ h hn => absurd (h.symm.trans hn) (by simp)⟩

/-- The next journal is wanted and its qdisc there. -/
theorem Sorting.keep {iface : String} {e : Entry} {es : List (String × Entry)}
    (h : Sorting wanted s₀ ((iface, e) :: es) s) (hw : wanted.find iface = some e) : Sorting wanted s₀ es s where
  dropped := h.dropped
  among := h.among
  left iface' e' hin := h.left iface' e' (List.mem_cons_of_mem _ hin)
  stays := h.stays
  looked iface' e' hf := by
    rcases h.looked iface' e' hf with hin | hw'
    · rcases List.mem_cons.mp hin with heq | hin
      · cases heq
        exact .inr hw
      · exact .inl hin
    · exact .inr hw'
  there := h.there
  gone := h.gone
  acts := h.acts

/-- What the removal of a journal, and of its qdisc if that is there, makes of `s`. -/
structure Removed (s₀ : Host) (iface : String) (e : Entry) (s s' : Host) : Prop where
  journals : s'.journals = s.journals.erase iface
  dropped : Dropped s₀.journals s₀.kernel s'.kernel
  others : ∀ q ∈ s.kernel.qdiscs, q.index ≠ e.1 → q ∈ s'.kernel.qdiscs
  old : ∀ q ∈ s'.kernel.qdiscs, q.handle ≠ 0 → q ∈ s.kernel.qdiscs
  gone : cake e.1 e.2 ∉ s'.kernel.qdiscs
  acts : ∃ done, s'.acts = s.acts ++ done ∧ (cake e.1 e.2 ∈ s₀.kernel.qdiscs → .delete e.1 ∈ done)

theorem Sorting.remove {iface : String} {e : Entry} {es : List (String × Entry)} {s' : Host}
    (h : Sorting wanted s₀ ((iface, e) :: es) s) (hd : Distinct s₀.journals)
    (hes : ∀ e', (iface, e') ∉ es) (hnot : ¬ (wanted.find iface = some e ∧ cake e.1 e.2 ∈ s₀.kernel.qdiscs))
    (hr : Removed s₀ iface e s s') : Sorting wanted s₀ es s' := by
  have he : s₀.journals.find iface = some e := h.among iface e (h.left iface e List.mem_cons_self)
  have hfind : ∀ iface', s'.journals.find iface' = if iface' = iface then none else s.journals.find iface' :=
    fun iface' => by rw [hr.journals, OrdMap.find_erase]
  have hne : ∀ {iface' e'}, s'.journals.find iface' = some e' → iface' ≠ iface ∧ s.journals.find iface' = some e' := by
    intro iface' e' hf
    rw [hfind] at hf
    split at hf
    · cases hf
    next hne => exact ⟨hne, hf⟩
  refine ⟨hr.dropped, fun iface' e' hf => h.among iface' e' (hne hf).2, fun iface' e' hin => ?_,
    fun iface' e' hf hw hin => ?_, fun iface' e' hf => ?_, fun iface' e' hf hin => ?_, fun iface' e' hf hn => ?_, ?_⟩
  · have hne' : iface' ≠ iface := fun heq => hes e' (heq ▸ hin)
    rw [hfind, if_neg hne']
    exact h.left iface' e' (List.mem_cons_of_mem _ hin)
  · have hne' : iface' ≠ iface := by
      intro heq
      subst heq
      cases he.symm.trans hf
      exact hnot ⟨hw, hin⟩
    rw [hfind, if_neg hne']
    exact h.stays iface' e' hf hw hin
  · obtain ⟨hne', hf⟩ := hne hf
    rcases h.looked iface' e' hf with hin | hw
    · rcases List.mem_cons.mp hin with heq | hin
      · exact absurd (Prod.mk.inj heq).1 hne'
      · exact .inl hin
    · exact .inr hw
  · obtain ⟨hne', hf⟩ := hne hf
    refine hr.others _ (h.there iface' e' hf hin) fun hi => hne' ?_
    exact hd iface' iface e' e (h.among iface' e' hf) he hi
  · by_cases heq : iface' = iface
    · subst heq
      cases he.symm.trans hf
      exact hr.gone
    · rw [hfind, if_neg heq] at hn
      exact fun hin => h.gone iface' e' hf hn (hr.old _ hin (cake_handle _ _))
  · obtain ⟨done, hacts, hdone⟩ := h.acts
    obtain ⟨more, hmore, hdel⟩ := hr.acts
    refine ⟨done ++ more, by rw [hmore, hacts, List.append_assoc], fun iface' e' hf hn hin => ?_⟩
    rw [List.mem_append]
    by_cases heq : iface' = iface
    · subst heq
      cases he.symm.trans hf
      exact .inr (hdel hin)
    · rw [hfind, if_neg heq] at hn
      exact .inl (hdone iface' e' hf hn hin)

theorem dropStale_sorting {x : String × Entry} {es : List (String × Entry)} {dump : List Qdisc}
    (hfails : ∀ op s, fails op s → blocked op s ∨ faulty) (hd : Distinct s₀.journals) (hsuf : x :: es <:+ s₀.journals.entries)
    (hdump : ∀ q, q ∈ dump ↔ q ∈ s₀.kernel.qdiscs) (h : Sorting wanted s₀ (x :: es) s) :
    KeepsE (backend fails) (fun _ => True) (fun _ s' => Sorting wanted s₀ es s') (fun _ _ => faulty)
      (dropStale wanted dump x) s := by
  obtain ⟨iface, idx, o⟩ := x
  have hleft : s.journals.find iface = some (idx, o) := h.left iface _ List.mem_cons_self
  have hes : ∀ e', (iface, e') ∉ es := by
    have hsorted := s₀.journals.sorted.sublist hsuf.sublist
    exact fun e' hin => lt_irrefl _ ((List.pairwise_cons.mp hsorted).1 (iface, e') hin)
  refine keeps_dropStale trivial (fun hw _ => h.keep hw) (fun hnot s₁ hs₁ => ?_) fun hin hf _ => ?_
  · rw [hdump] at hnot
    have hjs : s₁.journals = s.journals := by rcases hs₁ with ⟨rfl, -⟩ | ⟨-, -, -, rfl⟩ <;> rfl
    have hthere : ¬blocked (.removeFile iface) s₁ := fun hb =>
      absurd (hjs ▸ hb : s.journals.find iface = none) (by simp [hleft])
    refine ⟨trivial, fun hf _ => (hfails _ _ hf).resolve_left hthere, trivial, ?_⟩
    refine h.remove hd hes hnot ?_
    rcases hs₁ with ⟨rfl, hno⟩ | ⟨hin, k', hk, rfl⟩
    · have hno' : cake idx o ∉ s₀.kernel.qdiscs := fun hin => hno ((hdump _).mpr hin)
      exact ⟨rfl, h.dropped, fun q hq _ => hq, fun q hq _ => hq, fun hin => hno' (h.dropped.old hin (cake_handle _ _)),
        [], by simp, fun hin => absurd hin hno'⟩
    · refine ⟨rfl, h.dropped.delete (h.among _ _ hleft) ((hdump _).mp hin) hk, fun q hq hne => ?_,
        fun q hq hh => ?_, fun hin' => hk.gone _ hin' rfl rfl rfl, [.delete idx], rfl, fun _ => by simp⟩
      · exact (hk.kept q hq).resolve_right fun hgone => hne hgone.1
      · exact (hk.new q hq).resolve_right fun hnew => hh hnew.2.1
  · refine (hfails _ _ hf).resolve_left fun hb => ?_
    exact absurd rfl (hb _ (h.there iface _ hleft ((hdump _).mp hin)) rfl rfl)

/-! ## The second loop -/

/-- After the first loop a wanted interface has its qdisc and its journal, or nothing
that stands in the way of them. -/
theorem Sorting.kept_or_plain (h : Sorting wanted s₀ [] s₁) (hs : Settable wanted s₀) {iface : String} {e : Entry}
    (he : wanted.find iface = some e) :
    s₀.journals.find iface = some e ∧ cake e.1 e.2 ∈ s₁.kernel.qdiscs ∨ s₁.kernel.Plain e.1 := by
  refine or_iff_not_imp_left.mpr fun hnot => ⟨fun r hr hi hroot => ?_, fun c hc hi hne => ?_⟩
  · rcases h.dropped.new r hr with hr₀ | ⟨-, hrep, -⟩
    case inr => exact hrep hroot
    rcases hs.roots iface e he r hr₀ hi hroot with hrep | ⟨iface', e', he', rfl⟩
    · exact hrep
    -- A journal names it, and is still there: it is wanted, for this same interface.
    cases hf : s₁.journals.find iface' with
    | none => exact absurd hr (h.gone iface' e' he' hf)
    | some e'' =>
      cases (h.among iface' e'' hf).symm.trans he'
      have hw := (h.looked iface' e' hf).resolve_left List.not_mem_nil
      obtain rfl := hs.distinct iface' iface e' e hw he hi
      cases hw.symm.trans he
      exact absurd ⟨he', hr⟩ hnot
  · rcases h.dropped.new c hc with hc₀ | ⟨hzero, -⟩
    · exact hs.below iface e he c hc₀ hi hne
    · exact .inr hzero

/-- The second loop, with the wanted `es` still to be looked at: what was looked at has its
qdisc and its journal, the interfaces in `es` are as the first loop left them. -/
structure Filling (wanted : OrdMap String Entry) (s₁ : Host) (es : List (String × Entry)) (active : List String)
    (s : Host) : Prop where
  planted : Planted wanted s₁.kernel s.kernel
  among : ∀ iface e, s.journals.find iface = some e → wanted.find iface = some e
  done : ∀ iface e, wanted.find iface = some e → (iface, e) ∈ es ∨
    s.journals.find iface = some e ∧ cake e.1 e.2 ∈ s.kernel.qdiscs
  same : ∀ iface e, (iface, e) ∈ es → s.journals.find iface = s₁.journals.find iface ∧
    ∀ q, q.index = e.1 → (q ∈ s.kernel.qdiscs ↔ q ∈ s₁.kernel.qdiscs)
  names : wanted.keys = active ++ es.map (·.1)
  acts : ∃ done, s.acts = s₁.acts ++ done

theorem Sorting.filling (h : Sorting wanted s₀ [] s₁) : Filling wanted s₁ wanted.entries [] s₁ where
  planted := .refl
  among iface e hf := (h.looked iface e hf).resolve_left List.not_mem_nil
  done _ _ hf := .inl (OrdMap.mem_entries.mpr hf)
  same _ _ _ := ⟨rfl, fun _ _ => Iff.rfl⟩
  names := rfl
  acts := ⟨[], by simp⟩

/-- The next interface has its journal and its qdisc. -/
theorem Filling.keep {iface : String} {e : Entry} {es : List (String × Entry)} {active : List String}
    (h : Filling wanted s₁ ((iface, e) :: es) active s) (hj : s₁.journals.find iface = some e)
    (hin : cake e.1 e.2 ∈ s₁.kernel.qdiscs) : Filling wanted s₁ es (active ++ [iface]) s where
  planted := h.planted
  among := h.among
  done iface' e' hf := by
    rcases h.done iface' e' hf with hin' | hd
    · rcases List.mem_cons.mp hin' with heq | hin'
      · cases heq
        obtain ⟨hjs, hks⟩ := h.same iface e List.mem_cons_self
        exact .inr ⟨hjs.trans hj, (hks _ rfl).mpr hin⟩
      · exact .inl hin'
    · exact .inr hd
  same iface' e' hin' := h.same iface' e' (List.mem_cons_of_mem _ hin')
  names := by rw [h.names, List.append_assoc]; rfl
  acts := h.acts

/-- The next interface gets its journal and its qdisc. -/
theorem Filling.add {iface : String} {e : Entry} {es : List (String × Entry)} {active : List String}
    (h : Filling wanted s₁ ((iface, e) :: es) active s) (hd : Distinct wanted) (he : wanted.find iface = some e)
    (hes : ∀ iface' e', (iface', e') ∈ es → wanted.find iface' = some e' ∧ iface' ≠ iface)
    (hplain : s₁.kernel.Plain e.1) {temps : OrdMap String Entry} {k' : Kernel} (hk : Added e.1 e.2 s.kernel k') :
    Filling wanted s₁ es (active ++ [iface]) (((s.journal iface e).withTemps temps).added e.1 e.2 k') := by
  have hother : ∀ {iface' e'}, wanted.find iface' = some e' → iface' ≠ iface → e'.1 ≠ e.1 :=
    fun hf hne hi => hne (hd _ _ _ _ hf he hi)
  have hstay : ∀ q ∈ s.kernel.qdiscs, q.index ≠ e.1 → q ∈ k'.qdiscs := by
    intro q hq hne
    rcases hk.kept q hq with hq' | ⟨r, -, hri, -, -, rfl | ⟨hqi, -⟩⟩
    exacts [hq', absurd hri hne, absurd hqi hne]
  refine ⟨h.planted.add he hplain hk, fun iface' e' hf => ?_, fun iface' e' hf => ?_, fun iface' e' hin => ?_, ?_, ?_⟩
  · simp only [Host.added_journals, Host.withTemps_journals, Host.journal_journals, OrdMap.find_insert] at hf
    split at hf
    · next heq => exact heq ▸ hf ▸ he
    · exact h.among iface' e' hf
  · simp only [Host.added_journals, Host.withTemps_journals, Host.journal_journals, OrdMap.find_insert,
      Host.added_kernel]
    by_cases heq : iface' = iface
    · subst heq
      cases he.symm.trans hf
      exact .inr ⟨if_pos rfl, hk.here⟩
    rw [if_neg heq]
    rcases h.done iface' e' hf with hin | ⟨hj, hin⟩
    · rcases List.mem_cons.mp hin with heq' | hin
      · exact absurd (Prod.mk.inj heq').1 heq
      · exact .inl hin
    · exact .inr ⟨hj, hstay _ hin (hother hf heq)⟩
  · obtain ⟨hf, hne⟩ := hes iface' e' hin
    obtain ⟨hj, hks⟩ := h.same iface' e' (List.mem_cons_of_mem _ hin)
    refine ⟨?_, fun q hqi => ?_⟩
    · rw [← hj]
      exact OrdMap.find_insert_ne _ _ hne
    · have hqe : q.index ≠ e.1 := hqi ▸ hother hf hne
      rw [← hks q hqi]
      constructor
      · intro hq
        rcases hk.new q hq with rfl | hq'
        · exact absurd rfl hqe
        · exact hq'
      · intro hq
        exact hstay q hq hqe
  · rw [h.names, List.append_assoc]
    rfl
  · obtain ⟨done, hacts⟩ := h.acts
    exact ⟨done ++ [.add e.1 e.2], by simp [hacts]⟩

theorem install_filling {x : String × Entry} {es : List (String × Entry)} {dump : List Qdisc} {active : List String}
    (hfails : ∀ op s, fails op s → blocked op s ∨ faulty) (hd : Distinct wanted) (hs : Settable wanted s₀ ∨ faulty)
    (h₁ : Sorting wanted s₀ [] s₁) (hsuf : x :: es <:+ wanted.entries) (hdump : ∀ q, q ∈ dump ↔ q ∈ s₁.kernel.qdiscs)
    (h : Filling wanted s₁ (x :: es) active s) :
    KeepsE (backend fails) (fun _ => True) (fun active' s' => Filling wanted s₁ es active' s') (fun _ _ => faulty)
      (install s₀.journals dump active x) s := by
  obtain ⟨iface, idx, o⟩ := x
  have he : wanted.find iface = some (idx, o) := OrdMap.mem_entries.mp (hsuf.subset List.mem_cons_self)
  have hes : ∀ iface' e', (iface', e') ∈ es → wanted.find iface' = some e' ∧ iface' ≠ iface := by
    intro iface' e' hin
    have hsorted := wanted.sorted.sublist hsuf.sublist
    refine ⟨OrdMap.mem_entries.mp (hsuf.subset (List.mem_cons_of_mem _ hin)), ?_⟩
    exact ((List.pairwise_cons.mp hsorted).1 (iface', e') hin).ne'
  refine keeps_install (fun _ => trivial) (fun hj hany => ?_) (fun hnot hcus _ => ?_)
    (fun hf _ _ => faulty_of_journalFails hfails hf) fun _ hcus s' temps hs' => ?_
  · have hin := (any_rootOf hdump).mp hany
    exact h.keep (h₁.stays iface _ hj he (h₁.dropped.old hin (cake_handle _ _))) hin
  · refine hs.resolve_left fun hs => ?_
    have hplain := (h₁.kept_or_plain hs he).resolve_left fun hkept =>
      hnot ⟨hkept.1, (any_rootOf hdump).mpr hkept.2⟩
    have hno := (custom_eq_false hdump).mpr hplain
    rw [hno] at hcus
    cases hcus
  · subst hs'
    have hplain : s₁.kernel.Plain idx := (custom_eq_false hdump).mp hcus
    refine ⟨trivial, fun hf _ => (hfails _ _ hf).resolve_left fun hb => ?_,
      fun k' hk => ⟨trivial, fun hf _ => (hfails _ _ hf).resolve_left id, h.add hd he hes hplain hk⟩⟩
    obtain ⟨r, hr, hri, hrr, hrh⟩ := hb
    have hr₁ := ((h.same iface _ List.mem_cons_self).2 r hri).mp hr
    exact absurd (replaceable_handle (hplain.roots r hr₁ hri hrr)) hrh

/-! ## The call -/

/-- Both loops come to their end, if nothing is `faulty`: a request fails that could be met, or a wanted
interface has a root of others. -/
theorem reconcile_filling (hfails : ∀ op s, fails op s → blocked op s ∨ faulty) (hd : Distinct wanted)
    (hj : Distinct s.journals) (hs : Settable wanted s ∨ faulty) :
    KeepsE (backend fails) (fun _ => True)
      (fun a s' => ∃ s₁ active, a = status active ∧ Sorting wanted s [] s₁ ∧ Filling wanted s₁ [] active s')
      (fun _ _ => faulty) (reconcile wanted) s := by
  refine keeps_reconcile
    (P := fun dump es s₁ => (∀ q, q ∈ dump ↔ q ∈ s.kernel.qdiscs) ∧ Sorting wanted s es s₁)
    (T := fun dump es active s₂ => ∃ s₁, (∀ q, q ∈ dump ↔ q ∈ s₁.kernel.qdiscs) ∧ Sorting wanted s [] s₁ ∧
      Filling wanted s₁ es active s₂)
    trivial (fun _ _ _ _ => trivial) (fun _ _ _ _ _ => trivial) (fun hf _ => ?_)
    (fun hj hw => ?_) (fun dump hdump => ⟨hdump, .start⟩) (fun dump x es hsuf s₁ ⟨hdump, h⟩ => ?_)
    (fun _ _ _ hf _ => (hfails _ _ hf).resolve_left id) (fun dump s₁ dump' ⟨_, h⟩ hdump' => ⟨s₁, hdump', h, h.filling⟩)
    (fun dump x es hsuf active s₂ ⟨s₁, hdump, h₁, h₂⟩ => ?_) (fun dump active s₂ ⟨s₁, _, h₁, h₂⟩ => ?_)
  · rcases hf with hf | hf
    · exact (hfails _ _ hf).resolve_left id
    · exact (hfails _ _ hf).resolve_left id
  · have hstart : Sorting wanted s [] s := List.isEmpty_iff.mp hj ▸ Sorting.start
    exact ⟨s, [], rfl, hstart, List.isEmpty_iff.mp hw ▸ hstart.filling⟩
  · exact (dropStale_sorting hfails hj hsuf hdump h).mono (fun _ hi => hi) (fun _ _ _ h' => ⟨hdump, h'⟩)
      fun _ _ _ hf => hf
  · exact (install_filling hfails hd hs h₁ hsuf hdump h₂).mono (fun _ hi => hi) (fun _ _ _ h' => ⟨s₁, hdump, h₁, h'⟩)
      fun _ _ _ hf => hf
  · exact ⟨s₁, active, rfl, h₁, h₂⟩

/-- What a call makes of `s` that ends well. A qdisc that a dropped or changed journal
named was deleted; one like it is there only where it is wanted. -/
structure Converged (wanted : OrdMap String Entry) (s s' : Host) : Prop where
  journals : s'.journals = wanted
  roots : ∀ iface e, wanted.find iface = some e →
    ∀ q, q ∈ s'.kernel.qdiscs ∧ q.index = e.1 ∧ q.parent = root ↔ q = cake e.1 e.2
  dropped : ∃ done, s'.acts = s.acts ++ done ∧ ∀ iface e, s.journals.find iface = some e →
    wanted.find iface ≠ some e → (cake e.1 e.2 ∈ s.kernel.qdiscs → .delete e.1 ∈ done) ∧
      (cake e.1 e.2 ∈ s'.kernel.qdiscs → Ours wanted (cake e.1 e.2))
  kept : ∀ q ∈ s.kernel.qdiscs, q ∈ s'.kernel.qdiscs ∨ Ours s.journals q ∨ Default wanted s.kernel q
  new : ∀ q ∈ s'.kernel.qdiscs, q ∈ s.kernel.qdiscs ∨ Ours wanted q ∨
    q.handle = 0 ∧ (q.parent = root → replaceable q = true) ∧ ∃ iface o, s.journals.find iface = some (q.index, o)

theorem Filling.converged {active : List String} {s' : Host} (h₁ : Sorting wanted s [] s₁)
    (h₂ : Filling wanted s₁ [] active s') : Converged wanted s s' := by
  have hdone : ∀ iface e, wanted.find iface = some e →
      s'.journals.find iface = some e ∧ cake e.1 e.2 ∈ s'.kernel.qdiscs :=
    fun iface e he => (h₂.done iface e he).resolve_left List.not_mem_nil
  have hremoved : ∀ iface e, s.journals.find iface = some e → wanted.find iface ≠ some e →
      s₁.journals.find iface = none := by
    intro iface e he hne
    cases hf : s₁.journals.find iface with
    | none => rfl
    | some e' =>
      cases (h₁.among iface e' hf).symm.trans he
      exact absurd ((h₁.looked iface _ hf).resolve_left List.not_mem_nil) hne
  refine ⟨OrdMap.ext fun iface => Option.ext fun e => ⟨h₂.among iface e, fun he => (hdone iface e he).1⟩,
    fun iface e he q => ⟨fun ⟨hq, hi, hroot⟩ => ?_, fun hq => ?_⟩, ?_, fun q hq => h₁.dropped.planted h₂.planted hq,
    fun q hq => ?_⟩
  · exact s'.kernel.oneRoot q hq _ (hdone iface e he).2 hroot rfl hi
  · subst hq
    exact ⟨(hdone iface e he).2, rfl, rfl⟩
  · obtain ⟨done, hacts, hdel⟩ := h₁.acts
    obtain ⟨more, hmore⟩ := h₂.acts
    refine ⟨done ++ more, by rw [hmore, hacts, List.append_assoc], fun iface e he hne => ?_⟩
    have hnone := hremoved iface e he hne
    constructor
    · intro hin
      exact List.mem_append_left _ (hdel iface e he hnone hin)
    · intro hin
      exact (h₂.planted.new _ hin).resolve_left (h₁.gone iface e he hnone)
  · rcases h₂.planted.new q hq with hq₁ | hours
    case inr => exact .inr (.inl hours)
    rcases h₁.dropped.new q hq₁ with hq₀ | ⟨hzero, hrep, iface, o, hf, -⟩
    · exact .inl hq₀
    · exact .inr (.inr ⟨hzero, hrep, iface, o, hf⟩)

/-- A call that ends well has converged, whatever the requests may do. -/
theorem reconcile_runs (hfails : ∀ op s, fails op s → blocked op s ∨ faulty) (hd : Distinct wanted)
    (hj : Distinct s.journals) (hs : Settable wanted s ∨ faulty) {a : Except IoError String} {s' : Host}
    (hrun : Runs (backend fails) (reconcile wanted).run s a s') :
    a = .ok (status wanted.keys) ∧ Converged wanted s s' ∨ faulty ∧ ∃ e, a = .error e := by
  have h := (reconcile_filling hfails hd hj hs).runs hrun
  cases a with
  | error e => exact .inr ⟨h, e, rfl⟩
  | ok a =>
    obtain ⟨s₁, active, rfl, h₁, h₂⟩ := h
    refine .inl ⟨?_, h₂.converged h₁⟩
    rw [h₂.names, List.map_nil, List.append_nil]

theorem reconcile_converged (hs : Settable wanted s) :
    Ends (backend blocked) (reconcile wanted).run s fun a s' =>
      a = .ok (status wanted.keys) ∧ Converged wanted s s' := by
  refine ⟨⟨_, _, runs_machine _ s⟩, fun a s' hrun => ?_⟩
  have hfails : ∀ op s, blocked op s → blocked op s ∨ False := fun _ _ => .inl
  exact (reconcile_runs hfails hs.distinct hs.journals (.inl hs) hrun).resolve_right fun h => h.1

/-! ## The second call, and the one that takes all back -/

/-- Where every wanted interface has its qdisc and its journal, a call does nothing. -/
theorem reconcile_settled (hj : s.journals = wanted)
    (hin : ∀ iface e, wanted.find iface = some e → cake e.1 e.2 ∈ s.kernel.qdiscs) :
    Ends (backend blocked) (reconcile wanted).run s fun a s' => a = .ok (status wanted.keys) ∧ s' = s := by
  refine ⟨⟨_, _, runs_machine _ s⟩, fun a s' hrun => ?_⟩
  have h : KeepsE (backend blocked) (fun _ => True) (fun a s' => a = status wanted.keys ∧ s' = s) (fun _ _ => False)
      (reconcile wanted) s := by
    refine keeps_reconcile
      (P := fun dump _ s₁ => (∀ q, q ∈ dump ↔ q ∈ s.kernel.qdiscs) ∧ s₁ = s)
      (T := fun dump es active s₂ => (∀ q, q ∈ dump ↔ q ∈ s.kernel.qdiscs) ∧ s₂ = s ∧
        wanted.keys = active ++ es.map (·.1))
      trivial (fun _ _ _ _ => trivial) (fun _ _ _ _ _ => trivial) (fun hb => (hb.elim id id).elim)
      (fun _ hw => ?_) (fun dump hdump => ⟨hdump, rfl⟩) (fun dump x es hsuf s₁ ⟨hdump, h⟩ => ?_)
      (fun _ _ _ hb => hb.elim) (fun dump s₁ dump' ⟨_, h⟩ hdump' => ⟨h ▸ hdump', h, rfl⟩)
      (fun dump x es hsuf active s₂ ⟨hdump, h, hkeys⟩ => ?_) (fun dump active s₂ ⟨_, h, hkeys⟩ => ?_)
    · rw [OrdMap.eq_empty_of_isEmpty hw]
      exact ⟨rfl, rfl⟩
    · obtain ⟨iface, idx, o⟩ := x
      have hw := OrdMap.mem_entries.mp (hsuf.subset List.mem_cons_self)
      rw [hj] at hw
      have hdumped := (hdump _).mpr (hin iface (idx, o) hw)
      exact keeps_dropStale trivial (fun _ _ => ⟨hdump, h⟩) (fun hnot => absurd ⟨hw, hdumped⟩ hnot)
        fun _ hb => absurd rfl (hb _ (h ▸ hin iface _ hw) rfl rfl)
    · obtain ⟨iface, idx, o⟩ := x
      have hw := OrdMap.mem_entries.mp (hsuf.subset List.mem_cons_self)
      have hkept : s.journals.find iface = some (idx, o) ∧ (rootOf dump idx).any (owned · idx o) = true :=
        ⟨hj ▸ hw, (any_rootOf hdump).mpr (hin iface _ hw)⟩
      refine keeps_install (fun _ => trivial) (fun _ _ => ⟨hdump, h, ?_⟩) (fun hnot => absurd hkept hnot)
        (fun hf => absurd hf not_journalFails) fun hnot => absurd hkept hnot
      rw [hkeys, List.append_assoc]
      rfl
    · rw [hkeys, List.map_nil, List.append_nil]
      exact ⟨rfl, h⟩
  have h := h.runs hrun
  cases a with
  | error e => exact h.elim
  | ok a => exact ⟨congrArg _ h.1, h.2⟩

/-- What a call that wants nothing makes of the host on which `wanted` was installed. -/
structure Reverted (wanted : OrdMap String Entry) (s s' : Host) : Prop where
  journals : s'.journals = .empty
  gone : ∀ iface e, wanted.find iface = some e → cake e.1 e.2 ∉ s'.kernel.qdiscs
  kept : ∀ q ∈ s.kernel.qdiscs, q ∈ s'.kernel.qdiscs ∨ Ours wanted q
  new : ∀ q ∈ s'.kernel.qdiscs, q ∈ s.kernel.qdiscs ∨
    q.handle = 0 ∧ (q.parent = root → replaceable q = true) ∧ ∃ iface o, wanted.find iface = some (q.index, o)

theorem reconcile_reverted (hj : s.journals = wanted) (hd : Distinct wanted) :
    Ends (backend blocked) (reconcile .empty).run s fun a s' => a = .ok "disabled" ∧ Reverted wanted s s' := by
  have hs : Settable .empty s :=
    ⟨fun _ _ _ _ h => by simp at h, hj ▸ hd, fun _ _ h => by simp at h, fun _ _ h => by simp at h⟩
  have hnone : ∀ q, ¬ Ours .empty q := fun q ⟨_, _, h, _⟩ => by simp at h
  refine (reconcile_converged hs).mono fun a s' ⟨ha, h⟩ => ⟨ha, h.journals, fun iface e he => ?_, fun q hq => ?_,
    fun q hq => ?_⟩
  · obtain ⟨_, -, hdropped⟩ := h.dropped
    exact fun hin => hnone _ ((hdropped iface e (hj ▸ he) (by simp)).2 hin)
  · rcases h.kept q hq with hq' | hours | hdef
    · exact .inl hq'
    · exact .inr (hj ▸ hours)
    · obtain ⟨_, _, h⟩ := hdef.asked
      simp at h
  · rcases h.new q hq with hq' | hours | hdef
    · exact .inl hq'
    · exact absurd hours (hnone q)
    · exact .inr (hj ▸ hdef)

/-- **`reconcile` converges and is reversible.** When nothing fails it installs what is
wanted, does nothing when called again, and with nothing wanted takes its qdiscs and its
journals back and leaves all others. -/
theorem reconcile_converges (hs : Settable wanted s) :
    Ends (backend blocked) (reconcile wanted).run s fun a s₁ =>
      (a = .ok (status wanted.keys) ∧ Converged wanted s s₁) ∧
      Ends (backend blocked) (reconcile wanted).run s₁ fun a₂ s₂ =>
        (a₂ = a ∧ s₂ = s₁) ∧
        Ends (backend blocked) (reconcile .empty).run s₂ fun a₃ s₃ =>
          a₃ = .ok "disabled" ∧ Reverted wanted s₂ s₃ := by
  refine (reconcile_converged hs).mono fun a s₁ ⟨ha, h₁⟩ => ⟨⟨ha, h₁⟩, ?_⟩
  have hin : ∀ iface e, wanted.find iface = some e → cake e.1 e.2 ∈ s₁.kernel.qdiscs :=
    fun iface e he => ((h₁.roots iface e he _).mpr rfl).1
  refine (reconcile_settled h₁.journals hin).mono fun a₂ s₂ ⟨ha₂, hs₂⟩ => ⟨⟨ha₂.trans ha.symm, hs₂⟩, ?_⟩
  subst hs₂
  exact reconcile_reverted h₁.journals hs.distinct

/-- The interface of a CAKE qdisc renamed from `rmnet_data2`, and its options changed. -/
def renamed : Host :=
  { bare with
    kernel := Kernel.empty.plant 2 (.insert .empty 5 [5, 0, 0, 0])
    journals := .insert .empty "rmnet_data2" (2, .insert .empty 5 [5, 0, 0, 0]) }

theorem reconcile_converges_renamed :
    Ends (backend blocked) (reconcile (.insert .empty "wlan0" (2, .insert .empty 5 [6, 0, 0, 0]))).run renamed
      fun a s₁ => a = .ok "CAKE: wlan0" ∧
        Converged (.insert .empty "wlan0" (2, .insert .empty 5 [6, 0, 0, 0])) renamed s₁ := by
  have hfind : ∀ {iface name : String} {v e : Entry}, (OrdMap.empty.insert name v).find iface = some e →
      iface = name ∧ e = v := by
    intro iface name v e h
    rw [OrdMap.find_insert] at h
    split at h
    · next heq => exact ⟨heq, (Option.some.inj h).symm⟩
    · cases h
  have hs : Settable (.insert .empty "wlan0" (2, .insert .empty 5 [6, 0, 0, 0])) renamed := by
    refine ⟨fun _ _ _ _ h h' _ => (hfind h).1.trans (hfind h').1.symm,
      fun _ _ _ _ h h' _ => (hfind h).1.trans (hfind h').1.symm, fun iface e h r hr _ _ => ?_,
      fun iface e h c hc _ hne => ?_⟩
    · rcases List.mem_cons.mp hr with rfl | hr
      · exact .inr ⟨"rmnet_data2", _, OrdMap.find_insert_self _ _ _, rfl⟩
      · cases hr
    · rcases List.mem_cons.mp hc with rfl | hc
      · exact absurd rfl hne
      · cases hc
  exact (reconcile_converges hs).mono fun _ _ h => ⟨h.1.1.trans (by decide), h.1.2⟩

end Nfqttl.Qos
