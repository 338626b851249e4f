/-
The message builder of `nfqueue.rs`: what `begin` and any number of `attr` come to, and
that the walk of `verdict` reads it back.
-/
import Nfqttl.Verdict

namespace Nfqttl.Nfqueue

open Bytes Netlink

/-- An attribute to be written: its type and its data. -/
abbrev Item := Nat × List UInt8

/-- `attr` of each of them. -/
def attrAll : List Item → EStateM (Stop IoError) (List UInt8) Unit
  | [] => return ()
  | a :: as => do
    attr a.1 a.2
    attrAll as

/-- `begin`, and `attr` of each of them. -/
def build (ty flags seq : Nat) (queue : UInt16) (as : List Item) : EStateM.Result (Stop IoError) (List UInt8) Unit :=
  attrAll as (beginInto ty flags seq queue)

/-- The bytes of a message with these attributes. -/
def size (as : List Item) : Nat := 20 + (as.map fun a => align4 (4 + a.2.length)).sum

/-- What an attribute may be. -/
def Item.Fits (a : Item) : Prop := a.1 < 0x4000 ∧ a.2.length ≤ 65531

/-- The walk that notes the attribute at each place from `off` on and nothing else. -/
def noteAll : Nat → List Item → Seen → Except (Stop IoError) Seen
  | _, [], a => return a
  | off, e :: es, a => do
    let a ← a.note off e.1 e.2
    noteAll (off + align4 (4 + e.2.length)) es a

/-- A message with the attributes `as`. -/
structure IsBuilt (as : List Item) (v : List UInt8) : Prop where
  /-- The length field is the size. -/
  length : leNat (window v 0 4) = v.length
  aligned : v.length % 4 = 0
  /-- The last attribute ends the message. -/
  ends : v.length = size as
  attrs : attributes v 20 = some (placed 20 as)
  /-- The walk of `verdict` visits them. -/
  walk : ∀ a, readAttrs v 20 a = noteAll 20 as a
  /-- One that is too large is refused. -/
  tooLarge : ∀ ty data, 65531 < data.length →
    attr ty data v = .error (.err (.new .invalidInput "netlink attr too large")) v

variable {v : List UInt8} {as : List Item}

/-! ## Building -/

theorem withLen_withLen (h : 4 ≤ v.length) : withLen (withLen v) = withLen v := by
  have happ := withLen_append h []
  rwa [List.append_nil, List.append_nil] at happ

/-- A message of a multiple of 4 bytes that has its length in front. -/
structure Begun (v : List UInt8) : Prop where
  aligned : align4 v.length = v.length
  long : 4 ≤ v.length
  length : withLen v = v

theorem begun_beginInto (ty flags seq : Nat) (queue : UInt16) : Begun (beginInto ty flags seq queue) := by
  refine ⟨by rw [length_beginInto]; rfl, by rw [length_beginInto]; decide, ?_⟩
  rw [withLen, length_beginInto]
  rfl

theorem Begun.length_append (h : Begun v) (t : List UInt8) : 4 ≤ (v ++ t).length := by
  have hlong := h.long
  rw [List.length_append]
  omega

theorem Begun.attr (h : Begun v) (ty : Nat) {data : List UInt8} (hdata : data.length ≤ 65531) :
    attr ty data v = .ok () (withLen (v ++ tlv ty data)) ∧ Begun (withLen (v ++ tlv ty data)) := by
  have hal := h.aligned
  have hmod := length_tlv_mod ty data
  have hlen := h.length_append (tlv ty data)
  refine ⟨attr_run hal h.long (by omega), ?_, ?_, withLen_withLen hlen⟩
  · rw [length_withLen hlen, List.length_append]
    unfold align4 at hal ⊢
    omega
  · rwa [length_withLen hlen]

/-- Data that is too long is refused, and nothing written. -/
theorem Begun.tooLarge (h : Begun v) (ty : Nat) {data : List UInt8} (hdata : 65531 < data.length) :
    Nfqueue.attr ty data v = .error (.err (.new .invalidInput "netlink attr too large")) v := by
  have hself : padTo v v.length = v := by simp [padTo]
  simp only [Nfqueue.attr, get_bind, modify_bind, h.aligned, hself, if_pos (show 4 + data.length > 65535 by omega)]
  rfl

/-- Each attribute is appended, and the length brought up to date. -/
theorem attrAll_run (h : Begun v) (has : ∀ a ∈ as, Item.Fits a) :
    attrAll as v = .ok () (withLen (v ++ tlvs as)) ∧ Begun (withLen (v ++ tlvs as)) := by
  induction as generalizing v with
  | nil =>
    rw [show tlvs [] = [] from rfl, List.append_nil, h.length]
    exact ⟨rfl, h⟩
  | cons a as ih =>
    obtain ⟨ha, has⟩ := List.forall_mem_cons.mp has
    obtain ⟨hrun, hbegun⟩ := h.attr a.1 ha.2
    have hrest := ih hbegun has
    rw [withLen_append (h.length_append _), List.append_assoc, ← tlvs_cons] at hrest
    rw [attrAll, bind_ok _ hrun]
    exact hrest

theorem length_built (ty flags seq : Nat) (queue : UInt16) (as : List Item) :
    (withLen (beginInto ty flags seq queue ++ tlvs as)).length = size as := by
  have hlen : (beginInto ty flags seq queue ++ tlvs as).length = size as := by
    rw [List.length_append, length_beginInto, length_tlvs, size]
  rw [length_withLen (by rw [hlen, size]; omega), hlen]

/-! ## Reading back -/

theorem noteAll_eq (off : Nat) (as : List Item) (a : Seen) : noteAll off as a = .ok (a.after (placed off as)) := by
  induction as generalizing off a with
  | nil => simp [noteAll, placed, Seen.after, pure, Except.pure]
  | cons e es ih =>
    rw [noteAll, Seen.note_eq, ok_bind, ih]
    exact congrArg Except.ok (Seen.after_cons a _ _).symm

/-- The attributes are read back, whatever the first twenty bytes. -/
theorem attributes_built {h : List UInt8} (hh : h.length = 20) (has : ∀ a ∈ as, Item.Fits a) :
    attributes (h ++ tlvs as) 20 = some (placed 20 as) := by
  have hfit : ∀ a ∈ as, a.1 ≤ typeMask ∧ 4 + a.2.length < 65536 := by
    intro a ha
    obtain ⟨hty, hdata⟩ := has a ha
    exact ⟨Nat.le_of_lt_succ hty, by omega⟩
  have hread := attributes_tlvs hfit h
  rwa [hh] at hread

/-- The length field has 32 bits. -/
theorem length_field_iff (v : List UInt8) : leNat (window (withLen v) 0 4) = v.length ↔ v.length < 2 ^ 32 := by
  rw [withLen, window_prefix _ _ (length_toLe ..)]
  refine ⟨?_, fun h => leNat_toLe h⟩
  intro heq
  have hlt := leNat_lt (toLe 4 v.length)
  rwa [heq, length_toLe] at hlt

/-- Everything holds of the message but perhaps its length field. -/
theorem isBuilt_iff (ty flags seq : Nat) (queue : UInt16) (has : ∀ a ∈ as, Item.Fits a) :
    IsBuilt as (withLen (beginInto ty flags seq queue ++ tlvs as)) ↔ size as < 2 ^ 32 := by
  have hbegun := (attrAll_run (begun_beginInto ty flags seq queue) has).2
  have hlen := length_built ty flags seq queue as
  have h4 := (begun_beginInto ty flags seq queue).length_append (tlvs as)
  have hfield := length_field_iff (beginInto ty flags seq queue ++ tlvs as)
  rw [← length_withLen h4, hlen] at hfield
  refine ⟨fun h => hfield.mp (h.length.trans hlen), ?_⟩
  intro hsize
  have hattrs : attributes (withLen (beginInto ty flags seq queue ++ tlvs as)) 20 = some (placed 20 as) := by
    rw [withLen, List.drop_append_of_le_length (by rw [length_beginInto]; decide), ← List.append_assoc]
    refine attributes_built ?_ has
    simp
  refine ⟨(hfield.mpr hsize).trans hlen.symm, ?_, hlen, hattrs, ?_, ?_⟩
  · have hal := hbegun.aligned
    unfold align4 at hal
    omega
  · intro a
    rw [readAttrs_eq, hattrs, noteAll_eq]
  · intro ty data hdata
    exact hbegun.tooLarge ty hdata

/-- The builder succeeds, and its message has its size for its length, a multiple of 4,
and is read back by the walk as the attributes it was made of, with nothing after them,
exactly if it has less than 4 GiB. -/
theorem build_iff (ty flags seq : Nat) (queue : UInt16) (as : List Item) (has : ∀ a ∈ as, Item.Fits a) :
    ∃ v, build ty flags seq queue as = .ok () v ∧ (IsBuilt as v ↔ size as < 2 ^ 32) :=
  ⟨_, (attrAll_run (begun_beginInto ty flags seq queue) has).1, isBuilt_iff ty flags seq queue has⟩

/-- An attribute whose data is padded, and one that is empty. -/
theorem build_iff_pair : ∃ v, build 1 0 7 6464 [(10, [1, 2, 3]), (13, [])] = .ok () v ∧
    (IsBuilt [(10, [1, 2, 3]), (13, [])] v ↔ size [(10, [1, 2, 3]), (13, [])] < 2 ^ 32) := by
  refine build_iff 1 0 7 6464 _ ?_
  rw [List.forall_mem_cons, List.forall_mem_singleton]
  exact ⟨⟨by decide, by decide⟩, by decide, by decide⟩

/-- One attribute with `m` bytes of zeros, `n` times. -/
def repeated (n m : Nat) : List Item := List.replicate n (10, List.replicate m 0)

theorem fits_repeated (n : Nat) {m : Nat} (h : m ≤ 65531) : ∀ a ∈ repeated n m, Item.Fits a := by
  intro a ha
  rw [repeated, List.mem_replicate] at ha
  have hty : 10 < 0x4000 := by decide
  rw [ha.2, Item.Fits, List.length_replicate]
  exact ⟨hty, h⟩

theorem size_repeated (n m : Nat) : size (repeated n m) = 20 + n * align4 (4 + m) := by
  rw [size, repeated, List.map_replicate, List.sum_replicate_nat, List.length_replicate]

theorem not_isBuilt_repeated {n m : Nat} (hm : m ≤ 65531) (h : 2 ^ 32 ≤ 20 + n * align4 (4 + m)) :
    ¬ ∃ v, build 1 0 0 6464 (repeated n m) = .ok () v ∧ IsBuilt (repeated n m) v := by
  intro hex
  obtain ⟨v, hrun, hv⟩ := hex
  rw [build, (attrAll_run (begun_beginInto 1 0 0 6464) (fits_repeated n hm)).1] at hrun
  cases hrun
  have hsize := (isBuilt_iff 1 0 0 6464 (fits_repeated n hm)).mp hv
  rw [size_repeated] at hsize
  omega

/-- With the longest attribute often enough, the length wraps around. -/
theorem build_wraps : (∀ a ∈ repeated 65536 65531, Item.Fits a) ∧
    ¬ ∃ v, build 1 0 0 6464 (repeated 65536 65531) = .ok () v ∧ IsBuilt (repeated 65536 65531) v := by
  have hm : 65531 ≤ 65531 := Nat.le_refl _
  exact ⟨fits_repeated 65536 hm, not_isBuilt_repeated hm (by decide)⟩

end Nfqttl.Nfqueue
