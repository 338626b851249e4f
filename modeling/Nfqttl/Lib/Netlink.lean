/-
The netlink format: attributes one after the other, and frames in a datagram.

`attributes` is what the bytes of a message mean, with every ill-sized attribute
an error; `tlv` writes one attribute. `Packed` says that a datagram is a sequence
of frames, each aligned to 4 bytes but the last.
-/
import Mathlib.Data.List.Pairwise
import Nfqttl.Lib.Bytes

namespace Netlink

open Bytes

/-- `n` rounded up to a multiple of 4. -/
def align4 (n : Nat) : Nat := (n + 3) / 4 * 4

theorem le_align4 (n : Nat) : n ≤ align4 n := by
  unfold align4
  omega

theorem align4_lt (n : Nat) : align4 n < n + 4 := by
  unfold align4
  omega

/-! ## Attributes -/

/-- An attribute: where its data begins, its type without the flags, its data. -/
structure Attr where
  pos : Nat
  ty : Nat
  data : List UInt8
  deriving DecidableEq, Repr

/-- The flags an attribute's type is read without. -/
def typeMask : Nat := 0x3fff

/-- The attributes of `b` from `off` on; `none` when one is ill-sized. -/
def attributes (b : List UInt8) (off : Nat) : Option (List Attr) :=
  if off + 4 ≤ b.length then
    let len := leNat (window b off 2)
    if 4 ≤ len ∧ off + len ≤ b.length then
      (attributes b (off + align4 len)).map
        (⟨off + 4, leNat (window b (off + 2) 2) &&& typeMask, window b (off + 4) (len - 4)⟩ :: ·)
    else none
  else some []
termination_by b.length - off
decreasing_by
  have := le_align4 (leNat (window b off 2))
  omega

/-- The last attribute that `p` holds of. -/
def lastOf (p : Attr → Bool) (as : List Attr) : Option Attr := as.reverse.find? p

@[simp] theorem lastOf_nil (p : Attr → Bool) : lastOf p [] = none := rfl

theorem lastOf_cons (p : Attr → Bool) (x : Attr) (as : List Attr) :
    lastOf p (x :: as) = (lastOf p as).or (if p x then some x else none) := by
  rw [lastOf, List.reverse_cons, List.find?_append, lastOf, List.find?_singleton]

theorem lastOf_some {p : Attr → Bool} {x : Attr} {as : List Attr} (h : lastOf p as = some x) :
    p x = true ∧ x ∈ as :=
  ⟨List.find?_some h, List.mem_reverse.mp (List.mem_of_find?_eq_some h)⟩

/-- What is read of an attribute lies within the message, and its size in 16 bits. -/
theorem attributes_mem {b : List UInt8} {off : Nat} {as : List Attr} (h : attributes b off = some as) {x : Attr}
    (hx : x ∈ as) : x.pos + x.data.length ≤ b.length ∧ window b x.pos x.data.length = x.data ∧
      4 + x.data.length < 65536 := by
  fun_induction attributes b off generalizing as with
  | case1 off hoff len hlen =>
    rename_i ih
    obtain ⟨as', has', rfl⟩ := Option.map_eq_some_iff.mp h
    rcases List.mem_cons.mp hx with rfl | hx
    · have hdata : (window b (off + 4) (len - 4)).length = len - 4 := length_window (by omega)
      have hlt := leNat_lt (window b off 2)
      rw [length_window (by omega)] at hlt
      simp only [hdata, true_and]
      omega
    · exact ih has' hx
  | case2 => cases h
  | case3 =>
    cases h
    cases hx

theorem attributes_end (b : List UInt8) : attributes b b.length = some [] := by
  rw [attributes, if_neg (by omega)]

/-- The attributes stand one after the other, each behind a header of 4 bytes. -/
theorem attributes_pairwise {b : List UInt8} {off : Nat} {as : List Attr} (h : attributes b off = some as) :
    (∀ x ∈ as, off + 4 ≤ x.pos) ∧ as.Pairwise fun x y => x.pos + x.data.length + 4 ≤ y.pos := by
  fun_induction attributes b off generalizing as with
  | case1 off hoff len hlen =>
    rename_i ih
    obtain ⟨as', has', rfl⟩ := Option.map_eq_some_iff.mp h
    obtain ⟨hpos, hpair⟩ := ih has'
    have hle := le_align4 len
    have hdata : (window b (off + 4) (len - 4)).length = len - 4 := length_window (by omega)
    refine ⟨fun x hx => ?_, List.pairwise_cons.mpr ⟨fun y hy => ?_, hpair⟩⟩
    · rcases List.mem_cons.mp hx with rfl | hx
      · exact le_refl _
      · have := hpos x hx
        omega
    · have := hpos y hy
      simp only [hdata]
      omega
  | case2 => cases h
  | case3 =>
    cases h
    exact ⟨by simp, .nil⟩

/-- Two attributes of a message do not overlap. -/
theorem attributes_apart {b : List UInt8} {off : Nat} {as : List Attr} (h : attributes b off = some as) {x y : Attr}
    (hx : x ∈ as) (hy : y ∈ as) :
    x = y ∨ x.pos + x.data.length + 4 ≤ y.pos ∨ y.pos + y.data.length + 4 ≤ x.pos := by
  let Apart : Attr → Attr → Prop := fun x y =>
    x = y ∨ x.pos + x.data.length + 4 ≤ y.pos ∨ y.pos + y.data.length + 4 ≤ x.pos
  have hsymm : Std.Symm Apart := ⟨fun _ _ h => h.imp Eq.symm Or.symm⟩
  have hpair : as.Pairwise Apart := (attributes_pairwise h).2.imp fun h => .inr (.inl h)
  exact hpair.forall_of_forall (fun _ _ => .inl rfl) hx hy

/-- The attribute at the same place of another message. -/
def Attr.reread (b : List UInt8) (x : Attr) : Attr := { x with data := window b x.pos x.data.length }

/-- A message with the same attribute headers has the same attributes, but for their data. -/
theorem attributes_reread {b b' : List UInt8} (hlen : b'.length = b.length) {off : Nat} {as : List Attr}
    (h : attributes b off = some as)
    (hhdr : ∀ x ∈ as, ∀ i, x.pos ≤ i + 4 → i < x.pos → b'[i]? = b[i]?) :
    attributes b' off = some (as.map (Attr.reread b')) := by
  fun_induction attributes b off generalizing as with
  | case1 off hoff len hsize =>
    rename_i ih
    obtain ⟨as', has', rfl⟩ := Option.map_eq_some_iff.mp h
    have hdata : (window b (off + 4) (len - 4)).length = len - 4 := length_window (by omega)
    have hhead : ∀ i, off ≤ i → i < off + 4 → b'[i]? = b[i]? := fun i hi hi' =>
      hhdr _ (List.mem_cons_self ..) i (Nat.add_le_add_right hi 4) hi'
    have hwin : ∀ i, off ≤ i → i + 2 ≤ off + 4 → window b' i 2 = window b i 2 := by
      intro i hi hi'
      have hfirst := hhead i hi (by omega)
      have hsecond := hhead (i + 1) (by omega) (by omega)
      rw [List.getElem?_eq_getElem (by omega), List.getElem?_eq_getElem (by omega), Option.some.injEq]
        at hfirst hsecond
      rw [window_two (by omega), window_two (by omega), hfirst, hsecond]
    have hlen' : leNat (window b' off 2) = len := congrArg leNat (hwin off (by omega) (by omega))
    rw [attributes, if_pos (by omega)]
    simp only [hlen', hwin (off + 2) (by omega) (by omega)]
    rw [if_pos (by omega), ih has' fun x hx => hhdr x (List.mem_cons_of_mem _ hx), Option.map_some, List.map_cons,
      Attr.reread, hdata]
  | case2 => cases h
  | case3 off hoff =>
    cases h
    rw [attributes, if_neg (by omega)]
    rfl

theorem lastOf_map {p : Attr → Bool} {f : Attr → Attr} (hf : ∀ x, p (f x) = p x) (as : List Attr) :
    lastOf p (as.map f) = (lastOf p as).map f := by
  induction as with
  | nil => rfl
  | cons x as ih =>
    rw [List.map_cons, lastOf_cons, lastOf_cons, ih, hf]
    cases lastOf p as <;> cases p x <;> rfl

/-- One attribute as it is written, padded to 4 bytes. -/
def tlv (ty : Nat) (data : List UInt8) : List UInt8 :=
  toLe 2 (4 + data.length) ++ toLe 2 ty ++ data ++ List.replicate (align4 (4 + data.length) - (4 + data.length)) 0

@[simp] theorem length_tlv (ty : Nat) (data : List UInt8) : (tlv ty data).length = align4 (4 + data.length) := by
  have := le_align4 (4 + data.length)
  simp only [tlv, List.length_append, length_toLe, List.length_replicate]
  omega

/-- A written attribute is read back, wherever it stands. -/
theorem attributes_tlv (ty : Nat) (data : List UInt8) (hty : ty ≤ typeMask) (hdata : 4 + data.length < 65536)
    (a b : List UInt8) : attributes (a ++ (tlv ty data ++ b)) a.length =
      (attributes (a ++ (tlv ty data ++ b)) (a.length + align4 (4 + data.length))).map
        (⟨a.length + 4, ty, data⟩ :: ·) := by
  have hlen : (a ++ (tlv ty data ++ b)).length = a.length + (align4 (4 + data.length) + b.length) := by simp
  have hle := le_align4 (4 + data.length)
  -- The parts of the attribute are read where they were written.
  have hread : ∀ i n, i + n ≤ align4 (4 + data.length) →
      window (a ++ (tlv ty data ++ b)) (a.length + i) n = window (tlv ty data) i n := by
    intro i n hi
    rw [window_append_right _ _ (Nat.le_add_right ..), Nat.add_sub_cancel_left,
      window_append_left _ (by simpa using hi)]
  have hsize : window (a ++ (tlv ty data ++ b)) a.length 2 = toLe 2 (4 + data.length) := by
    rw [← Nat.add_zero a.length, hread 0 2 (by omega), tlv, List.append_assoc, List.append_assoc,
      window_prefix _ _ (length_toLe ..)]
  have htype : window (a ++ (tlv ty data ++ b)) (a.length + 2) 2 = toLe 2 ty := by
    rw [hread 2 2 (by omega), tlv, List.append_assoc, List.append_assoc,
      window_append_right _ _ (by simp), length_toLe, Nat.sub_self, window_prefix _ _ (length_toLe ..)]
  have hval : window (a ++ (tlv ty data ++ b)) (a.length + 4) data.length = data := by
    rw [hread 4 _ (by omega), tlv, List.append_assoc, window_append_right _ _ (by simp), List.length_append,
      length_toLe, length_toLe, Nat.sub_self, window_prefix _ _ rfl]
  have hmask : ty &&& typeMask = ty := by
    unfold typeMask at hty ⊢
    rw [Nat.and_two_pow_sub_one_eq_mod ty 14, Nat.mod_eq_of_lt (by omega)]
  rw [attributes, if_pos (by omega)]
  simp only [hsize, htype, leNat_toLe (show 4 + data.length < 256 ^ 2 by omega),
    leNat_toLe (show ty < 256 ^ 2 by unfold typeMask at hty; omega), hmask, Nat.add_sub_cancel_left, hval]
  rw [if_pos ⟨by omega, by omega⟩]

theorem length_tlv_mod (ty : Nat) (data : List UInt8) : (tlv ty data).length % 4 = 0 := by
  rw [length_tlv]
  exact Nat.mul_mod_left ..

/-! ### Several attributes -/

/-- Attributes as they are written one after the other. -/
def tlvs (es : List (Nat × List UInt8)) : List UInt8 := es.flatMap fun e => tlv e.1 e.2

theorem tlvs_cons (e : Nat × List UInt8) (es : List (Nat × List UInt8)) :
    tlvs (e :: es) = tlv e.1 e.2 ++ tlvs es := List.flatMap_cons ..

theorem length_tlvs (es : List (Nat × List UInt8)) :
    (tlvs es).length = (es.map fun e => align4 (4 + e.2.length)).sum := by
  simp only [tlvs, List.length_flatMap, length_tlv]

theorem length_tlvs_mod (es : List (Nat × List UInt8)) : (tlvs es).length % 4 = 0 := by
  induction es with
  | nil => rfl
  | cons e es ih =>
    have := length_tlv_mod e.1 e.2
    rw [tlvs_cons, List.length_append]
    omega

theorem length_le_tlvs {es : List (Nat × List UInt8)} {e : Nat × List UInt8} (he : e ∈ es) :
    4 + e.2.length ≤ (tlvs es).length := by
  obtain ⟨l₁, l₂, rfl⟩ := List.append_of_mem he
  have := le_align4 (4 + e.2.length)
  simp only [tlvs, List.flatMap_append, List.flatMap_cons, List.length_append, length_tlv]
  omega

/-- Where they stand from `off` on. -/
def placed : Nat → List (Nat × List UInt8) → List Attr
  | _, [] => []
  | off, e :: es => ⟨off + 4, e.1, e.2⟩ :: placed (off + align4 (4 + e.2.length)) es

/-- They are read back behind any bytes. -/
theorem attributes_tlvs {es : List (Nat × List UInt8)} (hes : ∀ e ∈ es, e.1 ≤ typeMask ∧ 4 + e.2.length < 65536)
    (b : List UInt8) : attributes (b ++ tlvs es) b.length = some (placed b.length es) := by
  induction es generalizing b with
  | nil =>
    rw [show tlvs [] = [] from rfl, List.append_nil, attributes_end]
    rfl
  | cons e es ih =>
    obtain ⟨he, hes⟩ := List.forall_mem_cons.mp hes
    have hrest := ih hes (b ++ tlv e.1 e.2)
    rw [List.length_append, length_tlv, List.append_assoc] at hrest
    rw [tlvs_cons, attributes_tlv e.1 e.2 he.1 he.2, hrest]
    rfl

/-! ## Frames -/

/-- A netlink frame: a header of 16 bytes that begins with the frame's length. -/
def IsFrame (f : List UInt8) : Prop := 16 ≤ f.length ∧ leNat (window f 0 4) = f.length

/-- The bytes are the frames in order, each padded to 4 bytes, the last one perhaps not. -/
inductive Packed : List (List UInt8) → List UInt8 → Prop
  | nil : Packed [] []
  | last {f pad : List UInt8} (hf : IsFrame f) (hpad : pad.length ≤ align4 f.length - f.length) :
    Packed [f] (f ++ pad)
  | cons {f pad b : List UInt8} {fs : List (List UInt8)} (hf : IsFrame f)
    (hpad : pad.length = align4 f.length - f.length) (hb : Packed fs b) : Packed (f :: fs) (f ++ pad ++ b)

end Netlink
