/-
`qos.rs`: the attributes options are sent and read in, and the round trip between them.

The reader takes its attributes one after the other and refuses a type it has met
before; the writer writes the entries of a map by increasing type.
-/
import Mathlib.Data.List.Perm.Basic
import Nfqttl.Lib.Netlink
import Nfqttl.Qos

namespace Nfqttl.Qos

open Bytes Netlink

def attr (b : List UInt8) (kind : Nat) (value : List UInt8) : List UInt8 :=
  let b := b ++ toLe 2 (value.length + 4) ++ toLe 2 kind ++ value
  b ++ List.replicate (align4 b.length - b.length) 0

/-- The loop of `attrs`, with the attributes `out` read before `b`. -/
def attrsFrom (out : Options) (b : List UInt8) : Except (Stop IoError) Options :=
  if b.isEmpty then .ok out
  else if b.length < 4 then throw (.err (bad "short netlink attribute"))
  else do
    let n := leNat (← slice b 0 2)
    let k := leNat (← slice b 2 4) &&& typeMask
    if n < 4 ∨ align4 n > b.length then throw (.err (bad "invalid netlink attribute length"))
    else
      let value ← slice b 4 n
      if (out.find k).isSome then throw (.err (bad "duplicate netlink attribute"))
      else attrsFrom (out.insert k value) (b.drop (align4 n))
termination_by b.length
decreasing_by
  rename_i hn _
  have := le_align4 n
  rw [List.length_drop]
  change b.length - align4 n < b.length
  omega

def attrs (b : List UInt8) : Except (Stop IoError) Options := attrsFrom .empty b

/-- `encode` of the entries `es`, after `b`. -/
def encodeFrom (b : List UInt8) (es : List (Nat × List UInt8)) : List UInt8 := es.foldl (fun b e => attr b e.1 e.2) b

def encode (o : Options) : List UInt8 := encodeFrom [] o.entries

/-- The options for a rate of `kbit` and a flow mode. BASE_RATE64 is bytes/second, not bits/second. -/
def options (kbit flow : Nat) : Options :=
  (OrdMap.empty.insert 2 (toLe 8 (kbit * 125))).insertAll
    ([(3, 3), (4, 0), (5, flow), (6, 0), (7, 100000), (8, 5000), (9, 0), (10, 4 <<< 20), (11, 1), (12, 0), (13, 0),
      (14, 0), (15, 0), (16, 0), (17, 1), (18, 0)].map fun (k, v) => (k, toLe 4 v))

/-! ## Writing -/

theorem attr_eq {b : List UInt8} (hb : b.length % 4 = 0) (kind : Nat) (value : List UInt8) :
    attr b kind value = b ++ tlv kind value := by
  have hlen : (b ++ toLe 2 (value.length + 4) ++ toLe 2 kind ++ value).length = b.length + (4 + value.length) := by
    simp only [List.length_append, length_toLe]
    omega
  have hpad : align4 (b.length + (4 + value.length)) - (b.length + (4 + value.length)) =
      align4 (4 + value.length) - (4 + value.length) := by
    unfold align4
    omega
  rw [attr, hlen, hpad, tlv, Nat.add_comm value.length 4]
  simp only [List.append_assoc]

theorem encodeFrom_eq {b : List UInt8} (hb : b.length % 4 = 0) (es : List (Nat × List UInt8)) :
    encodeFrom b es = b ++ tlvs es := by
  induction es generalizing b with
  | nil => simp [encodeFrom, tlvs]
  | cons e es ih =>
    have hlen := length_tlv_mod e.1 e.2
    have hnext : (b ++ tlv e.1 e.2).length % 4 = 0 := by
      rw [List.length_append]
      omega
    have hstep : encodeFrom b (e :: es) = encodeFrom (attr b e.1 e.2) es := rfl
    rw [hstep, attr_eq hb, ih hnext, tlvs_cons, List.append_assoc]

theorem encode_eq (o : Options) : encode o = tlvs o.entries := by
  rw [encode, encodeFrom_eq rfl, List.nil_append]

/-! ## Attributes as they stand -/

/-- An attribute as a message may have it, with flags in its type and anything for its padding. -/
structure RawAttr where
  ty : Nat
  value : List UInt8
  pad : List UInt8
  typed : ty < 65536
  sized : 4 + value.length < 65536
  padded : pad.length = align4 (4 + value.length) - (4 + value.length)

namespace RawAttr

def bytes (x : RawAttr) : List UInt8 := toLe 2 (4 + x.value.length) ++ toLe 2 x.ty ++ x.value ++ x.pad

/-- What is read of it. -/
def entry (x : RawAttr) : Nat × List UInt8 := (x.ty &&& typeMask, x.value)

theorem entry_typed (x : RawAttr) : x.entry.1 ≤ typeMask := Nat.and_le_right

/-- As `attr` writes it. -/
def written (kind : Nat) (value : List UInt8) (hkind : kind ≤ typeMask) (hvalue : 4 + value.length < 65536) :
    RawAttr where
  ty := kind
  value := value
  pad := List.replicate (align4 (4 + value.length) - (4 + value.length)) 0
  typed := Nat.lt_of_le_of_lt hkind (by decide)
  sized := hvalue
  padded := List.length_replicate ..

/-- With the flags cleared and the padding zeroed. -/
def clean (x : RawAttr) : RawAttr := written x.entry.1 x.value x.entry_typed x.sized

@[simp] theorem length_bytes (x : RawAttr) : x.bytes.length = align4 (4 + x.value.length) := by
  have hle := le_align4 (4 + x.value.length)
  simp only [bytes, List.length_append, length_toLe, x.padded]
  omega

/-- The attribute that begins a byte string, when its length says there is one. -/
def first (b : List UInt8) (hlen : 4 ≤ leNat (window b 0 2)) (hb : align4 (leNat (window b 0 2)) ≤ b.length) :
    RawAttr where
  ty := leNat (window b 2 2)
  value := window b 4 (leNat (window b 0 2) - 4)
  pad := window b (leNat (window b 0 2)) (align4 (leNat (window b 0 2)) - leNat (window b 0 2))
  typed := by
    have hlt := leNat_lt (window b 2 2)
    have hle := le_align4 (leNat (window b 0 2))
    rwa [length_window (by omega)] at hlt
  sized := by
    have hlt := leNat_lt (window b 0 2)
    have hle := le_align4 (leNat (window b 0 2))
    rw [length_window (by omega)] at hlt ⊢
    omega
  padded := by
    have hle := le_align4 (leNat (window b 0 2))
    rw [length_window (by omega), length_window (by omega), show 4 + (leNat (window b 0 2) - 4) =
      leNat (window b 0 2) by omega]

/-- It is read from the bytes up to where the reader goes on. -/
theorem bytes_first (b : List UInt8) (hlen : 4 ≤ leNat (window b 0 2))
    (hb : align4 (leNat (window b 0 2)) ≤ b.length) :
    (first b hlen hb).bytes = b.take (align4 (leNat (window b 0 2))) := by
  have hle := le_align4 (leNat (window b 0 2))
  have htwo : ∀ i, i + 2 ≤ b.length → toLe 2 (leNat (window b i 2)) = window b i 2 := by
    intro i hi
    have hread := toLe_leNat (window b i 2)
    rwa [length_window hi] at hread
  have hvalue : 4 + (window b 4 (leNat (window b 0 2) - 4)).length = leNat (window b 0 2) := by
    rw [length_window (by omega)]
    omega
  have htake : ∀ n, b.take n = window b 0 n := fun _ => rfl
  have hall : b.take (align4 (leNat (window b 0 2))) = window b 0 (2 + 2 + (leNat (window b 0 2) - 4) +
      (align4 (leNat (window b 0 2)) - leNat (window b 0 2))) := by
    rw [htake]
    congr 1
    omega
  rw [hall, window_add, window_add, window_add]
  simp only [bytes, first, hvalue, htwo 0 (by omega), htwo 2 (by omega), Nat.zero_add]
  rw [show 2 + 2 + (leNat (window b 0 2) - 4) = leNat (window b 0 2) by omega]

end RawAttr

/-- The bytes of attributes as they stand. -/
def raw (xs : List RawAttr) : List UInt8 := xs.flatMap RawAttr.bytes

theorem raw_cons (x : RawAttr) (xs : List RawAttr) : raw (x :: xs) = x.bytes ++ raw xs := List.flatMap_cons ..

/-! ## Reading back -/

theorem attrsFrom_short (out : Options) {b : List UInt8} (hne : ¬ b.isEmpty) (h : b.length < 4) :
    attrsFrom out b = .error (.err (bad "short netlink attribute")) := by
  rw [attrsFrom, if_neg hne, if_pos h]
  rfl

/-- One round of the reader, which reads nothing out of range. -/
theorem attrsFrom_eq (out : Options) {b : List UInt8} (h : 4 ≤ b.length) : attrsFrom out b =
    if leNat (window b 0 2) < 4 ∨ align4 (leNat (window b 0 2)) > b.length then
      .error (.err (bad "invalid netlink attribute length"))
    else if (out.find (leNat (window b 2 2) &&& typeMask)).isSome then
      .error (.err (bad "duplicate netlink attribute"))
    else attrsFrom (out.insert (leNat (window b 2 2) &&& typeMask) (window b 4 (leNat (window b 0 2) - 4)))
      (b.drop (align4 (leNat (window b 0 2)))) := by
  have hne : b.isEmpty = false := by
    rw [← Bool.not_eq_true, List.isEmpty_iff_length_eq_zero]
    omega
  rw [attrsFrom, hne, if_neg Bool.false_ne_true, if_neg (by omega), slice_window (show 0 + 2 ≤ _ by omega), ok_bind,
    slice_window (show 2 + 2 ≤ _ by omega), ok_bind]
  simp only
  by_cases hn : leNat (window b 0 2) < 4 ∨ align4 (leNat (window b 0 2)) > b.length
  · rw [if_pos hn, if_pos hn]
    rfl
  · have hle := le_align4 (leNat (window b 0 2))
    have hvalue := slice_window (ε := IoError) (b := b) (i := 4) (n := leNat (window b 0 2) - 4) (by omega)
    rw [show 4 + (leNat (window b 0 2) - 4) = leNat (window b 0 2) by omega] at hvalue
    rw [if_neg hn, if_neg hn, hvalue, ok_bind]
    rfl

/-- An attribute is read as it stands, if its type is new. -/
theorem attrsFrom_bytes {out : Options} (x : RawAttr) (hnew : out.find x.entry.1 = none) (rest : List UInt8) :
    attrsFrom out (x.bytes ++ rest) = attrsFrom (out.insert x.entry.1 x.entry.2) rest := by
  have hsized := x.sized
  have htyped := x.typed
  have hle := le_align4 (4 + x.value.length)
  have hlen : (x.bytes ++ rest).length = align4 (4 + x.value.length) + rest.length := by
    rw [List.length_append, x.length_bytes]
  have hsize : window (x.bytes ++ rest) 0 2 = toLe 2 (4 + x.value.length) := by
    rw [RawAttr.bytes, List.append_assoc, List.append_assoc, List.append_assoc, window_prefix _ _ (length_toLe ..)]
  have htype : window (x.bytes ++ rest) 2 2 = toLe 2 x.ty := by
    rw [RawAttr.bytes, List.append_assoc, List.append_assoc, List.append_assoc, window_append_right _ _ (by simp),
      length_toLe, Nat.sub_self, window_prefix _ _ (length_toLe ..)]
  have hval : window (x.bytes ++ rest) 4 x.value.length = x.value := by
    rw [RawAttr.bytes, List.append_assoc, List.append_assoc, window_append_right _ _ (by simp), List.length_append,
      length_toLe, length_toLe, Nat.sub_self, window_prefix _ _ rfl]
  rw [attrsFrom_eq out (by omega), hsize, htype, leNat_toLe (show 4 + x.value.length < 256 ^ 2 by omega),
    leNat_toLe (show x.ty < 256 ^ 2 by omega), if_neg (by omega), show x.ty &&& typeMask = x.entry.1 from rfl, hnew,
    if_neg (by simp), Nat.add_sub_cancel_left, hval, ← x.length_bytes, List.drop_left' rfl]
  rfl

/-- An attribute that was written is read, if its type is new. -/
theorem attrsFrom_tlv {out : Options} {k : Nat} {value : List UInt8} (hk : k ≤ typeMask)
    (hvalue : 4 + value.length < 65536) (hnew : out.find k = none) (rest : List UInt8) :
    attrsFrom out (tlv k value ++ rest) = attrsFrom (out.insert k value) rest := by
  have hmask : k &&& typeMask = k := by
    unfold typeMask at hk ⊢
    rw [Nat.and_two_pow_sub_one_eq_mod k 14, Nat.mod_eq_of_lt (by omega)]
  have hentry : (RawAttr.written k value hk hvalue).entry = (k, value) := Prod.ext hmask rfl
  have hread := attrsFrom_bytes (.written k value hk hvalue) (by rwa [hentry]) rest
  rwa [hentry] at hread

/-- Entries of different types are read back in order. -/
theorem attrsFrom_tlvs {es : List (Nat × List UInt8)} {out : Options}
    (hes : ∀ e ∈ es, e.1 ≤ typeMask ∧ 4 + e.2.length < 65536 ∧ out.find e.1 = none)
    (hnodup : (es.map (·.1)).Nodup) : attrsFrom out (tlvs es) = .ok (out.insertAll es) := by
  induction es generalizing out with
  | nil =>
    rw [tlvs, List.flatMap_nil, attrsFrom]
    rfl
  | cons e es ih =>
    obtain ⟨hk, hvalue, hnew⟩ := hes e (List.mem_cons_self ..)
    obtain ⟨hnot, hnodup⟩ := List.nodup_cons.mp hnodup
    have hrest : ∀ e' ∈ es, e'.1 ≤ typeMask ∧ 4 + e'.2.length < 65536 ∧ (out.insert e.1 e.2).find e'.1 = none := by
      intro e' he'
      obtain ⟨hk', hvalue', hnew'⟩ := hes e' (List.mem_cons_of_mem _ he')
      have hne : e'.1 ≠ e.1 := fun heq => hnot (List.mem_map.mpr ⟨e', he', heq⟩)
      exact ⟨hk', hvalue', by rw [OrdMap.find_insert_ne _ _ hne, hnew']⟩
    rw [tlvs_cons, attrsFrom_tlv hk hvalue hnew, ih hrest hnodup]
    rfl

/-- An entry takes no more room than all of them. -/
theorem attrs_encode {o : Options} (hkeys : ∀ k ∈ o.keys, k < 0x4000)
    (hvalues : ∀ e ∈ o.entries, e.2.length ≤ 65531) : attrs (encode o) = .ok o := by
  have hes : ∀ e ∈ o.entries, e.1 ≤ typeMask ∧ 4 + e.2.length < 65536 ∧
      (OrdMap.empty : Options).find e.1 = none := by
    intro e he
    have hk : e.1 < 0x4000 := hkeys e.1 (List.mem_map.mpr ⟨e, he, rfl⟩)
    have hvalue := hvalues e he
    exact ⟨Nat.le_of_lt_succ hk, by omega, rfl⟩
  rw [encode_eq, attrs, attrsFrom_tlvs hes o.nodup_keys, OrdMap.insertAll_entries]

/-! ## What is accepted -/

/-- The reader never reads out of range; what it accepts is attributes one after the other, of which no two have one
type and none that of an attribute read before, and it answers with their data. -/
theorem attrsFrom_cases (out : Options) (b : List UInt8) : attrsFrom out b ≠ .error .panic ∧
    ∀ o, attrsFrom out b = .ok o → ∃ xs : List RawAttr, b = raw xs ∧ (xs.map fun x => x.entry.1).Nodup ∧
      (∀ x ∈ xs, out.find x.entry.1 = none) ∧ o = out.insertAll (xs.map RawAttr.entry) := by
  induction out, b using attrsFrom.induct with
  | case1 out b h =>
    obtain rfl : b = [] := List.isEmpty_iff.mp h
    rw [attrsFrom, if_pos h]
    refine ⟨by simp, fun o ho => ⟨[], rfl, .nil, by simp, ?_⟩⟩
    cases ho
    rfl
  | case2 out b h hshort =>
    rw [attrsFrom_short out h hshort]
    exact ⟨by simp, by simp⟩
  | case3 out b h hlong ih =>
    rw [attrsFrom_eq out (Nat.le_of_not_lt hlong)]
    split
    · exact ⟨by simp, by simp⟩
    next hsize =>
    split
    · exact ⟨by simp, by simp⟩
    next hnew =>
    obtain ⟨hpanic, hok⟩ := ih (window b 0 2) (window b 2 2) hsize (window b 4 (leNat (window b 0 2) - 4))
    refine ⟨hpanic, fun o ho => ?_⟩
    obtain ⟨xs, hxs, hnodup, hfresh, rfl⟩ := hok o ho
    obtain ⟨hmin, hmax⟩ := not_or.mp hsize
    have hbytes := RawAttr.bytes_first b (by omega) (by omega)
    refine ⟨.first b (by omega) (by omega) :: xs, ?_, ?_, ?_, rfl⟩
    · rw [raw_cons, hbytes, ← hxs, List.take_append_drop]
    · rw [List.map_cons, List.nodup_cons]
      refine ⟨fun hmem => ?_, hnodup⟩
      obtain ⟨x, hx, heq⟩ := List.mem_map.mp hmem
      have hnone := hfresh x hx
      rw [heq] at hnone
      exact absurd ((OrdMap.find_insert_self ..).symm.trans hnone) (by simp)
    · intro x hx
      rcases List.mem_cons.mp hx with rfl | hx
      · exact Option.not_isSome_iff_eq_none.mp hnew
      · have hne : x.entry.1 ≠ leNat (window b 2 2) &&& typeMask := by
          intro heq
          have hnone := hfresh x hx
          rw [heq, OrdMap.find_insert_self] at hnone
          cases hnone
        rw [← hfresh x hx, OrdMap.find_insert_ne _ _ hne]

/-- Attributes of different types are the entries of a map, in some order. -/
theorem entries_insertAll {es : List (Nat × List UInt8)} (h : (es.map (·.1)).Nodup) :
    (OrdMap.empty.insertAll es : Options).entries.Perm es := by
  have hes : es.Nodup := .of_map _ h
  have hentries : (OrdMap.empty.insertAll es : Options).entries.Nodup := .of_map _ (OrdMap.nodup_keys _)
  refine (List.perm_ext_iff_of_nodup hentries hes).mpr ?_
  intro e
  rw [OrdMap.mem_entries (k := e.1) (v := e.2), OrdMap.find_insertAll h]
  simp

/-- Cleaning changes no size. -/
theorem length_raw_clean (xs : List RawAttr) : (raw (xs.map RawAttr.clean)).length = (raw xs).length := by
  rw [raw, raw, List.length_flatMap, List.length_flatMap, List.map_map]
  congr 1
  exact List.map_congr_left fun x _ => by simp [RawAttr.clean, RawAttr.written]

/-- What is written of attributes as they stand is these, cleaned. -/
theorem encode_clean {o : Options} {xs : List RawAttr} (h : o.entries = xs.map RawAttr.entry) :
    encode o = raw (xs.map RawAttr.clean) := by
  rw [encode_eq, h, tlvs, raw, List.flatMap_map, List.flatMap_map]
  rfl

/-- **The options' codec.** A map of types without flags and of values that fit is read back from its encoding. No
byte string makes the reader read out of range; what it accepts is attributes `xs` one after the other, and the
encoding of what it answers is as long, consists of the same attributes in some order, their flags cleared and their
padding zeroed, and is read to the same map. -/
theorem codec_spec :
    (∀ o : Options, (∀ k ∈ o.keys, k < 0x4000) → (∀ e ∈ o.entries, e.2.length ≤ 65531) →
      attrs (encode o) = .ok o) ∧
    ∀ b : List UInt8, attrs b ≠ .error .panic ∧ ∀ o, attrs b = .ok o →
      attrs (encode o) = .ok o ∧ (encode o).length = b.length ∧
        ∃ xs ys : List RawAttr, b = raw xs ∧ ys.Perm xs ∧ encode o = raw (ys.map RawAttr.clean) := by
  refine ⟨fun o hkeys hvalues => attrs_encode hkeys hvalues, ?_⟩
  intro b
  obtain ⟨hpanic, haccepted⟩ := attrsFrom_cases .empty b
  refine ⟨hpanic, ?_⟩
  intro o ho
  obtain ⟨xs, rfl, hnodup, -, rfl⟩ := haccepted o ho
  have hperm : (OrdMap.empty.insertAll (xs.map RawAttr.entry) : Options).entries.Perm (xs.map RawAttr.entry) :=
    entries_insertAll (by rwa [List.map_map])
  obtain ⟨ys, hys, hyx⟩ := (congrFun₂ (List.eq_map_comp_perm RawAttr.entry) _ xs).mpr hperm
  generalize hm : (OrdMap.empty.insertAll (xs.map RawAttr.entry) : Options) = o at hys ho
  have hclean := encode_clean hys
  refine ⟨attrs_encode ?_ ?_, ?_, xs, ys, rfl, hyx, hclean⟩
  · intro k hk
    rw [OrdMap.keys, hys, List.map_map] at hk
    obtain ⟨x, -, rfl⟩ := List.mem_map.mp hk
    exact Nat.lt_succ_of_le x.entry_typed
  · intro e he
    rw [hys] at he
    obtain ⟨x, -, rfl⟩ := List.mem_map.mp he
    have hsized := x.sized
    change x.value.length ≤ 65531
    omega
  · rw [hclean, length_raw_clean]
    exact (hyx.flatMap_right RawAttr.bytes).length_eq

/-- An attribute with a flag and with padding that is not zero, before one of a lower type. -/
def flagged : List RawAttr :=
  [⟨0x8005, [1], [7, 7, 7], by decide, by decide, by decide⟩, ⟨4, [9, 0, 0, 0], [], by decide, by decide, by decide⟩]

theorem codec_spec_flagged : attrs (encode (options 8000 5)) = .ok (options 8000 5) ∧
    ∃ o, attrs (raw flagged) = .ok o ∧ attrs (encode o) = .ok o ∧ (encode o).length = 16 := by
  have hread : attrs (raw flagged) = .ok (OrdMap.empty.insertAll [(5, [1]), (4, [9, 0, 0, 0])]) := by
    rw [attrs, flagged, raw_cons, attrsFrom_bytes _ rfl, raw_cons, attrsFrom_bytes _ (by decide), attrsFrom]
    rfl
  refine ⟨codec_spec.1 _ (by decide) (by decide), _, hread, ?_⟩
  obtain ⟨hagain, hlength, -⟩ := (codec_spec.2 (raw flagged)).2 _ hread
  exact ⟨hagain, hlength.trans (by decide)⟩

end Nfqttl.Qos
