/-
`qos.rs`: the request that adds a CAKE qdisc, and the reader of a qdisc in a dump.

Ownership, and with it deletion, rests on equality after the round trip: what is
read back of a request of the module's own is `owned` for its ifindex and options
and for no other.
-/
import Nfqttl.QosTlv

namespace Nfqttl.Qos

open Bytes Netlink

def SEQ : Nat := 1

/-- `strip_suffix(&[0])`, or the whole when there is nothing to strip. -/
def stripNul (b : List UInt8) : List UInt8 := if b.getLast? = some 0 then b.dropLast else b

/-- `decode_qdisc`, on a message without its header. -/
def decodeQdisc (b : List UInt8) : Except (Stop IoError) (Option Qdisc) :=
  if b.length < 20 then throw (.err (bad "short tcmsg"))
  else do
    let a ← attrs (b.drop 20)
    let kind ← match a.find 1 with
      | some kind => pure kind
      | none => throw (.err (bad "qdisc kind missing"))
    let kind ← match String.fromUTF8? ⟨(stripNul kind).toArray⟩ with
      | some kind => pure kind
      | none => throw (.err (bad "invalid qdisc kind"))
    let o ← if kind = "cake" then
        match a.find 2 with
        | some o => attrs o
        | none => throw (.err (bad "CAKE options missing"))
      else pure .empty
    -- TCA_CAKE_PAD may be inserted at any alignment.
    let o := o.erase 1
    let index ← slice b 4 8
    let parent ← slice b 12 16
    let handle ← slice b 8 12
    return some ⟨leNat index, leNat parent, leNat handle, kind, o⟩

/-- `b"cake\0"` -/
def cakeNul : List UInt8 := [99, 97, 107, 101, 0]

/-- `message`, with the options already encoded. -/
def messageWith (ty flags index handle : Nat) (encoded : Option (List UInt8)) : List UInt8 :=
  let b := List.replicate 36 0
  let b := splice b 4 (toLe 2 ty)
  let b := splice b 6 (toLe 2 flags)
  let b := splice b 8 (toLe 4 SEQ)
  let b := splice b 20 (toLe 4 index)
  let b := splice b 24 (toLe 4 handle)
  let b := if ty ≠ 38 then splice b 28 (toLe 4 root) else b
  let b := match encoded with
    | some value => attr (attr b 1 cakeNul) 2 value
    | none => b
  splice b 0 (toLe 4 b.length)

def message (ty flags index handle : Nat) (o : Option Options) : List UInt8 :=
  messageWith ty flags index handle (o.map encode)

/-! ## The bytes of a request -/

/-- The `nlmsghdr` after its length. -/
def header (ty flags : Nat) : List UInt8 := toLe 2 ty ++ toLe 2 flags ++ toLe 4 SEQ ++ toLe 4 0

/-- The `tcmsg` of a request. -/
def tcmsg (index handle parent : Nat) : List UInt8 :=
  toLe 4 0 ++ toLe 4 index ++ toLe 4 handle ++ toLe 4 parent ++ toLe 4 0

theorem attr_attr {b : List UInt8} (hb : b.length % 4 = 0) (kind value : List UInt8) :
    attr (attr b 1 kind) 2 value = b ++ tlvs [(1, kind), (2, value)] :=
  encodeFrom_eq hb [(1, kind), (2, value)]

/-- The headers of a request, before their length is filled in. -/
theorem headers_eq (ty flags index handle : Nat) :
    splice (splice (splice (splice (splice (splice (List.replicate 36 0) 4 (toLe 2 ty)) 6 (toLe 2 flags)) 8
      (toLe 4 SEQ)) 20 (toLe 4 index)) 24 (toLe 4 handle)) 28 (toLe 4 root) =
      toLe 4 0 ++ header ty flags ++ tcmsg index handle root := by
  simp [splice, toLe, header, tcmsg]

theorem messageWith_some {ty : Nat} (hty : ty ≠ 38) (flags index handle : Nat) (value : List UInt8) :
    messageWith ty flags index handle (some value) =
      toLe 4 (36 + (tlvs [(1, cakeNul), (2, value)]).length) ++ header ty flags ++
        (tcmsg index handle root ++ tlvs [(1, cakeNul), (2, value)]) := by
  have hlen : (toLe 4 0 ++ header ty flags ++ tcmsg index handle root).length = 36 := by simp [header, tcmsg]
  rw [messageWith, if_pos hty, headers_eq, attr_attr (by rw [hlen]), splice_zero, List.length_append, hlen,
    length_toLe, List.append_assoc, List.append_assoc, List.drop_left' (length_toLe 4 0)]
  simp only [List.append_assoc]

theorem length_messageWith {ty : Nat} (hty : ty ≠ 38) (flags index handle : Nat) (value : List UInt8) :
    (messageWith ty flags index handle (some value)).length = 36 + (tlvs [(1, cakeNul), (2, value)]).length := by
  rw [messageWith_some hty]
  simp only [header, tcmsg, List.length_append, length_toLe]
  omega

/-! ## Reading a request back -/

/-- The entries of `o`, with at most one PAD attribute among them. -/
def Padded (o : Options) (es : List (Nat × List UInt8)) : Prop :=
  es = o.entries ∨ ∃ l₁ l₂ pad, o.entries = l₁ ++ l₂ ∧ es = l₁ ++ (1, pad) :: l₂

/-- The types of a CAKE option that is neither the PAD nor past the bits a type has. -/
def Options.Typed (o : Options) : Prop := ∀ k ∈ o.keys, 2 ≤ k ∧ k ≤ typeMask

variable {o : Options} {es : List (Nat × List UInt8)}

theorem Padded.mem (h : Padded o es) {k : Nat} {v : List UInt8} :
    (k ≠ 1 → ((k, v) ∈ es ↔ (k, v) ∈ o.entries)) ∧ ((k, v) ∈ es → k = 1 ∨ (k, v) ∈ o.entries) := by
  rcases h with rfl | ⟨l₁, l₂, pad, ho, rfl⟩
  · exact ⟨fun _ => .rfl, .inr⟩
  · simp only [ho, List.mem_append, List.mem_cons, Prod.mk.injEq]
    constructor
    · intro hk
      simp [hk]
    · rintro (h | ⟨rfl, -⟩ | h)
      exacts [.inr (.inl h), .inl rfl, .inr (.inr h)]

theorem Padded.nodup (h : Padded o es) (ho : o.Typed) : (es.map (·.1)).Nodup := by
  have hnodup := o.nodup_keys
  rcases h with rfl | ⟨l₁, l₂, pad, heq, rfl⟩
  · exact hnodup
  have hone : 1 ∉ (l₁ ++ l₂).map (·.1) := fun h => by
    have := (ho 1 (by rwa [OrdMap.keys, heq])).1
    omega
  rw [heq] at hnodup
  simp only [List.map_append, List.map_cons] at hnodup hone ⊢
  exact List.nodup_middle.mpr (List.nodup_cons.mpr ⟨hone, hnodup⟩)

/-- The options without the PAD are what was written. -/
theorem Padded.erase (h : Padded o es) (ho : o.Typed) : (OrdMap.empty.insertAll es).erase 1 = o := by
  apply OrdMap.ext
  intro k
  rw [OrdMap.find_erase]
  split
  · next hk =>
    subst hk
    cases hfind : o.find 1 with
    | none => rfl
    | some v =>
      have := (ho 1 (List.mem_map.mpr ⟨_, OrdMap.mem_entries.mpr hfind, rfl⟩)).1
      omega
  · next hk =>
    apply Option.ext
    intro v
    rw [OrdMap.find_insertAll (h.nodup ho), h.mem.1 hk, OrdMap.mem_entries, OrdMap.find_empty]
    simp

theorem attrs_padded (h : Padded o es) (ho : o.Typed) (hfit : (tlvs es).length + 4 < 65536) :
    attrs (tlvs es) = .ok (OrdMap.empty.insertAll es) := by
  refine attrsFrom_tlvs (fun e he => ?_) (h.nodup ho)
  have hlen := length_le_tlvs he
  refine ⟨?_, by omega, rfl⟩
  rcases h.mem.2 he with hk | hin
  · rw [hk]
    decide
  · exact (ho _ (List.mem_map.mpr ⟨e, hin, rfl⟩)).2

/-- The reader of a qdisc on what follows the header of a request. -/
theorem decodeQdisc_request (h : Padded o es) (ho : o.Typed) (hfit : (tlvs es).length + 4 < 65536) {index : Nat}
    (hindex : index < 2 ^ 32) :
    decodeQdisc (tcmsg index handle root ++ tlvs [(1, cakeNul), (2, tlvs es)]) = .ok (some (cake index o)) := by
  have hlen : (tcmsg index handle root).length = 20 := by simp [tcmsg]
  have hrest : attrs (tlvs [(1, cakeNul), (2, tlvs es)]) =
      .ok (OrdMap.empty.insertAll [(1, cakeNul), (2, tlvs es)]) := by
    refine attrsFrom_tlvs (fun e he => ?_) (by simp)
    simp only [List.mem_cons, List.not_mem_nil, or_false] at he
    rcases he with rfl | rfl
    · exact ⟨by decide, by decide, rfl⟩
    · exact ⟨(by decide : 2 ≤ typeMask), by simpa [Nat.add_comm] using hfit, rfl⟩
  have hkind : (OrdMap.empty.insertAll [(1, cakeNul), (2, tlvs es)]).find 1 = some cakeNul := by
    simp [OrdMap.insertAll, OrdMap.find_insert]
  have hopts : (OrdMap.empty.insertAll [(1, cakeNul), (2, tlvs es)]).find 2 = some (tlvs es) := by
    simp [OrdMap.insertAll]
  have hutf : String.fromUTF8? ⟨(stripNul cakeNul).toArray⟩ = some "cake" := rfl
  have hindex' : window (tcmsg index handle root ++ tlvs [(1, cakeNul), (2, tlvs es)]) 4 4 = toLe 4 index := by
    rw [window_append_left _ (by omega)]
    simp [tcmsg, window, toLe]
  have hhandle : window (tcmsg index handle root ++ tlvs [(1, cakeNul), (2, tlvs es)]) 8 4 = toLe 4 handle := by
    rw [window_append_left _ (by omega)]
    simp [tcmsg, window, toLe]
  have hparent : window (tcmsg index handle root ++ tlvs [(1, cakeNul), (2, tlvs es)]) 12 4 = toLe 4 root := by
    rw [window_append_left _ (by omega)]
    simp [tcmsg, window, toLe]
  have hshort : ¬ (tcmsg index handle root ++ tlvs [(1, cakeNul), (2, tlvs es)]).length < 20 := by
    rw [List.length_append, hlen]
    omega
  rw [decodeQdisc, if_neg hshort, List.drop_left' hlen, hrest, ok_bind, hkind]
  simp only [pure_bind, hutf, if_true, hopts, attrs_padded h ho hfit, ok_bind, h.erase ho]
  rw [slice_window (show 4 + 4 ≤ _ by omega), slice_window (show 12 + 4 ≤ _ by omega),
    slice_window (show 8 + 4 ≤ _ by omega), hindex', hparent, hhandle]
  simp only [ok_bind, leNat_toLe (show index < 256 ^ 4 by omega), leNat_toLe (show root < 256 ^ 4 by decide),
    leNat_toLe (show handle < 256 ^ 4 by decide)]
  rfl

/-- A request is recognised as the module's, for its ifindex and options and for no other;
its length field is its size. -/
structure Recognised (b : List UInt8) (index : Nat) (o : Options) : Prop where
  decoded : ∃ q, decodeQdisc (b.drop 16) = .ok (some q) ∧ owned q index o = true ∧
    ∀ index' o', (index', o') ≠ (index, o) → owned q index' o' = false
  length : leNat (window b 0 4) = b.length
  aligned : b.length % 4 = 0

theorem recognised_request (h : Padded o es) (ho : o.Typed) (hfit : (tlvs es).length + 4 < 65536) (flags : Nat)
    {index : Nat} (hindex : index < 2 ^ 32) :
    Recognised (messageWith 36 flags index handle (some (tlvs es))) index o := by
  have hbytes := messageWith_some (show 36 ≠ 38 by decide) flags index handle (tlvs es)
  have hlen := length_messageWith (show 36 ≠ 38 by decide) flags index handle (tlvs es)
  have hhead : ∀ n, (toLe 4 n ++ header 36 flags).length = 16 := by simp [header]
  have hsize : (tlvs [(1, cakeNul), (2, tlvs es)]).length < 65536 + 12 := by
    have hkind : (tlv 1 cakeNul).length = 12 := rfl
    have hopts := align4_lt (4 + (tlvs es).length)
    have := length_tlvs_mod es
    rw [tlvs_cons, tlvs_cons, List.length_append, List.length_append, hkind, length_tlv]
    simp only [tlvs, List.flatMap_nil, List.length_nil] at *
    unfold align4
    omega
  constructor
  · refine ⟨cake index o, ?_, owned_iff.mpr rfl, ?_⟩
    · rw [hbytes, List.drop_left' (hhead _), decodeQdisc_request h ho hfit hindex]
    · intro index' o' hne
      rw [← Bool.not_eq_true, owned_iff]
      intro heq
      apply hne
      simp only [cake, Qdisc.mk.injEq] at heq
      rw [heq.1, heq.2.2.2.2]
  · rw [hlen, hbytes, List.append_assoc, window_prefix _ _ (length_toLe ..), leNat_toLe (by omega)]
  · rw [hlen]
    have := length_tlvs_mod [(1, cakeNul), (2, tlvs es)]
    omega

/-- What is read back of the request that adds a CAKE qdisc is owned, wherever a PAD
attribute was put among its options. -/
theorem cake_recognised {o : Options} {index : Nat} (hindex : index < 2 ^ 32)
    (hkeys : ∀ k ∈ o.keys, 2 ≤ k ∧ k ≤ 0x3fff) (flags : Nat) :
    ((encode o).length + 4 < 65536 → Recognised (message 36 flags index handle (some o)) index o) ∧
      ∀ l₁ l₂ pad, o.entries = l₁ ++ l₂ → (encodeFrom [] (l₁ ++ (1, pad) :: l₂)).length + 4 < 65536 →
        Recognised (messageWith 36 flags index handle (some (encodeFrom [] (l₁ ++ (1, pad) :: l₂)))) index o := by
  constructor
  · intro hfit
    rw [encode_eq] at hfit
    rw [message, Option.map_some, encode_eq]
    exact recognised_request (.inl rfl) hkeys hfit flags hindex
  · intro l₁ l₂ pad hentries hfit
    rw [encodeFrom_eq rfl, List.nil_append] at hfit ⊢
    exact recognised_request (.inr ⟨l₁, l₂, pad, hentries, rfl⟩) hkeys hfit flags hindex

theorem options_entries (kbit flow : Nat) : (options kbit flow).entries = (2, toLe 8 (kbit * 125)) ::
    [(3, 3), (4, 0), (5, flow), (6, 0), (7, 100000), (8, 5000), (9, 0), (10, 4 <<< 20), (11, 1), (12, 0), (13, 0),
      (14, 0), (15, 0), (16, 0), (17, 1), (18, 0)].map fun (k, v) => (k, toLe 4 v) := by
  simp [options, OrdMap.insertAll, OrdMap.insert, OrdMap.insertEntry, OrdMap.empty]

/-- The module's own options have types past the PAD. -/
theorem options_typed (kbit flow : Nat) : (options kbit flow).Typed := by
  intro k hk
  rw [OrdMap.keys, options_entries] at hk
  simp only [List.map_cons, List.map_nil] at hk
  revert k
  decide

theorem length_encode_options (kbit flow : Nat) : (encode (options kbit flow)).length = 140 := by
  rw [encode_eq, options_entries]
  simp [tlvs, length_tlv, align4]

theorem cake_recognised_options : Recognised (message 36 0x605 2 handle (some (options 8000 5))) 2 (options 8000 5) :=
  (cake_recognised (by decide) (options_typed 8000 5) 0x605).1 (by rw [length_encode_options]; decide)

end Nfqttl.Qos
