/-
`qos.rs`: `sync`, which the loop calls now and then with the settings and the links of the
moment, and `cleanup`, with which a run ends.

A call may be cut or fail anywhere, and between two calls interfaces come and go and others
change the qdiscs. The next call that is left alone makes good for all of that: what it
leaves does not depend on what came before. And what a call tells is true, whatever fails.
-/
import Nfqttl.ConfigLoad
import Nfqttl.Lifetime
import Nfqttl.QosConverge
import Nfqttl.QosTlv

namespace Nfqttl.Qos.Sync

open Effect Text

/-! ## What `sync` asks for -/

inductive SyncOp
  | qos (op : QosOp)
  /-- The text of `/sys/class/net/{iface}/ifindex`. -/
  | readIndex (iface : String)
  /-- The text of `sqm.status`. -/
  | readStatus
  | log (text : String)
  | writeStatus (text : String)

@[reducible] def SyncSig : Sig where
  Op := SyncOp
  Ans := fun
    | .qos op => QosSig.Ans op
    | .readIndex _ | .readStatus => Option (List Char)
    | .log _ | .writeStatus _ => Unit

abbrev SyncProg := Prog SyncSig

def ask (op : SyncOp) : SyncProg (SyncSig.Ans op) := .op op .ret

/-- A function of the first part of `qos.rs`. -/
def raise {α : Type} (x : Prog QosSig α) : SyncProg α := x.hoist fun op => .op (.qos op) .ret

/-! ## `sync` and `cleanup` -/

/-- A round of the loop in `desired`. -/
def want (iface : String) (kbit flow : Nat) (links : List String) (out : OrdMap String Entry) :
    SyncProg (OrdMap String Entry) :=
  if kbit = 0 ∨ iface ∉ links then return out
  else do
    let idx := (← ask (.readIndex iface)).bind fun s => parseUnsigned 32 (trim s)
    return idx.elim out fun idx => out.insert iface (idx, options kbit flow)

def desired (c : Config) (l : Links) : SyncProg (OrdMap String Entry) :=
  if !l.active then return .empty
  else do
    let out ← want c.sqmUpIface c.sqmUpKbit 5 l.up .empty
    want c.sqmDownIface c.sqmDownKbit 6 l.down out

/-- `to_string` of an error, where `os` is the text of the system's last one. -/
def describe (os : String) : IoError → String
  | .new _ text => text
  | .last => os

/-- What `sync` says of the answer of `reconcile`. -/
def statusText (os : String) (c : Config) : Except IoError String → String
  | .ok s =>
    if s = "disabled" ∧ (c.sqmUpKbit > 0 ∨ c.sqmDownKbit > 0) then "waiting: configured interfaces are not active"
    else s
  | .error e => "error: " ++ describe os e ++ "; requires CAKE kernel and CAP_NET_ADMIN"

/-- The end of `sync`: what is not news is not written. -/
def tell (status : String) : SyncProg Unit := do
  if (← ask .readStatus).map trim = some status.toList then return
  ask (.log ("SQM " ++ status))
  ask (.writeStatus status)

def sync (os : String) (c : Config) (l : Links) : SyncProg Unit := do
  let wanted ← desired c l
  let result ← raise (reconcile wanted).run
  tell (statusText os c result)

def cleanup : SyncProg (Except IoError Unit) := do
  match ← raise (reconcile .empty).run with
  | .error e => return .error e
  | .ok _ =>
    ask (.writeStatus "disabled")
    return .ok ()

/-! ## The place -/

/-- The interfaces there are, each with an ifindex of its own. -/
structure Ifaces where
  index : String → Option Nat
  small : ∀ iface n, index iface = some n → n < 2 ^ 32
  inj : ∀ iface iface' n, index iface = some n → index iface' = some n → iface = iface'

structure Place where
  host : Host
  ifaces : Ifaces
  /-- `sqm.status`. -/
  status : Option (List Char)

/-- A file of sysfs with a number. -/
def indexText (n : Nat) : List Char := Nat.toDigits 10 n ++ ['\n']

/-- What each operation may do, where `fails` says which of the requests may fail, and `faulty` whether
files may. -/
def site (fails : QosOp → Host → Prop) (faulty : Prop) : Sem SyncSig Place := fun op p a p' =>
  match op, a with
  | .qos op, a => ∃ host, backend fails op p.host a host ∧ p' = { p with host := host }
  | .readIndex iface, text => p' = p ∧ (text = (p.ifaces.index iface).map indexText ∨ faulty ∧ text = none)
  | .readStatus, text => p' = p ∧ (text = p.status ∨ faulty ∧ text = none)
  | .log _, _ => p' = p
  | .writeStatus text, _ => p' = { p with status := some text.toList } ∨ faulty ∧ p' = p

/-- Anything may fail. -/
abbrev anyhow : Sem SyncSig Place := site (fun _ _ => True) True

/-- Nothing fails. -/
abbrev alone : Sem SyncSig Place := site blocked False

/-- Where calls lead that are cut and fail anywhere, while others change the qdiscs and interfaces come
and go between them. -/
inductive Lives : Place → Prop
  | start {p : Place} : p.host.journals = .empty → Lives p
  | sync {p p' : Place} {os : String} {text : List Char} {l : Links} : Lives p → Config.validate text = .ok () →
      Visits anyhow (sync os (Config.load (some text)) l) p p' → Lives p'
  | cleanup {p p' : Place} : Lives p → Visits anyhow cleanup p p' → Lives p'
  | outside {p p' : Place} : Lives p → p'.host.journals = p.host.journals → Lives p'

/-! ## What is due -/

/-- The qdisc that an interface is to have. -/
inductive Due (c : Config) (l : Links) (f : Ifaces) : String → Entry → Prop
  | up {n : Nat} : l.active = true → c.sqmUpKbit ≠ 0 → c.sqmUpIface ∈ l.up → f.index c.sqmUpIface = some n →
      Due c l f c.sqmUpIface (n, options c.sqmUpKbit 5)
  | down {n : Nat} : l.active = true → c.sqmDownKbit ≠ 0 → c.sqmDownIface ∈ l.down →
      f.index c.sqmDownIface = some n → Due c l f c.sqmDownIface (n, options c.sqmDownKbit 6)

/-- What is told of the qdiscs wanted once they are there. -/
def summary (c : Config) (wanted : OrdMap String Entry) : String :=
  if wanted.isEmpty then
    if c.sqmUpKbit > 0 ∨ c.sqmDownKbit > 0 then "waiting: configured interfaces are not active" else "disabled"
  else "CAKE: " ++ ", ".intercalate wanted.keys

/-- Where the qdiscs due can go. -/
structure Free (c : Config) (l : Links) (p : Place) : Prop where
  roots : ∀ iface e, Due c l p.ifaces iface e → ∀ r ∈ p.host.kernel.qdiscs, r.index = e.1 → r.parent = root →
    replaceable r = true ∨ Ours p.host.journals r
  below : ∀ iface e, Due c l p.ifaces iface e → ∀ q ∈ p.host.kernel.qdiscs, q.index = e.1 → q.parent ≠ root →
    q.isIngress = true ∨ q.handle = 0

theorem Due.index {c : Config} {l : Links} {f : Ifaces} {iface : String} {e : Entry} (h : Due c l f iface e) :
    f.index iface = some e.1 := by
  cases h with
  | up _ _ _ hn => exact hn
  | down _ _ _ hn => exact hn

/-- The checker refuses one interface for both directions. -/
theorem differ_of_validate {text : List Char} (h : Config.validate text = .ok ()) :
    (Config.load (some text)).sqmUpKbit > 0 → (Config.load (some text)).sqmDownKbit > 0 →
      (Config.load (some text)).sqmUpIface ≠ (Config.load (some text)).sqmDownIface :=
  (shaped_of_checkSqm (checkSqm_of_validate h)).differ

section calls
variable {os : String} {fails : QosOp → Host → Prop} {faulty : Prop} {c : Config} {l : Links} {p p' : Place}

/-! ## `desired` -/

theorem parse_indexText {n : Nat} (hn : n < 2 ^ 32) : parseUnsigned 32 (trim (indexText n)) = some n := by
  have htrim : trim (indexText n) = Nat.toDigits 10 n := by
    have hend : trimEnd (Nat.toDigits 10 n ++ ['\n']) = trimEnd (Nat.toDigits 10 n) :=
      List.rdropWhile_concat_pos _ _ _ (by decide)
    rw [indexText, ← trim_trimEnd, hend, trim_trimEnd, trim_eq_self fun _ => isSpace_toDigits]
  rw [htrim, parseUnsigned_toDigits hn]

/-- What a round adds to `out`: the interface with the number that it has, if it is to be shaped and is
among the links. -/
def Adds (faulty : Prop) (f : Ifaces) (iface : String) (kbit flow : Nat) (links : List String)
    (out out' : OrdMap String Entry) : Prop :=
  out' = out ∧ (kbit = 0 ∨ iface ∉ links ∨ faulty ∨ f.index iface = none) ∨
    kbit ≠ 0 ∧ iface ∈ links ∧ ∃ n, f.index iface = some n ∧ out' = out.insert iface (n, options kbit flow)

theorem want_keeps {I : Place → Prop} (hI : I p) (iface : String) (kbit flow : Nat) (links : List String)
    (out : OrdMap String Entry) :
    Keeps (site fails faulty) I (fun out' p' => p' = p ∧ Adds faulty p.ifaces iface kbit flow links out out')
      (want iface kbit flow links out) p := by
  unfold want
  split
  case isTrue h => exact ⟨hI, rfl, .inl ⟨rfl, h.imp_right .inl⟩⟩
  case isFalse h =>
    obtain ⟨hkbit, hlinks⟩ := not_or.mp h
    refine ⟨hI, ?_⟩
    intro text p₁ hread
    obtain ⟨rfl, rfl | ⟨hfaulty, rfl⟩⟩ := hread
    · cases hn : p₁.ifaces.index iface with
      | none => exact ⟨hI, rfl, .inl ⟨rfl, .inr (.inr (.inr hn))⟩⟩
      | some n =>
        refine ⟨hI, rfl, .inr ⟨hkbit, not_not.mp hlinks, n, hn, ?_⟩⟩
        simp only [Option.map_some, Option.bind_some, parse_indexText (p₁.ifaces.small iface n hn), Option.elim_some]
    · exact ⟨hI, rfl, .inl ⟨rfl, .inr (.inr (.inl hfaulty))⟩⟩

section adds
variable {f : Ifaces} {iface iface' : String} {kbit flow n : Nat} {links : List String}
  {out out' : OrdMap String Entry} {e : Entry}

theorem Adds.find (h : Adds faulty f iface kbit flow links out out') (hf : out'.find iface' = some e) :
    out.find iface' = some e ∨
      kbit ≠ 0 ∧ iface ∈ links ∧ iface' = iface ∧ f.index iface = some e.1 ∧ e.2 = options kbit flow := by
  rcases h with ⟨rfl, _⟩ | ⟨hkbit, hlinks, n, hn, rfl⟩
  · exact .inl hf
  · rw [OrdMap.find_insert] at hf
    split at hf
    · next heq =>
      cases hf
      exact .inr ⟨hkbit, hlinks, heq, hn, rfl⟩
    · exact .inl hf

/-- The file can be read, so what is due is added. -/
theorem Adds.find_self (h : Adds faulty f iface kbit flow links out out') (hfair : ¬faulty) (hkbit : kbit ≠ 0)
    (hlinks : iface ∈ links) (hn : f.index iface = some n) : out'.find iface = some (n, options kbit flow) := by
  rcases h with ⟨_, hzero | hnot | hfaulty | hnone⟩ | ⟨_, _, n', hn', rfl⟩
  · exact absurd hzero hkbit
  · exact absurd hlinks hnot
  · exact absurd hfaulty hfair
  · rw [hn] at hnone
    cases hnone
  · rw [hn] at hn'
    cases hn'
    exact OrdMap.find_insert_self ..

theorem Adds.find_other (h : Adds faulty f iface kbit flow links out out') (hne : kbit ≠ 0 → iface' ≠ iface) :
    out'.find iface' = out.find iface' := by
  rcases h with ⟨rfl, _⟩ | ⟨hkbit, _, _, _, rfl⟩
  · rfl
  · exact OrdMap.find_insert_ne _ _ (hne hkbit)

end adds

/-- `desired` finds what is due, and all of it if the files can be read. -/
theorem desired_keeps {I : Place → Prop} (hI : I p)
    (hdiffer : c.sqmUpKbit > 0 → c.sqmDownKbit > 0 → c.sqmUpIface ≠ c.sqmDownIface) :
    Keeps (site fails faulty) I (fun wanted p' => p' = p ∧
      (∀ iface e, wanted.find iface = some e → Due c l p.ifaces iface e) ∧
      (¬faulty → ∀ iface e, Due c l p.ifaces iface e → wanted.find iface = some e)) (desired c l) p := by
  have hempty : ∀ {iface : String} {e : Entry}, OrdMap.empty.find iface ≠ some e := by
    intro iface e h
    rw [OrdMap.find_empty] at h
    cases h
  unfold desired
  cases hactive : l.active with
  | false =>
    refine ⟨hI, rfl, fun _ _ h => absurd h hempty, ?_⟩
    intro _ iface e h
    cases h with
    | up h => exact absurd (h.symm.trans hactive) (by decide)
    | down h => exact absurd (h.symm.trans hactive) (by decide)
  | true =>
    refine keeps_bind.mpr ((want_keeps hI c.sqmUpIface c.sqmUpKbit 5 l.up .empty).post ?_)
    intro out₁ p₁ _ h₁
    obtain ⟨rfl, hup⟩ := h₁
    refine (want_keeps hI c.sqmDownIface c.sqmDownKbit 6 l.down out₁).post ?_
    intro out₂ p₂ _ h₂
    obtain ⟨rfl, hdown⟩ := h₂
    refine ⟨rfl, ?_, ?_⟩
    · intro iface e h
      obtain ⟨n, o⟩ := e
      rcases hdown.find h with h | ⟨hkbit, hlinks, rfl, hn, rfl⟩
      · rcases hup.find h with h | ⟨hkbit, hlinks, rfl, hn, rfl⟩
        · exact absurd h hempty
        · exact .up hactive hkbit hlinks hn
      · exact .down hactive hkbit hlinks hn
    · intro hfair iface e h
      cases h with
      | up _ hkbit hlinks hn =>
        -- The round after it is for another interface, if it adds one.
        have hother : c.sqmDownKbit ≠ 0 → c.sqmUpIface ≠ c.sqmDownIface := fun hkbit' =>
          hdiffer (Nat.pos_of_ne_zero hkbit) (Nat.pos_of_ne_zero hkbit')
        rw [hdown.find_other hother]
        exact hup.find_self hfair hkbit hlinks hn
      | down _ hkbit hlinks hn => exact hdown.find_self hfair hkbit hlinks hn

/-- Interfaces that are due differ in their ifindex. -/
theorem distinct_of_due {wanted : OrdMap String Entry} {f : Ifaces}
    (h : ∀ iface e, wanted.find iface = some e → Due c l f iface e) : Distinct wanted := by
  intro iface iface' e e' hf hf' heq
  have hindex := (h iface' e' hf').index
  rw [← heq] at hindex
  exact f.inj iface iface' e.1 (h iface e hf).index hindex

/-! ## The journals -/

theorem distinct_empty : Distinct .empty := by
  intro iface iface' e e' hf
  rw [OrdMap.find_empty] at hf
  cases hf

theorem Distinct.sub {m m' : OrdMap String Entry} (hd : Distinct m)
    (h : ∀ iface e, m'.find iface = some e → m.find iface = some e) : Distinct m' :=
  fun iface iface' e e' hf hf' => hd iface iface' e e' (h iface e hf) (h iface' e' hf')

/-- In the first loop, with the journals `es` still to be looked at: the journals are among those saved,
and the ones looked at are wanted. -/
structure Sifting (wanted saved : OrdMap String Entry) (es : List (String × Entry)) (s : Host) : Prop where
  among : ∀ iface e, s.journals.find iface = some e → saved.find iface = some e
  looked : ∀ iface e, s.journals.find iface = some e → wanted.find iface = some e ∨ (iface, e) ∈ es

theorem Sifting.keep {wanted saved : OrdMap String Entry} {x : String × Entry} {es : List (String × Entry)} {s : Host}
    (h : Sifting wanted saved (x :: es) s) (hw : wanted.find x.1 = some x.2) : Sifting wanted saved es s where
  among := h.among
  looked iface e hf := by
    rcases h.looked iface e hf with hw' | hin
    · exact .inl hw'
    · rcases List.mem_cons.mp hin with rfl | hin
      · exact .inl hw
      · exact .inr hin

theorem Sifting.unlink {wanted saved : OrdMap String Entry} {x : String × Entry} {es : List (String × Entry)}
    {s s₁ : Host} (h : Sifting wanted saved (x :: es) s) (hs₁ : s₁.journals = s.journals) :
    Sifting wanted saved es (s₁.unlink x.1) := by
  have hfind : ∀ iface e, (s₁.unlink x.1).journals.find iface = some e →
      iface ≠ x.1 ∧ s.journals.find iface = some e := by
    intro iface e hf
    rw [Host.unlink_journals, hs₁, OrdMap.find_erase] at hf
    split at hf
    · cases hf
    · next hne => exact ⟨hne, hf⟩
  refine ⟨fun iface e hf => h.among iface e (hfind iface e hf).2, ?_⟩
  intro iface e hf
  obtain ⟨hne, hf⟩ := hfind iface e hf
  rcases h.looked iface e hf with hw | hin
  · exact .inl hw
  · rcases List.mem_cons.mp hin with rfl | hin
    · exact absurd rfl hne
    · exact .inr hin

/-- Cut anywhere and failing anywhere, a call leaves no two journals with one ifindex. -/
theorem reconcile_distinct {wanted : OrdMap String Entry} {s : Host} (hd : Distinct s.journals)
    (hw : Distinct wanted) :
    KeepsE (backend fails) (fun s => Distinct s.journals) (fun _ _ => True) (fun _ _ => True) (reconcile wanted) s := by
  refine keeps_reconcile (P := fun _ es s₁ => Sifting wanted s.journals es s₁)
    (T := fun _ _ _ s₂ => ∀ iface e, s₂.journals.find iface = some e → wanted.find iface = some e) hd
    (fun _ _ _ h => Distinct.sub hd h.among) (fun _ _ _ _ h => Distinct.sub hw h)
    (fun _ _ => trivial) (fun _ _ => trivial) ?_ ?_ (fun _ _ _ _ _ => trivial) ?_ ?_ fun _ _ _ _ => trivial
  · exact fun _ _ => ⟨fun _ _ hf => hf, fun _ _ hf => .inr (OrdMap.mem_entries.mpr hf)⟩
  · intro dump x es _ s₁ h
    obtain ⟨iface, idx, o⟩ := x
    refine keeps_dropStale (Distinct.sub hd h.among) (fun hwanted _ => h.keep hwanted) ?_ fun _ _ _ => trivial
    intro _ s₂ hs₂
    have hjournals : s₂.journals = s₁.journals := by
      rcases hs₂ with ⟨rfl, _⟩ | ⟨_, _, _, rfl⟩
      · rfl
      · rfl
    have hunlink := h.unlink hjournals
    refine ⟨?_, fun _ _ => trivial, Distinct.sub hd hunlink.among, hunlink⟩
    rw [hjournals]
    exact Distinct.sub hd h.among
  · exact fun _ _ _ h _ iface e hf => (h.looked iface e hf).resolve_right List.not_mem_nil
  · intro dump x es hsuf active s₂ h
    obtain ⟨iface, idx, o⟩ := x
    have hx : wanted.find iface = some (idx, o) := OrdMap.mem_entries.mp (hsuf.subset List.mem_cons_self)
    refine keeps_install (fun _ => Distinct.sub hw h) (fun _ _ => h) (fun _ _ _ => trivial) (fun _ _ _ => trivial) ?_
    intro _ _ s₃ temps hs₃
    have hjournals : ∀ iface' e, s₃.journals.find iface' = some e → wanted.find iface' = some e := by
      intro iface' e hf
      rw [hs₃, Host.withTemps_journals, Host.journal_journals, OrdMap.find_insert] at hf
      split at hf
      · next heq =>
        rw [heq, hx, hf]
      · exact h iface' e hf
    have hd₃ : Distinct s₃.journals := Distinct.sub hw hjournals
    exact ⟨hd₃, fun _ _ => trivial, fun _ _ => ⟨hd₃, fun _ _ => trivial, hjournals⟩⟩

/-! ## The calls -/

/-- What the first part of `qos.rs` does is done to the host alone. -/
theorem raise_keeps {α : Type} {I : Host → Prop} {Q : α → Host → Prop} {x : Prog QosSig α}
    (h : Keeps (backend fails) I Q x p.host) :
    Keeps (site fails faulty) (fun p' => I p'.host) (fun a p' => Q a p'.host ∧ p' = { p with host := p'.host })
      (raise x) p := by
  induction x generalizing p with
  | ret a => exact ⟨h.1, h.2, rfl⟩
  | op o k ih =>
    refine ⟨h.1, ?_⟩
    intro a p₁ hdoes
    obtain ⟨host, hdoes, rfl⟩ := hdoes
    exact ih a (p := { p with host := host }) (h.2 a host hdoes)

/-- `said` is written when it is news, or when it could not be read whether it is. -/
def Tells (faulty : Prop) (said : String) (p p' : Place) : Prop :=
  p' = { p with status := some said.toList } ∧ (p.status.map trim ≠ some said.toList ∨ faulty) ∨
    p' = p ∧ (p.status.map trim = some said.toList ∨ faulty)

theorem tell_keeps {I : Place → Prop} (hI : ∀ t, I { p with status := t }) (said : String) :
    Keeps (site fails faulty) I (fun _ p' => Tells faulty said p p') (tell said) p := by
  refine ⟨hI p.status, ?_⟩
  intro text p₁ hdoes
  obtain ⟨rfl, htext⟩ := hdoes
  change Keeps _ _ _ (if text.map trim = some said.toList then _ else _) p₁
  split
  case isTrue hsame =>
    rcases htext with rfl | ⟨_, rfl⟩
    · exact ⟨hI p₁.status, .inr ⟨rfl, .inl hsame⟩⟩
    · cases hsame
  case isFalse hnews =>
    have hnews : p₁.status.map trim ≠ some said.toList ∨ faulty := by
      rcases htext with rfl | ⟨hfaulty, _⟩
      · exact .inl hnews
      · exact .inr hfaulty
    refine ⟨hI p₁.status, ?_⟩
    intro _ p₂ hlog
    obtain rfl : p₂ = p₁ := hlog
    refine ⟨hI p₂.status, ?_⟩
    intro _ p₃ hwrite
    rcases hwrite with rfl | ⟨hfaulty, rfl⟩
    · exact ⟨hI _, .inl ⟨rfl, hnews⟩⟩
    · exact ⟨hI p₃.status, .inr ⟨rfl, .inr hfaulty⟩⟩

theorem sync_distinct {text : List Char} (hc : Config.validate text = .ok ()) (hd : Distinct p.host.journals) :
    Keeps (site fails faulty) (fun p => Distinct p.host.journals) (fun _ _ => True) (sync os (Config.load (some text)) l) p := by
  refine keeps_bind.mpr ((desired_keeps hd (differ_of_validate hc)).post ?_)
  intro wanted p₁ hd₁ h₁
  obtain ⟨rfl, hdue, _⟩ := h₁
  refine keeps_bind.mpr ((raise_keeps (reconcile_distinct hd₁ (distinct_of_due hdue))).post ?_)
  intro result p₂ hd₂ _
  exact (tell_keeps (fun _ => hd₂) _).post fun _ _ _ _ => trivial

theorem cleanup_distinct (hd : Distinct p.host.journals) :
    Keeps (site fails faulty) (fun p => Distinct p.host.journals) (fun _ _ => True) cleanup p := by
  refine keeps_bind.mpr ((raise_keeps (reconcile_distinct hd distinct_empty)).post ?_)
  intro result p₁ hd₁ _
  cases result with
  | error e => exact ⟨hd₁, trivial⟩
  | ok said =>
    refine ⟨hd₁, ?_⟩
    intro _ p₂ hdoes
    rcases hdoes with rfl | ⟨_, rfl⟩
    · exact ⟨hd₁, trivial⟩
    · exact ⟨hd₁, trivial⟩

/-- Whatever was cut or failed, no two journals have one ifindex. -/
theorem Lives.distinct (h : Lives p) : Distinct p.host.journals := by
  induction h with
  | start hnone =>
    rw [hnone]
    exact distinct_empty
  | sync _ hc hv ih => exact (sync_distinct hc ih).visits hv
  | cleanup _ hv ih => exact (cleanup_distinct ih).visits hv
  | outside _ hj ih =>
    rw [hj]
    exact ih

/-! ## A call that is left alone -/

theorem keeps_of_ends {α : Type} {x : Prog QosSig α} {s : Host} {Q : α → Host → Prop} (h : Ends (backend blocked) x s Q) :
    Keeps (backend blocked) (fun _ => True) Q x s := keeps_iff.mpr ⟨fun _ _ => trivial, h.2⟩

/-- Every operation has an outcome. -/
theorem alone_total (op : SyncOp) (p : Place) : ∃ a p', alone op p a p' := by
  cases op with
  | qos op => exact ⟨_, _, _, machine_backend op p.host, rfl⟩
  | readIndex iface => exact ⟨_, p, rfl, .inl rfl⟩
  | readStatus => exact ⟨_, p, rfl, .inl rfl⟩
  | log text => exact ⟨(), p, rfl⟩
  | writeStatus text => exact ⟨(), _, .inl rfl⟩

theorem ends_of_keeps {α : Type} {x : SyncProg α} {Q : α → Place → Prop} (h : Keeps alone (fun _ => True) Q x p) :
    Ends alone x p Q := ⟨runs_total alone_total x p, fun _ _ hrun => h.runs hrun⟩

/-- A map that has what is due and nothing else. -/
def Exact (c : Config) (l : Links) (f : Ifaces) (wanted : OrdMap String Entry) : Prop :=
  ∀ iface e, wanted.find iface = some e ↔ Due c l f iface e

theorem Exact.unique {wanted wanted' : OrdMap String Entry} (h : Exact c l p.ifaces wanted)
    (h' : Exact c l p.ifaces wanted') : wanted' = wanted :=
  OrdMap.ext fun iface => Option.ext fun e => (h' iface e).trans (h iface e).symm

/-- `sync`, by what `reconcile` makes of what is due. -/
theorem sync_keeps {text : List Char} (hc : Config.validate text = .ok ())
    {Q : OrdMap String Entry → Except IoError String → Host → Prop}
    (hQ : ∀ wanted, (∀ iface e, wanted.find iface = some e → Due (Config.load (some text)) l p.ifaces iface e) →
      (¬faulty → Exact (Config.load (some text)) l p.ifaces wanted) →
      Keeps (backend fails) (fun _ => True) (Q wanted) (reconcile wanted).run p.host) :
    Keeps (site fails faulty) (fun _ => True) (fun _ p' => ∃ wanted result host, Q wanted result host ∧
      Tells faulty (statusText os (Config.load (some text)) result) { p with host := host } p')
      (sync os (Config.load (some text)) l) p := by
  refine keeps_bind.mpr ((desired_keeps trivial (differ_of_validate hc)).post ?_)
  intro wanted p₁ _ h₁
  obtain ⟨rfl, hdue, hall⟩ := h₁
  have hexact : ¬faulty → Exact (Config.load (some text)) l p₁.ifaces wanted := fun hfair iface e =>
    ⟨hdue iface e, hall hfair iface e⟩
  refine keeps_bind.mpr ((raise_keeps (hQ wanted hdue hexact)).post ?_)
  intro result p₂ _ h₂
  obtain ⟨hres, hp₂⟩ := h₂
  refine (tell_keeps (fun _ => trivial) _).post ?_
  intro _ p₃ _ htells
  rw [hp₂] at htells
  exact ⟨wanted, result, p₂.host, hres, htells⟩

theorem Free.settable {wanted : OrdMap String Entry} (h : Free c l p) (hexact : Exact c l p.ifaces wanted)
    (hd : Distinct p.host.journals) : Settable wanted p.host where
  distinct := distinct_of_due fun iface e => (hexact iface e).mp
  journals := hd
  roots iface e hf := h.roots iface e ((hexact iface e).mp hf)
  below iface e hf := h.below iface e ((hexact iface e).mp hf)

theorem statusText_status (wanted : OrdMap String Entry) : statusText os c (.ok (status wanted.keys)) = summary c wanted := by
  unfold statusText summary status
  have hkeys : wanted.keys.isEmpty = wanted.isEmpty := by
    rw [OrdMap.keys, OrdMap.isEmpty, List.isEmpty_map]
  rw [hkeys]
  cases wanted.isEmpty with
  | true => simp
  | false =>
    have hcake : ∀ names : String, "CAKE: " ++ names ≠ "disabled" := by
      intro names h
      have hhead := congrArg (fun t => t.toList.head?) h
      simp at hhead
    simp [hcake]

theorem Tells.read {said : String} (h : Tells False said p p') : p'.status.map trim = some (trim said.toList) := by
  rcases h with ⟨rfl, _⟩ | ⟨rfl, hsame | hfaulty⟩
  · rfl
  · cases ht : p'.status with
    | none =>
      rw [ht] at hsame
      cases hsame
    | some t =>
      rw [ht] at hsame
      rw [← Option.some.inj hsame]
      exact congrArg some (trim_trim t).symm
  · exact hfaulty.elim

/-- What was told last is no news. -/
theorem Tells.again {said : String} {p'' : Place} (h : Tells False said p p') (h' : Tells False said p' p'') : p'' = p' := by
  rcases h' with ⟨rfl, hnews | hfaulty⟩ | ⟨rfl, _⟩
  · rcases h with ⟨rfl, _⟩ | ⟨rfl, hsame | hfaulty⟩
    · rfl
    · exact absurd hsame hnews
    · exact hfaulty.elim
  · exact hfaulty.elim
  · rfl

/-- Where all that is due is there, a call has nothing to do but to tell so. -/
theorem sync_settled {text : List Char} (hc : Config.validate text = .ok ()) {wanted : OrdMap String Entry}
    (hexact : Exact (Config.load (some text)) l p.ifaces wanted) (hj : p.host.journals = wanted)
    (hin : ∀ iface e, wanted.find iface = some e → cake e.1 e.2 ∈ p.host.kernel.qdiscs) :
    Ends alone (sync os (Config.load (some text)) l) p fun _ p' =>
      Tells False (summary (Config.load (some text)) wanted) p p' := by
  have hsettled : ∀ wanted', Exact (Config.load (some text)) l p.ifaces wanted' →
      Ends (backend blocked) (reconcile wanted').run p.host fun a s' => a = .ok (status wanted.keys) ∧ s' = p.host := by
    intro wanted' hexact'
    rw [hexact.unique hexact']
    exact reconcile_settled hj hin
  refine (ends_of_keeps (sync_keeps hc fun wanted' _ hexact' =>
    keeps_of_ends (hsettled wanted' (hexact' not_false)))).mono ?_
  intro _ p' h
  obtain ⟨_, _, _, ⟨rfl, rfl⟩, htells⟩ := h
  rw [statusText_status] at htells
  exact htells

theorem cleanup_reverts {wanted : OrdMap String Entry} (hj : p.host.journals = wanted) (hd : Distinct wanted) :
    Ends alone cleanup p fun a p' => a = .ok () ∧ Reverted wanted p.host p'.host ∧ p'.status = some "disabled".toList := by
  refine ends_of_keeps (keeps_bind.mpr ((raise_keeps (keeps_of_ends (reconcile_reverted hj hd))).post ?_))
  intro result p₁ _ h₁
  obtain ⟨⟨rfl, hreverted⟩, _⟩ := h₁
  refine ⟨trivial, ?_⟩
  intro _ p₂ hwrite
  rcases hwrite with rfl | ⟨hfaulty, _⟩
  · exact ⟨trivial, rfl, hreverted, rfl⟩
  · exact hfaulty.elim

/-- **What a call leaves does not depend on what came before.** After calls of `sync` and `cleanup` that
were cut and failed anywhere, and whatever others did between them: a `sync` that nothing fails, with room
for the qdiscs due, leaves a CAKE qdisc and a journal for each interface that the settings of an accepted
`config.conf` ask for and that is among the links, no other journal and nothing of what others named, and
tells so; another one leaves all as it is; and a `cleanup` takes it back. -/
theorem sync_settles {text : List Char} (hp : Lives p) (hc : Config.validate text = .ok ())
    (hfree : Free (Config.load (some text)) l p) :
    Ends alone (sync os (Config.load (some text)) l) p fun _ p₁ =>
      ∃ wanted, Exact (Config.load (some text)) l p.ifaces wanted ∧ Converged wanted p.host p₁.host ∧
        p₁.status.map trim = some (trim (summary (Config.load (some text)) wanted).toList) ∧
        Ends alone (sync os (Config.load (some text)) l) p₁ (fun _ p₂ => p₂ = p₁) ∧
        Ends alone cleanup p₁ fun a p₂ => a = .ok () ∧ Reverted wanted p₁.host p₂.host ∧
          p₂.status = some "disabled".toList := by
  have hfirst : ∀ wanted, Exact (Config.load (some text)) l p.ifaces wanted →
      Ends (backend blocked) (reconcile wanted).run p.host fun result host =>
        Exact (Config.load (some text)) l p.ifaces wanted ∧ result = .ok (status wanted.keys) ∧
          Converged wanted p.host host := by
    intro wanted hexact
    refine (reconcile_converged (hfree.settable hexact hp.distinct)).mono ?_
    exact fun _ _ h => ⟨hexact, h⟩
  refine (ends_of_keeps (sync_keeps hc fun wanted _ hexact =>
    keeps_of_ends (hfirst wanted (hexact not_false)))).mono ?_
  intro _ p₁ h₁
  obtain ⟨wanted, result, host, ⟨hexact, rfl, hconv⟩, htells⟩ := h₁
  rw [statusText_status] at htells
  have hhost : p₁.host = host ∧ p₁.ifaces = p.ifaces := by
    rcases htells with ⟨rfl, _⟩ | ⟨rfl, _⟩
    · exact ⟨rfl, rfl⟩
    · exact ⟨rfl, rfl⟩
  obtain ⟨rfl, hifaces⟩ := hhost
  have hin : ∀ iface e, wanted.find iface = some e → cake e.1 e.2 ∈ p₁.host.kernel.qdiscs := fun iface e he =>
    ((hconv.roots iface e he _).mpr rfl).1
  refine ⟨wanted, hexact, hconv, htells.read, ?_, ?_⟩
  · have hexact₁ : Exact (Config.load (some text)) l p₁.ifaces wanted := by
      rw [hifaces]
      exact hexact
    refine (sync_settled hc hexact₁ hconv.journals hin).mono ?_
    exact fun _ _ htells' => htells.again htells'
  · exact cleanup_reverts hconv.journals (distinct_of_due fun iface e => (hexact iface e).mp)

/-- Settings that shape the upload. -/
def shaping : List Char := "SQM_UP_KBIT=8000\nSQM_UP_IFACE=rmnet_data2\n".toList

/-- A phone with the interface of `shaping` and no qdisc. -/
def idlePhone : Place where
  host := bare
  ifaces :=
    { index := fun iface => if iface = "rmnet_data2" then some 2 else none
      small := by
        intro iface n h
        simp only [Option.ite_none_right_eq_some, Option.some.injEq] at h
        omega
      inj := by
        intro iface iface' n h h'
        simp only [Option.ite_none_right_eq_some] at h h'
        exact h.1.trans h'.1.symm }
  status := none

theorem validate_shaping : Config.validate shaping = .ok () := by decide +kernel

/-- What a request that is denied would be told as. -/
def denied : String := "Operation not permitted (os error 1)"

theorem sync_settles_shaping : Ends alone (sync denied (Config.load (some shaping)) ⟨["wlan0"], ["rmnet_data2"]⟩) idlePhone
    fun _ p₁ => cake 2 (options 8000 5) ∈ p₁.host.kernel.qdiscs := by
  have hfree : Free (Config.load (some shaping)) ⟨["wlan0"], ["rmnet_data2"]⟩ idlePhone :=
    ⟨fun _ _ _ _ h => absurd h List.not_mem_nil, fun _ _ _ _ h => absurd h List.not_mem_nil⟩
  refine (sync_settles (.start rfl) validate_shaping hfree).mono ?_
  intro _ p₁ h
  obtain ⟨wanted, hexact, hconv, _⟩ := h
  have hdue : Due (Config.load (some shaping)) ⟨["wlan0"], ["rmnet_data2"]⟩ idlePhone.ifaces "rmnet_data2"
      (2, options 8000 5) := .up rfl (by decide) (by decide) rfl
  exact ((hconv.roots _ _ ((hexact _ _).mpr hdue) _).mpr rfl).1

/-- What a call says is an error, or true: the qdiscs and journals are those told of, all of them due, and
if files do not fail, all that are due. -/
def Truthful (os : String) (faulty : Prop) (c : Config) (l : Links) (said : String) (p p' : Place) : Prop :=
  (∃ e, said = statusText os c (.error e)) ∨
    ∃ wanted, said = summary c wanted ∧ Converged wanted p.host p'.host ∧
      (∀ iface e, wanted.find iface = some e → Due c l p.ifaces iface e) ∧ (¬faulty → Exact c l p.ifaces wanted)

/-- **What `sync` tells is true, whatever fails.** After calls that were cut and failed anywhere, and
whatever others did between them: a call that comes to its end, each of its requests failing or not, has an
error to tell or has done all that it tells. That is what `sqm.status` holds then, unless files fail. -/
theorem sync_truthful {text : List Char} (hp : Lives p) (hc : Config.validate text = .ok ()) :
    Keeps (site fails faulty) (fun _ => True) (fun _ p' =>
      ∃ said, Truthful os faulty (Config.load (some text)) l said p p' ∧
        (p'.status = some said.toList ∨
          p'.status = p.status ∧ (p.status.map trim = some said.toList ∨ faulty)))
      (sync os (Config.load (some text)) l) p := by
  have hdone : ∀ wanted, (∀ iface e, wanted.find iface = some e → Due (Config.load (some text)) l p.ifaces iface e) →
      (¬faulty → Exact (Config.load (some text)) l p.ifaces wanted) →
      Keeps (backend fails) (fun _ => True) (fun result host =>
        Truthful os faulty (Config.load (some text)) l (statusText os (Config.load (some text)) result) p
          { p with host := host }) (reconcile wanted).run p.host := by
    intro wanted hdue hexact
    refine keeps_iff.mpr ⟨fun _ _ => trivial, ?_⟩
    intro result host hrun
    have hfails : ∀ op s, fails op s → blocked op s ∨ True := fun _ _ _ => .inr trivial
    rcases reconcile_runs hfails (distinct_of_due hdue) hp.distinct (.inr trivial) hrun with ⟨rfl, hconv⟩ | ⟨_, e, rfl⟩
    · rw [statusText_status]
      exact .inr ⟨wanted, rfl, hconv, hdue, hexact⟩
    · exact .inl ⟨e, rfl⟩
  refine (sync_keeps hc hdone).post ?_
  intro _ p₁ _ h₁
  obtain ⟨wanted, result, host, htrue, htells⟩ := h₁
  refine ⟨statusText os (Config.load (some text)) result, ?_, ?_⟩
  · rcases htells with ⟨rfl, _⟩ | ⟨rfl, _⟩
    · exact htrue
    · exact htrue
  · rcases htells with ⟨rfl, _⟩ | ⟨rfl, hold⟩
    · exact .inl rfl
    · exact .inr ⟨rfl, hold⟩

/-- What `sync` leaves when the qdiscs cannot be asked for. -/
def refused : Place :=
  { idlePhone with
    status := some ("error: " ++ denied ++ "; requires CAKE kernel and CAP_NET_ADMIN").toList }

theorem runs_refused : Runs anyhow (sync denied (Config.load (some shaping)) ⟨["wlan0"], ["rmnet_data2"]⟩) idlePhone ()
    refused := by
  have hload : Config.load (some shaping) = { sqmUpKbit := 8000, sqmUpIface := "rmnet_data2" } := rfl
  rw [hload]
  refine .op (a := some "2\n".toList) ⟨rfl, .inl rfl⟩ ?_
  refine .op (a := (Except.ok OrdMap.empty : Except IoError (OrdMap String Entry))) ⟨_, ⟨rfl, .inl rfl⟩, rfl⟩ ?_
  refine .op (a := (Except.error .last : Except IoError (List Qdisc)))
    ⟨_, ⟨rfl, .inr ⟨trivial, _, rfl⟩⟩, rfl⟩ ?_
  refine .op (a := none) ⟨rfl, .inl rfl⟩ ?_
  refine .op (a := ()) rfl ?_
  exact .op (a := ()) (.inl rfl) .ret

theorem sync_truthful_refused : ∃ said,
    Truthful denied True (Config.load (some shaping)) ⟨["wlan0"], ["rmnet_data2"]⟩ said idlePhone refused ∧
      (refused.status = some said.toList ∨
        refused.status = idlePhone.status ∧ (idlePhone.status.map trim = some said.toList ∨ True)) :=
  (sync_truthful (.start rfl) validate_shaping).runs runs_refused

end calls

end Nfqttl.Qos.Sync
