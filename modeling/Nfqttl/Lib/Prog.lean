/-
Programs as trees of effects, and what holds of every way they can run.

A program asks for one operation after the other and goes on from the answer
(`Prog`). What an operation may do is said apart from the program, as a relation
between states (`Sem`), so a failing operation, a hostile environment and a
well-behaved one are three semantics of one program text. A run may also be cut
between any two operations (`Visits`), which is what a crash leaves behind.

`Keeps R I Q p s` is the one predicate the proofs use: from `s`, every state a
cut can leave satisfies `I`, and every answer comes in a state satisfying `Q`.
-/
import Mathlib.Logic.Basic

namespace Effect

/-- Operations, and the type each one answers with. -/
structure Sig where
  Op : Type
  Ans : Op → Type

/-- A program over the operations of `E` that answers an `α`. -/
inductive Prog (E : Sig) (α : Type) : Type
  | ret (a : α)
  | op (o : E.Op) (k : E.Ans o → Prog E α)

namespace Prog

variable {E : Sig} {α β γ S : Type}

def bind : Prog E α → (α → Prog E β) → Prog E β
  | .ret a, f => f a
  | .op o k, f => .op o fun a => (k a).bind f

instance : Monad (Prog E) where
  pure := .ret
  bind := bind

@[simp] theorem pure_eq (a : α) : (pure a : Prog E α) = .ret a := rfl
@[simp] theorem bind_ret (a : α) (f : α → Prog E β) : (Prog.ret a >>= f) = f a := rfl
@[simp] theorem bind_op (o : E.Op) (k : E.Ans o → Prog E α) (f : α → Prog E β) :
    (Prog.op o k >>= f) = .op o fun a => k a >>= f := rfl
theorem bind_assoc' (p : Prog E α) (f : α → Prog E β) (g : β → Prog E γ) :
    (p >>= f) >>= g = p >>= fun a => f a >>= g := by
  induction p with
  | ret a => rfl
  | op o k ih => simp only [bind_op, ih]

theorem bind_ret_right (p : Prog E α) : (p >>= fun a => Prog.ret a) = p := by
  induction p with
  | ret a => rfl
  | op o k ih => simp only [bind_op, ih]

instance : LawfulMonad (Prog E) :=
  LawfulMonad.mk' (Prog E) bind_ret_right (fun _ _ => rfl) bind_assoc'

end Prog

/-! ## Semantics -/

/-- What each operation may do: from a state, an answer and the state after it. -/
abbrev Sem (E : Sig) (S : Type) := (o : E.Op) → S → E.Ans o → S → Prop

/-- What each operation does, when it has one outcome. -/
abbrev Handler (E : Sig) (S : Type) := (o : E.Op) → S → E.Ans o × S

/-- The relation a handler is the graph of. -/
def Handler.sem {E : Sig} {S : Type} (h : Handler E S) : Sem E S := fun o s a s' => h o s = (a, s')

/-- `p` run to its end from `s` may answer `a` and leave `s'`. -/
inductive Runs {E : Sig} {S α : Type} (R : Sem E S) : Prog E α → S → α → S → Prop
  | ret : Runs R (.ret a) s a s
  | op : R o s a s' → Runs R (k a) s' b s'' → Runs R (.op o k) s b s''

/-- `p` run from `s` may be cut in state `s'`. -/
inductive Visits {E : Sig} {S α : Type} (R : Sem E S) : Prog E α → S → S → Prop
  | cut : Visits R p s s
  | op : R o s a s' → Visits R (k a) s' s'' → Visits R (.op o k) s s''

/-- Every state a cut run leaves satisfies `I`, and every answer comes with `Q`. -/
def Keeps {E : Sig} {S α : Type} (R : Sem E S) (I : S → Prop) (Q : α → S → Prop) :
    Prog E α → S → Prop
  | .ret a, s => I s ∧ Q a s
  | .op o k, s => I s ∧ ∀ a s', R o s a s' → Keeps R I Q (k a) s'

/-- `p` from `s` has a run to its end, and every such run ends with `Q`. -/
def Ends {E : Sig} {S α : Type} (R : Sem E S) (p : Prog E α) (s : S) (Q : α → S → Prop) : Prop :=
  (∃ a s', Runs R p s a s') ∧ ∀ a s', Runs R p s a s' → Q a s'

section rules
variable {E : Sig} {S α β : Type} {R : Sem E S} {I I' : S → Prop} {Q Q' : α → S → Prop}

theorem runs_ret {a b : α} {s s' : S} : Runs R (.ret a) s b s' ↔ b = a ∧ s' = s := by
  constructor
  · intro h
    cases h
    exact ⟨rfl, rfl⟩
  · rintro ⟨rfl, rfl⟩
    exact .ret

theorem runs_op {o : E.Op} {k : E.Ans o → Prog E α} {s s' : S} {b : α} :
    Runs R (.op o k) s b s' ↔ ∃ a s₁, R o s a s₁ ∧ Runs R (k a) s₁ b s' := by
  constructor
  · intro h
    cases h with
    | op ho hk => exact ⟨_, _, ho, hk⟩
  · rintro ⟨a, s₁, ho, hk⟩
    exact .op ho hk

theorem runs_bind {p : Prog E β} {f : β → Prog E α} {s s' : S} {b : α} :
    Runs R (p >>= f) s b s' ↔ ∃ a s₁, Runs R p s a s₁ ∧ Runs R (f a) s₁ b s' := by
  induction p generalizing s with
  | ret a =>
    simp only [Prog.bind_ret, runs_ret]
    refine ⟨?_, ?_⟩
    · intro h
      exact ⟨a, s, ⟨rfl, rfl⟩, h⟩
    · intro h
      obtain ⟨_, _, ⟨rfl, rfl⟩, h⟩ := h
      exact h
  | op o k ih =>
    simp only [Prog.bind_op, runs_op, ih]
    refine ⟨?_, ?_⟩
    · intro h
      obtain ⟨a, s₁, ho, b, s₂, hk, hf⟩ := h
      exact ⟨b, s₂, ⟨a, s₁, ho, hk⟩, hf⟩
    · intro h
      obtain ⟨b, s₂, ⟨a, s₁, ho, hk⟩, hf⟩ := h
      exact ⟨a, s₁, ho, b, s₂, hk, hf⟩

/-- A first part with one answer that leaves the state as it is. -/
theorem runs_bind_of {p : Prog E β} {x : β} {f : β → Prog E α} {s s' : S} {b : α}
    (hp : ∀ a s₁, Runs R p s a s₁ ↔ a = x ∧ s₁ = s) : Runs R (p >>= f) s b s' ↔ Runs R (f x) s b s' := by
  simp only [runs_bind, hp, and_assoc, exists_and_left, exists_eq_left]

theorem runs_map {p : Prog E β} {f : β → α} {s s' : S} {b : α} :
    Runs R (f <$> p) s b s' ↔ ∃ a, Runs R p s a s' ∧ b = f a := by
  rw [map_eq_pure_bind, runs_bind]
  simp only [Prog.pure_eq, runs_ret]
  refine ⟨?_, ?_⟩
  · intro h
    obtain ⟨a, s₁, h, rfl, rfl⟩ := h
    exact ⟨a, h, rfl⟩
  · intro h
    obtain ⟨a, h, rfl⟩ := h
    exact ⟨a, s', h, rfl, rfl⟩

theorem Visits.of_runs {p : Prog E α} {s s' : S} {a : α} (h : Runs R p s a s') : Visits R p s s' := by
  induction h with
  | ret => exact .cut
  | op hr _ ih => exact .op hr ih

/-- Where every operation can go on, a program comes to its end. -/
theorem runs_total (hR : ∀ o s, ∃ a s', R o s a s') (p : Prog E α) (s : S) : ∃ a s', Runs R p s a s' := by
  induction p generalizing s with
  | ret a => exact ⟨a, s, .ret⟩
  | op o k ih =>
    obtain ⟨a, s₁, hr⟩ := hR o s
    obtain ⟨b, s', hruns⟩ := ih a s₁
    exact ⟨b, s', .op hr hruns⟩

/-- Where a relation between the states goes along with every operation, it goes along with a run. -/
theorem Runs.simulates {T : Type} {R' : Sem E T} {M : S → T → Prop}
    (hR : ∀ o s a s' t, M s t → R o s a s' → ∃ t', R' o t a t' ∧ M s' t') {p : Prog E α} {s s' : S} {a : α} {t : T}
    (hm : M s t) (h : Runs R p s a s') : ∃ t', Runs R' p t a t' ∧ M s' t' := by
  induction h generalizing t with
  | ret => exact ⟨t, .ret, hm⟩
  | op hr _ ih =>
    obtain ⟨t₁, hr', hm₁⟩ := hR _ _ _ _ t hm hr
    obtain ⟨t', hruns, hm'⟩ := ih hm₁
    exact ⟨t', .op hr' hruns, hm'⟩

/-- A run seen through a map of the states. -/
theorem Runs.map {T : Type} {R' : Sem E T} {f : S → T} {p : Prog E α} {s s' : S} {a : α} (h : Runs R p s a s')
    (hR : ∀ o s a s', R o s a s' → R' o (f s) a (f s')) : Runs R' p (f s) a (f s') := by
  obtain ⟨t', hruns, rfl⟩ := Runs.simulates (M := fun s t => f s = t)
    (fun o s a s' t hm hr => ⟨f s', hm ▸ hR o s a s' hr, rfl⟩) rfl h
  exact hruns

theorem Visits.mono {R' : Sem E S} {p : Prog E α} {s s' : S} (h : Visits R p s s')
    (hR : ∀ o s a s', R o s a s' → R' o s a s') : Visits R' p s s' := by
  induction h with
  | cut => exact .cut
  | op hr _ ih => exact .op (hR _ _ _ _ hr) ih

theorem Runs.mono {R' : Sem E S} {p : Prog E α} {s s' : S} {a : α} (h : Runs R p s a s')
    (hR : ∀ o s a s', R o s a s' → R' o s a s') : Runs R' p s a s' := h.map (f := id) hR

theorem Ends.mono {p : Prog E α} {s : S} (h : Ends R p s Q) (hQ : ∀ a s', Q a s' → Q' a s') : Ends R p s Q' :=
  ⟨h.1, fun a s' hr => hQ a s' (h.2 a s' hr)⟩

theorem Keeps.now {p : Prog E α} {s : S} (h : Keeps R I Q p s) : I s := by
  cases p with
  | ret a => exact h.1
  | op o k => exact h.1

theorem Keeps.visits {p : Prog E α} {s s' : S} (h : Keeps R I Q p s) (hv : Visits R p s s') : I s' := by
  induction hv with
  | cut => exact h.now
  | op hr _ ih => exact ih (h.2 _ _ hr)

theorem Keeps.runs {p : Prog E α} {s s' : S} {a : α} (h : Keeps R I Q p s) (hr : Runs R p s a s') :
    Q a s' := by
  induction hr with
  | ret => exact h.2
  | op hr _ ih => exact ih (h.2 _ _ hr)

/-- `Keeps` says no more than it says of the runs. -/
theorem keeps_iff {p : Prog E α} {s : S} : Keeps R I Q p s ↔
    (∀ s', Visits R p s s' → I s') ∧ (∀ a s', Runs R p s a s' → Q a s') := by
  refine ⟨fun h => ⟨fun s' => h.visits, fun a s' => h.runs⟩, ?_⟩
  induction p generalizing s with
  | ret a => exact fun h => ⟨h.1 s .cut, h.2 a s .ret⟩
  | op o k ih =>
    rintro ⟨hv, hr⟩
    refine ⟨hv s .cut, fun a s' ho => ih a ⟨?_, ?_⟩⟩
    · exact fun s'' h => hv s'' (.op ho h)
    · exact fun b s'' h => hr b s'' (.op ho h)

theorem Keeps.mono {p : Prog E α} {s : S} (h : Keeps R I Q p s) (hI : ∀ s, I s → I' s)
    (hQ : ∀ a s, I s → Q a s → Q' a s) : Keeps R I' Q' p s := by
  induction p generalizing s with
  | ret a => exact ⟨hI s h.1, hQ a s h.1 h.2⟩
  | op o k ih => exact ⟨hI s h.1, fun a s' hr => ih a (h.2 a s' hr)⟩

/-- And the answer is one that a run gives. -/
theorem Keeps.traced {p : Prog E α} {s : S} (h : Keeps R I Q p s) :
    Keeps R I (fun a s' => Q a s' ∧ Runs R p s a s') p s := by
  induction p generalizing s with
  | ret a => exact ⟨h.1, h.2, .ret⟩
  | op o k ih => exact ⟨h.1, fun a s' hr => (ih a (h.2 a s' hr)).mono (fun _ hi => hi) fun _ _ _ hq => ⟨hq.1, .op hr hq.2⟩⟩

theorem Keeps.post {p : Prog E α} {s : S} (h : Keeps R I Q p s) (hQ : ∀ a s, I s → Q a s → Q' a s) :
    Keeps R I Q' p s := h.mono (fun _ hi => hi) hQ

@[simp] theorem keeps_ret {a : α} {s : S} : Keeps R I Q (.ret a) s ↔ I s ∧ Q a s := Iff.rfl

@[simp] theorem keeps_op {o : E.Op} {k : E.Ans o → Prog E α} {s : S} : Keeps R I Q (.op o k) s ↔
    I s ∧ ∀ a s', R o s a s' → Keeps R I Q (k a) s' := Iff.rfl

/-- Sequencing: what the first part answers with is what the second starts from. -/
theorem keeps_bind {p : Prog E β} {f : β → Prog E α} {s : S} :
    Keeps R I Q (p >>= f) s ↔ Keeps R I (fun b s' => Keeps R I Q (f b) s') p s := by
  induction p generalizing s with
  | ret b => exact ⟨fun h => ⟨h.now, h⟩, fun h => h.2⟩
  | op o k ih =>
    simp only [Prog.bind_op, keeps_op]
    exact and_congr_right fun _ => forall₃_congr fun a s' _ => ih a

/-- A loop: `P` of what is left is kept by every round. -/
theorem keeps_forM {f : β → Prog E PUnit} {P : List β → S → Prop} (hI : ∀ s, P [] s → I s) :
    ∀ (bs : List β), (∀ b rest, b :: rest <:+ bs → ∀ s, P (b :: rest) s →
      Keeps R I (fun _ s' => P rest s') (f b) s) →
    ∀ s, P bs s → Keeps R I (fun _ s' => P [] s') (bs.forM f) s
  | [], _, s, h => ⟨hI s h, h⟩
  | b :: bs, hstep, s, h => by
    change Keeps R I _ (f b >>= fun _ => bs.forM f) s
    have hbs : ∀ c rest, c :: rest <:+ bs → ∀ s, P (c :: rest) s → Keeps R I (fun _ s' => P rest s') (f c) s :=
      fun c rest hc => hstep c rest (hc.trans (bs.suffix_cons b))
    rw [keeps_bind]
    exact (hstep b bs (List.suffix_refl _) s h).post fun _ s' _ h' => keeps_forM hI bs hbs s' h'

end rules

/-! ## What a program may ask for -/

/-- `p` asks only for operations in `P`, and answers only with what is in `Q`. -/
def Within {E : Sig} {α : Type} (P : E.Op → Prop) (Q : α → Prop) : Prog E α → Prop
  | .ret a => Q a
  | .op o k => P o ∧ ∀ a, Within P Q (k a)

section within
variable {E : Sig} {S α β : Type} {R : Sem E S} {I : S → Prop} {P : E.Op → Prop} {Q : α → Prop}

@[simp] theorem within_ret {a : α} : Within (E := E) P Q (.ret a) ↔ Q a := Iff.rfl

@[simp] theorem within_op {o : E.Op} {k : E.Ans o → Prog E α} :
    Within P Q (.op o k) ↔ P o ∧ ∀ a, Within P Q (k a) := Iff.rfl

theorem within_bind {p : Prog E β} {f : β → Prog E α} :
    Within P Q (p >>= f) ↔ Within P (fun b => Within P Q (f b)) p := by
  induction p with
  | ret b => exact Iff.rfl
  | op o k ih => exact and_congr_right fun _ => forall_congr' ih

/-- One part after the other, whatever the first one answers. -/
theorem Within.seq {p : Prog E β} {f : β → Prog E α} (hp : Within P (fun _ => True) p) (hf : ∀ b, Within P Q (f b)) :
    Within P Q (p >>= f) := by
  induction p with
  | ret b => exact hf b
  | op o k ih => exact ⟨hp.1, fun a => ih a (hp.2 a)⟩

theorem Within.mono {Q' : α → Prop} {p : Prog E α} (h : Within P Q p) (hQ : ∀ a, Q a → Q' a) : Within P Q' p := by
  induction p with
  | ret a => exact hQ a h
  | op o k ih => exact ⟨h.1, fun a => ih a (h.2 a)⟩

theorem Within.ops {P' : E.Op → Prop} {p : Prog E α} (h : Within P Q p) (hP : ∀ o, P o → P' o) : Within P' Q p := by
  induction p with
  | ret a => exact h
  | op o k ih => exact ⟨hP o h.1, fun a => ih a (h.2 a)⟩

theorem within_true : ∀ p : Prog E α, Within (fun _ => True) (fun _ => True) p
  | .ret _ => trivial
  | .op _ k => ⟨trivial, fun a => within_true (k a)⟩

/-- `p` may answer `b`, if its operations answer as it needs it. -/
def Yields : Prog E α → α → Prop
  | .ret a, b => b = a
  | .op _ k, b => ∃ a, Yields (k a) b

theorem Within.yields {p : Prog E α} {a : α} (h : Within P Q p) (hp : Yields p a) : Q a := by
  induction p with
  | ret b =>
    obtain rfl : a = b := hp
    exact h
  | op o k ih =>
    obtain ⟨x, hx⟩ := hp
    exact ih x (h.2 x) hx

/-- What every operation of `P` keeps, a program within `P` keeps. -/
theorem Within.keeps {p : Prog E α} {s : S} (h : Within P Q p)
    (hP : ∀ o s a s', P o → I s → R o s a s' → I s') (hI : I s) : Keeps R I (fun a s' => I s' ∧ Q a) p s := by
  induction p generalizing s with
  | ret a => exact ⟨hI, hI, h⟩
  | op o k ih => exact ⟨hI, fun a s' hr => ih a (h.2 a) (hP o s a s' h.1 hI hr)⟩

end within

/-! ## Programs that may fail

`Except` answers, threaded by `ExceptT`: the failing branch goes straight to the
end, as the `?` operator does. -/

section except
variable {E : Sig} {S α β ε : Type} {R : Sem E S} {I : S → Prop}

/-- `Keeps` of a program that may fail: `Q` for a result, `F` for a failure. -/
def KeepsE (R : Sem E S) (I : S → Prop) (Q : α → S → Prop) (F : ε → S → Prop)
    (x : ExceptT ε (Prog E) α) (s : S) : Prop :=
  Keeps R I (fun r s' => match r with | .ok a => Q a s' | .error e => F e s') x.run s

variable {Q : α → S → Prop} {F : ε → S → Prop}

theorem runsE_bind_ok {x : ExceptT ε (Prog E) β} {f : β → ExceptT ε (Prog E) α} {s s₁ s' : S} {b : β}
    {r : Except ε α} (hx : Runs R x.run s (.ok b) s₁) (hf : Runs R (f b).run s₁ r s') :
    Runs R (x >>= f).run s r s' := by
  rw [ExceptT.run_bind, runs_bind]
  exact ⟨_, _, hx, hf⟩

theorem runsE_bind_error {x : ExceptT ε (Prog E) β} (f : β → ExceptT ε (Prog E) α) {s s' : S} {e : ε}
    (hx : Runs R x.run s (.error e) s') : Runs R (x >>= f).run s (.error e) s' := by
  rw [ExceptT.run_bind, runs_bind]
  exact ⟨_, _, hx, .ret⟩

theorem keepsE_pure {a : α} {s : S} : KeepsE R I Q F (pure a) s ↔ I s ∧ Q a s := Iff.rfl

theorem keepsE_throw {e : ε} {s : S} : KeepsE R I Q F (throw e) s ↔ I s ∧ F e s := Iff.rfl

theorem keepsE_bind {x : ExceptT ε (Prog E) β} {f : β → ExceptT ε (Prog E) α} {s : S} :
    KeepsE R I Q F (x >>= f) s ↔ KeepsE R I (fun b s' => KeepsE R I Q F (f b) s') F x s := by
  unfold KeepsE
  rw [ExceptT.run_bind, keeps_bind]
  constructor
  · intro h
    refine h.post ?_
    intro r s' _ hr
    cases r with
    | ok b => exact hr
    | error e => exact hr.2
  · intro h
    refine h.post ?_
    intro r s' hi hr
    cases r with
    | ok b => exact hr
    | error e => exact ⟨hi, hr⟩

theorem KeepsE.runs_ok {x : ExceptT ε (Prog E) α} {s s' : S} {a : α} (h : KeepsE R I Q F x s)
    (hr : Runs R x.run s (.ok a) s') : Q a s' := by
  unfold KeepsE at h
  exact h.runs hr

theorem KeepsE.runs_error {x : ExceptT ε (Prog E) α} {s s' : S} {e : ε} (h : KeepsE R I Q F x s)
    (hr : Runs R x.run s (.error e) s') : F e s' := by
  unfold KeepsE at h
  exact h.runs hr

theorem KeepsE.mono {I' : S → Prop} {Q' : α → S → Prop} {F' : ε → S → Prop}
    {x : ExceptT ε (Prog E) α} {s : S} (h : KeepsE R I Q F x s) (hI : ∀ s, I s → I' s)
    (hQ : ∀ a s, I s → Q a s → Q' a s) (hF : ∀ e s, I s → F e s → F' e s) :
    KeepsE R I' Q' F' x s := by
  refine Keeps.mono h hI ?_
  intro r s' hi hr
  cases r with
  | ok a => exact hQ a s' hi hr
  | error e => exact hF e s' hi hr

/-- A loop: `P` of what is left is kept by every round. -/
theorem keepsE_forM {f : β → ExceptT ε (Prog E) PUnit} {P : List β → S → Prop} (hI : ∀ s, P [] s → I s) :
    ∀ (bs : List β), (∀ b rest, b :: rest <:+ bs → ∀ s, P (b :: rest) s →
      KeepsE R I (fun _ s' => P rest s') F (f b) s) →
    ∀ s, P bs s → KeepsE R I (fun _ s' => P [] s') F (bs.forM f) s
  | [], _, s, h => keepsE_pure.mpr ⟨hI s h, h⟩
  | b :: bs, hstep, s, h => by
    change KeepsE R I _ F (f b >>= fun _ => bs.forM f) s
    have hbs : ∀ c rest, c :: rest <:+ bs → ∀ s, P (c :: rest) s →
        KeepsE R I (fun _ s' => P rest s') F (f c) s := fun c rest hc => hstep c rest (hc.trans (bs.suffix_cons b))
    rw [keepsE_bind]
    exact (hstep b bs (List.suffix_refl _) s h).mono (fun _ hi => hi)
      (fun _ s' _ h' => keepsE_forM hI bs hbs s' h') fun _ _ _ hf => hf

/-- A loop that carries a value. -/
theorem keepsE_foldlM {f : α → β → ExceptT ε (Prog E) α} {P : List β → α → S → Prop}
    (hI : ∀ a s, P [] a s → I s) :
    ∀ (bs : List β), (∀ b rest, b :: rest <:+ bs → ∀ a s, P (b :: rest) a s →
      KeepsE R I (fun a' s' => P rest a' s') F (f a b) s) →
    ∀ a s, P bs a s → KeepsE R I (fun a' s' => P [] a' s') F (bs.foldlM f a) s
  | [], _, a, s, h => keepsE_pure.mpr ⟨hI a s h, h⟩
  | b :: bs, hstep, a, s, h => by
    have hbs : ∀ c rest, c :: rest <:+ bs → ∀ a s, P (c :: rest) a s →
        KeepsE R I (fun a' s' => P rest a' s') F (f a c) s :=
      fun c rest hc => hstep c rest (hc.trans (bs.suffix_cons b))
    rw [List.foldlM_cons, keepsE_bind]
    exact (hstep b bs (List.suffix_refl _) a s h).mono (fun _ hi => hi)
      (fun a' s' _ h' => keepsE_foldlM hI bs hbs a' s' h') fun _ _ _ hf => hf

end except

/-! ## Running a program on a handler -/

namespace Prog
variable {E : Sig} {S α β : Type}

/-- The answer and the last state of `p` run on the handler `h`. -/
def eval (h : Handler E S) : Prog E α → S → α × S
  | .ret a, s => (a, s)
  | .op o k, s => (k (h o s).1).eval h (h o s).2

variable {h : Handler E S}

@[simp] theorem eval_ret (a : α) (s : S) : (Prog.ret a : Prog E α).eval h s = (a, s) := rfl
@[simp] theorem eval_op (o : E.Op) (k : E.Ans o → Prog E α) (s : S) :
    (Prog.op o k).eval h s = (k (h o s).1).eval h (h o s).2 := rfl
@[simp] theorem eval_bind (p : Prog E α) (f : α → Prog E β) (s : S) :
    (p >>= f).eval h s = (f (p.eval h s).1).eval h (p.eval h s).2 := by
  induction p generalizing s with
  | ret a => rfl
  | op o k ih => exact ih _ _

theorem runs_iff_eval {p : Prog E α} {s s' : S} {a : α} :
    Runs h.sem p s a s' ↔ p.eval h s = (a, s') := by
  induction p generalizing s with
  | ret b =>
    constructor
    · intro hr; cases hr; rfl
    · intro he; simp only [eval_ret, Prod.mk.injEq] at he; obtain ⟨rfl, rfl⟩ := he; exact .ret
  | op o k ih =>
    constructor
    · intro hr
      cases hr with
      | op ho hk =>
        simp only [Handler.sem] at ho
        rw [eval_op, ho]
        exact (ih _).1 hk
    · intro he
      exact .op (show h.sem o s (h o s).1 (h o s).2 from rfl) ((ih _).2 he)

theorem yields_eval (p : Prog E α) (s : S) : Yields p (p.eval h s).1 := by
  induction p generalizing s with
  | ret a => rfl
  | op o k ih => exact ⟨(h o s).1, ih _ _⟩

theorem runs_eval (p : Prog E α) (s : S) : Runs h.sem p s (p.eval h s).1 (p.eval h s).2 := runs_iff_eval.mpr rfl

/-- The state in which a run on the handler is cut after at most `n` operations. -/
def cut (h : Handler E S) : Nat → Prog E α → S → S
  | n + 1, .op o k, s => cut h n (k (h o s).1) (h o s).2
  | _, _, s => s

theorem visits_cut (n : Nat) (p : Prog E α) (s : S) : Visits h.sem p s (cut h n p s) := by
  induction n generalizing p s with
  | zero => exact .cut
  | succ n ih =>
    cases p with
    | ret a => exact .cut
    | op o k => exact .op (show h.sem o s (h o s).1 (h o s).2 from rfl) (ih _ _)

end Prog

/-! ## Programs in terms of other operations -/

namespace Prog
variable {E F : Sig} {S T τ α β : Type}

/-- `p` with each operation replaced by a program of other operations. -/
def hoist (f : (o : E.Op) → Prog F (E.Ans o)) : Prog E α → Prog F α
  | .ret a => .ret a
  | .op o k => f o >>= fun a => (k a).hoist f

/-- The same where the replacing programs keep a value from one operation to the next. -/
def interp (f : (o : E.Op) → τ → Prog F (E.Ans o × τ)) : Prog E α → τ → Prog F (α × τ)
  | .ret a, t => .ret (a, t)
  | .op o k, t => f o t >>= fun r => (k r.1).interp f r.2

theorem hoist_bind (f : (o : E.Op) → Prog F (E.Ans o)) (p : Prog E α) (g : α → Prog E β) :
    (p >>= g).hoist f = p.hoist f >>= fun a => (g a).hoist f := by
  induction p with
  | ret a => rfl
  | op o k ih => simp only [bind_op, hoist, ih, bind_assoc']

theorem interp_bind (f : (o : E.Op) → τ → Prog F (E.Ans o × τ)) (p : Prog E α) (g : α → Prog E β) (t : τ) :
    (p >>= g).interp f t = p.interp f t >>= fun r => (g r.1).interp f r.2 := by
  induction p generalizing t with
  | ret a => rfl
  | op o k ih => simp only [bind_op, interp, ih, bind_assoc']

end Prog

section hoist
variable {E F : Sig} {S α : Type} {P : E.Op → Prop} {P' : F.Op → Prop} {Q : α → Prop}
  {f : (o : E.Op) → Prog F (E.Ans o)}

theorem Within.hoist {p : Prog E α} (h : Within P Q p) (hf : ∀ o, P o → Within P' (fun _ => True) (f o)) :
    Within P' Q (p.hoist f) := by
  induction p with
  | ret a => exact h
  | op o k ih => exact within_bind.mpr ((hf o h.1).mono fun a _ => ih a (h.2 a))

theorem Within.interp {τ : Type} {f : (o : E.Op) → τ → Prog F (E.Ans o × τ)} {p : Prog E α} (h : Within P Q p)
    (hf : ∀ o t, P o → Within P' (fun _ => True) (f o t)) (t : τ) : Within P' (fun r => Q r.1) (p.interp f t) := by
  induction p generalizing t with
  | ret a => exact h
  | op o k ih => exact within_bind.mpr ((hf o t h.1).mono fun r _ => ih r.1 (h.2 r.1) r.2)

/-- What holds of every way the operations go holds when each is replaced by a program that goes no other way. -/
theorem Keeps.hoist {R : Sem E S} {R' : Sem F S} {I : S → Prop} {Q : α → S → Prop} {p : Prog E α} {s : S}
    (h : Keeps R I Q p s)
    (hf : ∀ o s, I s → (∀ a s', R o s a s' → I s') → Keeps R' I (fun a s' => R o s a s') (f o) s) :
    Keeps R' I Q (p.hoist f) s := by
  induction p generalizing s with
  | ret a => exact h
  | op o k ih =>
    refine keeps_bind.mpr ((hf o s h.1 fun a s' hr => (h.2 a s' hr).now).post ?_)
    intro a s' _ hr
    exact ih a (h.2 a s' hr)

end hoist

/-! ## Where an operation is asked for

`Guards R T Q p s` is `Keeps` with an eye on the operations: from `s`, each operation is
asked for in a state that `T` allows it in, and every answer comes in a state satisfying `Q`. -/

/-- `p` run from `s` may ask for `o` in state `s'`. -/
inductive Asks {E : Sig} {S α : Type} (R : Sem E S) : Prog E α → S → E.Op → S → Prop
  | here : Asks R (.op o k) s o s
  | op : R o s a s' → Asks R (k a) s' o' s'' → Asks R (.op o k) s o' s''

/-- `p` run from `s` may come to state `s'` with `q` left to run. -/
inductive Leads {E : Sig} {S α : Type} (R : Sem E S) : Prog E α → S → Prog E α → S → Prop
  | here : Leads R p s p s
  | op : R o s a s' → Leads R (k a) s' q s'' → Leads R (.op o k) s q s''

section leads
variable {E : Sig} {S α β : Type} {R : Sem E S} {p : Prog E β} {f : β → Prog E α} {s s' s'' : S} {b : β}

theorem Leads.bind {q : Prog E α} (hp : Runs R p s b s') (h : Leads R (f b) s' q s'') : Leads R (p >>= f) s q s'' := by
  induction hp with
  | ret => exact h
  | op hr _ ih => exact .op hr (ih h)

theorem Leads.left {q : Prog E β} (h : Leads R p s q s') (f : β → Prog E α) : Leads R (p >>= f) s (q >>= f) s' := by
  induction h with
  | here => exact .here
  | op hr _ ih => exact .op hr ih

theorem Asks.left {o : E.Op} (h : Asks R p s o s') (f : β → Prog E α) : Asks R (p >>= f) s o s' := by
  induction h with
  | here => exact .here
  | op hr _ ih => exact .op hr ih

theorem Asks.bind {o : E.Op} (hp : Runs R p s b s') (h : Asks R (f b) s' o s'') : Asks R (p >>= f) s o s'' := by
  induction hp with
  | ret => exact h
  | op hr _ ih => exact .op hr (ih h)

end leads

def Guards {E : Sig} {S α : Type} (R : Sem E S) (T : E.Op → S → Prop) (Q : α → S → Prop) : Prog E α → S → Prop
  | .ret a, s => Q a s
  | .op o k, s => T o s ∧ ∀ a s', R o s a s' → Guards R T Q (k a) s'

section guards
variable {E : Sig} {S α β : Type} {R : Sem E S} {T : E.Op → S → Prop} {Q Q' : α → S → Prop}

theorem Guards.asks {p : Prog E α} {s s' : S} {o : E.Op} (h : Guards R T Q p s) (ha : Asks R p s o s') : T o s' := by
  induction ha with
  | here => exact h.1
  | op hr _ ih => exact ih (h.2 _ _ hr)

theorem Guards.runs {p : Prog E α} {s s' : S} {a : α} (h : Guards R T Q p s) (hr : Runs R p s a s') : Q a s' := by
  induction hr with
  | ret => exact h
  | op hr _ ih => exact ih (h.2 _ _ hr)

theorem Guards.post {p : Prog E α} {s : S} (h : Guards R T Q p s) (hQ : ∀ a s, Q a s → Q' a s) :
    Guards R T Q' p s := by
  induction p generalizing s with
  | ret a => exact hQ a s h
  | op o k ih => exact ⟨h.1, fun a s' hr => ih a (h.2 a s' hr)⟩

theorem Guards.and {T' : E.Op → S → Prop} {p : Prog E α} {s : S} (h : Guards R T Q p s) (h' : Guards R T' Q' p s) :
    Guards R T (fun a s => Q a s ∧ Q' a s) p s := by
  induction p generalizing s with
  | ret a => exact ⟨h, h'⟩
  | op o k ih => exact ⟨h.1, fun a s' hr => ih a (h.2 a s' hr) (h'.2 a s' hr)⟩

theorem guards_bind {p : Prog E β} {f : β → Prog E α} {s : S} :
    Guards R T Q (p >>= f) s ↔ Guards R T (fun b s' => Guards R T Q (f b) s') p s := by
  induction p generalizing s with
  | ret b => exact Iff.rfl
  | op o k ih => exact and_congr_right fun _ => forall₃_congr fun a s' _ => ih a

/-- A loop: `P` of what is left is kept by every round. -/
theorem guards_forM {f : β → Prog E PUnit} {P : List β → S → Prop} :
    ∀ (bs : List β), (∀ b rest s, P (b :: rest) s → Guards R T (fun _ s' => P rest s') (f b) s) →
    ∀ s, P bs s → Guards R T (fun _ s' => P [] s') (bs.forM f) s
  | [], _, _, h => h
  | b :: bs, hstep, s, h => by
    change Guards R T _ (f b >>= fun _ => bs.forM f) s
    exact guards_bind.mpr ((hstep b bs s h).post fun _ s' h' => guards_forM bs hstep s' h')

/-- What every operation of `P` is allowed in and keeps, a program within `P` keeps. -/
theorem Within.guards {P : E.Op → Prop} {Q : α → Prop} {I : S → Prop} {p : Prog E α} {s : S} (h : Within P Q p)
    (hT : ∀ o s, P o → I s → T o s) (hP : ∀ o s a s', P o → I s → R o s a s' → I s') (hI : I s) :
    Guards R T (fun a s' => I s' ∧ Q a) p s := by
  induction p generalizing s with
  | ret a => exact ⟨hI, h⟩
  | op o k ih => exact ⟨hT o s h.1 hI, fun a s' hr => ih a (h.2 a) (hP o s a s' h.1 hI hr)⟩

/-- A part of a larger program that has its operations under other names. -/
theorem Guards.hoist {F : Sig} {R' : Sem F S} {T' : F.Op → S → Prop} {f : (o : E.Op) → Prog F (E.Ans o)}
    {p : Prog E α} {s : S} (h : Guards R T Q p s)
    (hf : ∀ o s, T o s → Guards R' T' (fun a s' => R o s a s') (f o) s) : Guards R' T' Q (p.hoist f) s := by
  induction p generalizing s with
  | ret a => exact h
  | op o k ih => exact guards_bind.mpr ((hf o s h.1).post fun a s' hr => ih a (h.2 a s' hr))

/-- `Guards` of a program that may fail: `Q` for a result, `F` for a failure. -/
def GuardsE {ε : Type} (R : Sem E S) (T : E.Op → S → Prop) (Q : α → S → Prop) (F : ε → S → Prop)
    (x : ExceptT ε (Prog E) α) (s : S) : Prop :=
  Guards R T (fun r s' => match r with | .ok a => Q a s' | .error e => F e s') x.run s

section
variable {ε : Type} {F : ε → S → Prop}

theorem guardsE_bind {x : ExceptT ε (Prog E) β} {f : β → ExceptT ε (Prog E) α} {s : S} :
    GuardsE R T Q F (x >>= f) s ↔ GuardsE R T (fun b s' => GuardsE R T Q F (f b) s') F x s := by
  unfold GuardsE
  rw [ExceptT.run_bind, guards_bind]
  constructor
  · intro h
    refine h.post ?_
    intro r s' hr
    cases r with
    | ok b => exact hr
    | error e => exact hr
  · intro h
    refine h.post ?_
    intro r s' hr
    cases r with
    | ok b => exact hr
    | error e => exact hr

theorem GuardsE.post {x : ExceptT ε (Prog E) α} {s : S} (h : GuardsE R T Q F x s) (hQ : ∀ a s, Q a s → Q' a s) :
    GuardsE R T Q' F x s := by
  refine Guards.post h ?_
  intro r s' hr
  cases r with
  | ok a => exact hQ a s' hr
  | error e => exact hr

end

theorem Asks.mono {R' : Sem E S} {p : Prog E α} {s s' : S} {o : E.Op} (h : Asks R p s o s')
    (hR : ∀ o s a s', R o s a s' → R' o s a s') : Asks R' p s o s' := by
  induction h with
  | here => exact .here
  | op hr _ ih => exact .op (hR _ _ _ _ hr) ih

namespace Prog
variable {h : Handler E S}

/-- What a run on the handler asks for after `n` operations, and in which state. -/
def asked (h : Handler E S) : Nat → Prog E α → S → Option (E.Op × S)
  | 0, .op o _, s => some (o, s)
  | n + 1, .op o k, s => asked h n (k (h o s).1) (h o s).2
  | _, .ret _, _ => none

theorem asks_asked {n : Nat} {p : Prog E α} {s s' : S} {o : E.Op} (ha : asked h n p s = some (o, s')) :
    Asks h.sem p s o s' := by
  induction n generalizing p s with
  | zero =>
    cases p with
    | ret a => cases ha
    | op o' k =>
      cases ha
      exact .here
  | succ n ih =>
    cases p with
    | ret a => cases ha
    | op o' k => exact .op (show h.sem o' s (h o' s).1 (h o' s).2 from rfl) (ih ha)

end Prog

end guards

/-! ## Repeating a program

`body` says how a round goes from where it starts: it ends with where the next one
starts, or with a result. -/

section repeats
variable {E : Sig} {S σ α : Type}

/-- The rounds from `x` on come to the result `a`. -/
inductive Repeats (R : Sem E S) (body : σ → Prog E (σ ⊕ α)) : σ → S → α → S → Prop
  | last {x : σ} {s s' : S} {a : α} : Runs R (body x) s (.inr a) s' → Repeats R body x s a s'
  | next {x y : σ} {s s' s'' : S} {a : α} : Runs R (body x) s (.inl y) s' → Repeats R body y s' a s'' →
      Repeats R body x s a s''

/-- The rounds from `x` on may be cut in state `s'`. -/
inductive Passes (R : Sem E S) (body : σ → Prog E (σ ⊕ α)) : σ → S → S → Prop
  | here {x : σ} {s s' : S} : Visits R (body x) s s' → Passes R body x s s'
  | next {x y : σ} {s s' s'' : S} : Runs R (body x) s (.inl y) s' → Passes R body y s' s'' → Passes R body x s s''

/-- The rounds from `x` on may ask for `o` in state `s'`. -/
inductive Poses (R : Sem E S) (body : σ → Prog E (σ ⊕ α)) : σ → S → E.Op → S → Prop
  | here {x : σ} {s s' : S} {o : E.Op} : Asks R (body x) s o s' → Poses R body x s o s'
  | next {x y : σ} {s s' s'' : S} {o : E.Op} : Runs R (body x) s (.inl y) s' → Poses R body y s' o s'' →
      Poses R body x s o s''

variable {R : Sem E S} {I : S → Prop} {start : σ → S → Prop} {result : α → S → Prop} {body : σ → Prog E (σ ⊕ α)}

/-- How a round ends: the next one may start, or the result is as it should be. -/
def EndsAt (start : σ → S → Prop) (result : α → S → Prop) : σ ⊕ α → S → Prop
  | .inl x => start x
  | .inr a => result a

theorem Repeats.done {x : σ} {s s' : S} {a : α} (hr : Repeats R body x s a s')
    (hbody : ∀ x s, start x s → Keeps R I (EndsAt start result) (body x) s) (h : start x s) : result a s' := by
  induction hr with
  | last hr => exact (hbody _ _ h).runs hr
  | next hr _ ih => exact ih ((hbody _ _ h).runs hr)

theorem Passes.kept {x : σ} {s s' : S} (hp : Passes R body x s s')
    (hbody : ∀ x s, start x s → Keeps R I (EndsAt start result) (body x) s) (h : start x s) : I s' := by
  induction hp with
  | here hv => exact (hbody _ _ h).visits hv
  | next hr _ ih => exact ih ((hbody _ _ h).runs hr)

section
variable {T : E.Op → S → Prop} {x : σ} {s s' : S}

theorem Repeats.guarded {a : α} (hr : Repeats R body x s a s')
    (hbody : ∀ x s, start x s → Guards R T (EndsAt start result) (body x) s) (h : start x s) : result a s' := by
  induction hr with
  | last hr => exact (hbody _ _ h).runs hr
  | next hr _ ih => exact ih ((hbody _ _ h).runs hr)

theorem Poses.guarded {o : E.Op} (hc : Poses R body x s o s')
    (hbody : ∀ x s, start x s → Guards R T (EndsAt start result) (body x) s) (h : start x s) : T o s' := by
  induction hc with
  | here ha => exact (hbody _ _ h).asks ha
  | next hr _ ih => exact ih ((hbody _ _ h).runs hr)

end

end repeats

end Effect
