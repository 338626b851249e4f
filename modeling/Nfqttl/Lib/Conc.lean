/-
Processes side by side: any number of them over one shared state, each a program that
repeats, started and killed at any time, one operation of any of them after the other.

A proof gives each process its terms: what holds of the shared state always (`inv`), what
a step of the process does to it at most (`guar`), and what holds whenever the process
asks for an operation (`asks`). A process relies on no more than what the others
guarantee. `Safe` says that a program keeps to its terms under that, and `Safe` of all
programs makes the terms hold in every interleaving (`Reach.sound`).
-/
import Mathlib.Logic.Function.Basic
import Mathlib.Logic.Relation
import Nfqttl.Lib.Prog

namespace Effect

open Relation

variable {E : Sig} {σ α β S : Type}

/-! ## Processes -/

/-- What the processes run, and what their operations, starts and ends do. -/
structure System (E : Sig) (σ α S : Type) where
  /-- One round of a process, from where it starts. -/
  body : σ → Prog E (σ ⊕ α)
  does : Nat → Sem E S
  /-- A process starts. -/
  born : Nat → σ → S → S → Prop
  /-- A process ends, with a result or killed. -/
  gone : Nat → Option α → S → S → Prop
  /-- What is done by no process. -/
  env : S → S → Prop

/-- The shared state, and what each process has left of its round. -/
structure Procs (E : Sig) (σ α S : Type) where
  shared : S
  left : Nat → Option (Prog E (σ ⊕ α))

namespace System
variable (Y : System E σ α S)

inductive Step (c : Procs E σ α S) : Procs E σ α S → Prop
  | born {pid : Nat} {x : σ} {s : S} : c.left pid = none → Y.born pid x c.shared s →
      Step c ⟨s, Function.update c.left pid (some (Y.body x))⟩
  | act {pid : Nat} {o : E.Op} {k : E.Ans o → Prog E (σ ⊕ α)} {a : E.Ans o} {s : S} :
      c.left pid = some (.op o k) → Y.does pid o c.shared a s → Step c ⟨s, Function.update c.left pid (some (k a))⟩
  | again {pid : Nat} {x : σ} : c.left pid = some (.ret (.inl x)) →
      Step c ⟨c.shared, Function.update c.left pid (some (Y.body x))⟩
  | ended {pid : Nat} {a : α} {s : S} : c.left pid = some (.ret (.inr a)) → Y.gone pid (some a) c.shared s →
      Step c ⟨s, Function.update c.left pid none⟩
  | killed {pid : Nat} {p : Prog E (σ ⊕ α)} {s : S} : c.left pid = some p → Y.gone pid none c.shared s →
      Step c ⟨s, Function.update c.left pid none⟩
  | env {s : S} : Y.env c.shared s → Step c ⟨s, c.left⟩

/-- No process runs. -/
def start (s : S) : Procs E σ α S := ⟨s, fun _ => none⟩

/-- What any interleaving reaches from a state without processes. -/
def Reach (s : S) (c : Procs E σ α S) : Prop := ReflTransGen Y.Step (start s) c

end System

/-- `p` run from `s` may come to have `p'` left in state `s'`. -/
inductive Comes {α : Type} (R : Sem E S) : Prog E α → S → Prog E α → S → Prop
  | here {p : Prog E α} {s : S} : Comes R p s p s
  | op {o : E.Op} {k : E.Ans o → Prog E α} {p : Prog E α} {s s' s'' : S} {a : E.Ans o} : R o s a s' →
      Comes R (k a) s' p s'' → Comes R (.op o k) s p s''

/-- The other processes may wait while one goes on. -/
theorem Comes.steps {Y : System E σ α S} {pid : Nat} {p p' : Prog E (σ ⊕ α)} {s s' : S}
    (h : Comes (Y.does pid) p s p' s') {c : Procs E σ α S} (hleft : c.left pid = some p) (hs : c.shared = s) :
    ReflTransGen Y.Step c ⟨s', Function.update c.left pid (some p')⟩ := by
  induction h generalizing c with
  | here =>
    rw [← hleft, Function.update_eq_self, ← hs]
  | @op o k p s s' s'' a hr _ ih =>
    rw [← hs] at hr
    have hstep : Y.Step c ⟨s', Function.update c.left pid (some (k a))⟩ := .act hleft hr
    have hsteps := ih (Function.update_self ..) rfl (c := ⟨s', Function.update c.left pid (some (k a))⟩)
    rw [Function.update_idem] at hsteps
    exact .head hstep hsteps

theorem Comes.reach {Y : System E σ α S} {pid : Nat} {p p' : Prog E (σ ⊕ α)} {s s' s₀ : S}
    (h : Comes (Y.does pid) p s p' s') {c : Procs E σ α S} (hc : Y.Reach s₀ c) (hleft : c.left pid = some p)
    (hs : c.shared = s) : ∃ c', Y.Reach s₀ c' ∧ ReflTransGen Y.Step c c' ∧ c'.left pid = some p' ∧ c'.shared = s' :=
  ⟨_, hc.trans (h.steps hleft hs), h.steps hleft hs, Function.update_self .., rfl⟩

/-- One round, and the next one begun. -/
theorem Comes.again {Y : System E σ α S} {pid : Nat} {x y : σ} {s s' s₀ : S}
    (h : Comes (Y.does pid) (Y.body x) s (.ret (.inl y)) s') {c : Procs E σ α S} (hc : Y.Reach s₀ c)
    (hleft : c.left pid = some (Y.body x)) (hs : c.shared = s) :
    Y.Reach s₀ ⟨s', Function.update c.left pid (some (Y.body y))⟩ := by
  have hagain := (hc.trans (h.steps hleft hs)).tail (.again (Function.update_self ..))
  rwa [Function.update_idem] at hagain

/-! ## Terms -/

structure Terms (E : Sig) (S : Type) where
  inv : S → Prop
  guar : Nat → S → S → Prop
  asks : Nat → E.Op → S → Prop

section safe
variable (Y : System E σ α S) (T : Terms E S) (pid : Nat)

/-- A step of the others, as process `pid` may rely on it. -/
def Rely (s s' : S) : Prop := T.inv s ∧ T.inv s' ∧ ((∃ q, q ≠ pid ∧ T.guar q s s') ∨ Y.env s s')

/-- What no step of the others makes false. -/
def Stable (A : S → Prop) : Prop := ∀ s s', Rely Y T pid s s' → A s → A s'

/-- Whatever the others do in between, `p` keeps to the terms from `s` on and comes to its end with `Q`. -/
def Safe (Q : β → S → Prop) : Prog E β → S → Prop
  | .ret a, s => ∀ s', ReflTransGen (Rely Y T pid) s s' → T.inv s' → Q a s'
  | .op o k, s => ∀ s', ReflTransGen (Rely Y T pid) s s' → T.inv s' →
      T.asks pid o s' ∧ ∀ a s'', Y.does pid o s' a s'' → T.inv s'' ∧ T.guar pid s' s'' ∧ Safe Q (k a) s''

variable {Y T pid} {γ : Type} {A : S → Prop} {Q Q' : β → S → Prop} {s s' : S}

theorem Stable.and {B : S → Prop} (hA : Stable Y T pid A) (hB : Stable Y T pid B) :
    Stable Y T pid fun s => A s ∧ B s := fun s s' hr h => ⟨hA s s' hr h.1, hB s s' hr h.2⟩

theorem Stable.star (hA : Stable Y T pid A) (hr : ReflTransGen (Rely Y T pid) s s') (h : A s) : A s' := by
  induction hr with
  | refl => exact h
  | tail _ hr ih => exact hA _ _ hr ih

theorem Safe.stable {p : Prog E β} (h : Safe Y T pid Q p s) (hr : ReflTransGen (Rely Y T pid) s s') :
    Safe Y T pid Q p s' := by
  cases p with
  | ret a => exact fun s'' hr' => h s'' (hr.trans hr')
  | op o k => exact fun s'' hr' => h s'' (hr.trans hr')

theorem safe_later {p : Prog E β} (h : ∀ s', ReflTransGen (Rely Y T pid) s s' → T.inv s' → Safe Y T pid Q p s') :
    Safe Y T pid Q p s := by
  cases p with
  | ret a => exact fun s' hr hi => h s' hr hi s' .refl hi
  | op o k => exact fun s' hr hi => h s' hr hi s' .refl hi

theorem Safe.mono {p : Prog E β} (h : Safe Y T pid Q p s) (hQ : ∀ a s, T.inv s → Q a s → Q' a s) :
    Safe Y T pid Q' p s := by
  induction p generalizing s with
  | ret a => exact fun s' hr hi => hQ a s' hi (h s' hr hi)
  | op o k ih =>
    intro s' hr hi
    obtain ⟨hasks, hdoes⟩ := h s' hr hi
    refine ⟨hasks, ?_⟩
    intro a s'' hd
    obtain ⟨hi', hguar, hk⟩ := hdoes a s'' hd
    exact ⟨hi', hguar, ih a hk⟩

/-- An end in a state with `A`, which lasts. -/
theorem safe_ret {a : β} (hA : Stable Y T pid A) (h : A s) (hQ : ∀ s, T.inv s → A s → Q a s) :
    Safe Y T pid Q (.ret a) s := fun s' hr hi => hQ s' hi (hA.star hr h)

/-- An operation asked for in a state with `A`, which lasts. -/
theorem safe_op {o : E.Op} {k : E.Ans o → Prog E β} (hA : Stable Y T pid A) (h : A s)
    (ho : ∀ s, T.inv s → A s → T.asks pid o s ∧
      ∀ a s', Y.does pid o s a s' → T.inv s' ∧ T.guar pid s s' ∧ Safe Y T pid Q (k a) s') :
    Safe Y T pid Q (.op o k) s := fun s' hr hi => ho s' hi (hA.star hr h)

theorem safe_bind {p : Prog E γ} {f : γ → Prog E β} :
    Safe Y T pid (fun b s' => Safe Y T pid Q (f b) s') p s → Safe Y T pid Q (p >>= f) s := by
  induction p generalizing s with
  | ret b => exact safe_later
  | op o k ih =>
    intro h s' hr hi
    obtain ⟨hasks, hdoes⟩ := h s' hr hi
    refine ⟨hasks, ?_⟩
    intro a s'' hd
    obtain ⟨hi', hguar, hk⟩ := hdoes a s'' hd
    exact ⟨hi', hguar, ih a hk⟩

/-- Operations that all keep `A` are asked for in states with `A` only. -/
theorem Within.safe {P : E.Op → Prop} {R : β → Prop} {p : Prog E β} (hp : Within P R p) (hA : Stable Y T pid A)
    (ho : ∀ o s, P o → T.inv s → A s → T.asks pid o s ∧
      ∀ a s', Y.does pid o s a s' → T.inv s' ∧ T.guar pid s s' ∧ A s') (h : A s) :
    Safe Y T pid (fun a s' => A s' ∧ R a) p s := by
  induction p generalizing s with
  | ret a => exact safe_ret hA h fun s' _ hs => ⟨hs, hp⟩
  | op o k ih =>
    refine safe_op hA h fun s' hi hs => ?_
    obtain ⟨hasks, hdoes⟩ := ho o s' hp.1 hi hs
    refine ⟨hasks, ?_⟩
    intro a s'' hd
    obtain ⟨hi', hguar, hs'⟩ := hdoes a s'' hd
    exact ⟨hi', hguar, ih a (hp.2 a) hs'⟩

end safe

/-! ## All processes together -/

/-- What makes the terms of the processes hold together: `start` and `result` are what a
round begins and ends with, `dead` holds of a process that does not run. -/
structure Sound (Y : System E σ α S) (T : Terms E S) (start : Nat → σ → S → Prop) (result : Nat → α → S → Prop)
    (dead : Nat → S → Prop) : Prop where
  body : ∀ pid x s, T.inv s → start pid x s → Safe Y T pid (EndsAt (start pid) (result pid)) (Y.body x) s
  born : ∀ pid x s s', T.inv s → dead pid s → Y.born pid x s s' → T.inv s' ∧ T.guar pid s s' ∧ start pid x s'
  ended : ∀ pid a s s', T.inv s → result pid a s → Y.gone pid (some a) s s' → T.inv s' ∧ T.guar pid s s' ∧ dead pid s'
  killed : ∀ pid s s', T.inv s → Y.gone pid none s s' → T.inv s' ∧ T.guar pid s s' ∧ dead pid s'
  env : ∀ s s', T.inv s → Y.env s s' → T.inv s'
  dead : ∀ pid, Stable Y T pid (dead pid)

section sound
variable {Y : System E σ α S} {T : Terms E S} {start : Nat → σ → S → Prop} {result : Nat → α → S → Prop}
  {dead : Nat → S → Prop}

/-- A process keeps to its terms, or does not run. -/
def Proceeds (Y : System E σ α S) (T : Terms E S) (start : Nat → σ → S → Prop) (result : Nat → α → S → Prop)
    (dead : Nat → S → Prop) (pid : Nat) (s : S) : Option (Prog E (σ ⊕ α)) → Prop
  | none => dead pid s
  | some p => Safe Y T pid (EndsAt (start pid) (result pid)) p s

theorem Proceeds.stable (h : Sound Y T start result dead) {pid : Nat} {s s' : S} {p : Option (Prog E (σ ⊕ α))}
    (hp : Proceeds Y T start result dead pid s p) (hr : Rely Y T pid s s') :
    Proceeds Y T start result dead pid s' p := by
  cases p with
  | none => exact h.dead pid s s' hr hp
  | some p => exact Safe.stable hp (.single hr)

/-- The invariant holds and every process proceeds. -/
structure Orderly (Y : System E σ α S) (T : Terms E S) (start : Nat → σ → S → Prop) (result : Nat → α → S → Prop)
    (dead : Nat → S → Prop) (c : Procs E σ α S) : Prop where
  inv : T.inv c.shared
  procs : ∀ pid, Proceeds Y T start result dead pid c.shared (c.left pid)

/-- A step of `pid` that keeps to its terms leaves the others as they were. -/
theorem Orderly.update (h : Sound Y T start result dead) {c : Procs E σ α S}
    (hc : Orderly Y T start result dead c) {pid : Nat} {s : S} {p : Option (Prog E (σ ⊕ α))} (hi : T.inv s)
    (hguar : T.guar pid c.shared s) (hp : Proceeds Y T start result dead pid s p) :
    Orderly Y T start result dead ⟨s, Function.update c.left pid p⟩ := by
  refine ⟨hi, ?_⟩
  intro q
  dsimp only
  by_cases hq : q = pid
  · rw [hq, Function.update_self]
    exact hp
  · rw [Function.update_of_ne hq]
    exact (hc.procs q).stable h ⟨hc.inv, hi, .inl ⟨pid, Ne.symm hq, hguar⟩⟩

/-- One step, of any process or of none: the terms hold after it, and what it did is what they allow. -/
theorem Orderly.step (h : Sound Y T start result dead) (hrefl : ∀ pid s, T.guar pid s s) {c c' : Procs E σ α S}
    (hc : Orderly Y T start result dead c) (hs : Y.Step c c') :
    Orderly Y T start result dead c' ∧ ((∃ pid, T.guar pid c.shared c'.shared) ∨ Y.env c.shared c'.shared) := by
  cases hs with
  | @born pid x s hleft hborn =>
    have hdead := hc.procs pid
    rw [hleft] at hdead
    obtain ⟨hi, hguar, hstart⟩ := h.born pid x _ s hc.inv hdead hborn
    exact ⟨hc.update h hi hguar (h.body pid x s hi hstart), .inl ⟨pid, hguar⟩⟩
  | @act pid o k a s hleft hdoes =>
    have hsafe := hc.procs pid
    rw [hleft] at hsafe
    obtain ⟨hi, hguar, hk⟩ := (hsafe _ .refl hc.inv).2 a s hdoes
    exact ⟨hc.update h hi hguar hk, .inl ⟨pid, hguar⟩⟩
  | @again pid x hleft =>
    have hsafe := hc.procs pid
    rw [hleft] at hsafe
    have hstart := hsafe _ .refl hc.inv
    exact ⟨hc.update h hc.inv (hrefl pid _) (h.body pid x _ hc.inv hstart), .inl ⟨pid, hrefl pid _⟩⟩
  | @ended pid a s hleft hgone =>
    have hsafe := hc.procs pid
    rw [hleft] at hsafe
    obtain ⟨hi, hguar, hdead⟩ := h.ended pid a _ s hc.inv (hsafe _ .refl hc.inv) hgone
    exact ⟨hc.update h hi hguar hdead, .inl ⟨pid, hguar⟩⟩
  | @killed pid p s hleft hgone =>
    obtain ⟨hi, hguar, hdead⟩ := h.killed pid _ s hc.inv hgone
    exact ⟨hc.update h hi hguar hdead, .inl ⟨pid, hguar⟩⟩
  | @env s henv =>
    have hi := h.env _ s hc.inv henv
    refine ⟨⟨hi, ?_⟩, .inr henv⟩
    intro pid
    exact (hc.procs pid).stable h ⟨hc.inv, hi, .inr henv⟩

/-- Whatever the order of the steps, every process keeps to its terms. -/
theorem System.Reach.sound (h : Sound Y T start result dead) (hrefl : ∀ pid s, T.guar pid s s) {s : S}
    {c : Procs E σ α S} (hi : T.inv s) (hdead : ∀ pid, dead pid s) (hc : Y.Reach s c) :
    Orderly Y T start result dead c := by
  induction hc with
  | refl => exact ⟨hi, hdead⟩
  | tail _ hs ih => exact (ih.step h hrefl hs).1

/-- What a process asks for next, it may ask for. -/
theorem Orderly.asks {c : Procs E σ α S} (hc : Orderly Y T start result dead c) {pid : Nat} {o : E.Op}
    {k : E.Ans o → Prog E (σ ⊕ α)} (hleft : c.left pid = some (.op o k)) : T.asks pid o c.shared := by
  have hsafe := hc.procs pid
  rw [hleft] at hsafe
  exact (hsafe _ .refl hc.inv).1

end sound

end Effect
