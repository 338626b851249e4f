/-
Traces: what holds of every event of a run and the events before it.
-/
import Mathlib.Data.List.Basic

namespace Effect

variable {ε : Type} {P Q : List ε → ε → Prop} {t : List ε} {e : ε}

/-- `P` of the events before it and itself holds of every event of `t`. -/
def Always (P : List ε → ε → Prop) (t : List ε) : Prop := ∀ u e v, t = u ++ e :: v → P u e

theorem always_nil : Always P [] := fun u e v h => by simp at h

theorem always_snoc : Always P (t ++ [e]) ↔ Always P t ∧ P t e := by
  constructor
  · intro h
    exact ⟨fun u e' v heq => h u e' (v ++ [e]) (by simp [heq]), h t e [] rfl⟩
  · intro ⟨ht, he⟩ u e' v heq
    rcases List.eq_nil_or_concat v with rfl | ⟨v, e'', rfl⟩
    · obtain ⟨rfl, he'⟩ := List.append_inj' heq rfl
      cases he'
      exact he
    · have heq' : t ++ [e] = (u ++ e' :: v) ++ [e''] := by simpa using heq
      exact ht u e' v (List.append_inj' heq' rfl).1

theorem Always.mono (h : Always P t) (hQ : ∀ u e, P u e → Q u e) : Always Q t :=
  fun u e v heq => hQ u e (h u e v heq)

theorem Always.and (h : Always P t) (h' : Always Q t) : Always (fun u e => P u e ∧ Q u e) t :=
  fun u e v heq => ⟨h u e v heq, h' u e v heq⟩

end Effect
