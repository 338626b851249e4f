/-
Errors as the source's functions report them.
-/
namespace Nfqttl

inductive ErrorKind
  | invalidInput | invalidData | notFound | timedOut | interrupted | other
  deriving DecidableEq, Repr

/-- An `io::Error`: one of the program's own, or the last one of the system. -/
inductive IoError
  | new (kind : ErrorKind) (text : String)
  | last
  deriving DecidableEq, Repr

/-- A computation of two parts succeeds when both do. -/
theorem bind_eq_ok {ε α β : Type} {x : Except ε α} {f : α → Except ε β} {b : β} :
    x >>= f = .ok b ↔ ∃ a, x = .ok a ∧ f a = .ok b := by
  cases x <;> simp [bind, Except.bind]

end Nfqttl
