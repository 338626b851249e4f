/-
`net.rs`: the downstream and upstream interfaces the daemon works with.
-/

namespace Nfqttl

structure Links where
  down : List String
  up : List String
  deriving DecidableEq, Repr

namespace Links

/-- `Links::default()`. -/
def default : Links := ⟨[], []⟩

def signature (l : Links) : String := " ".intercalate l.down ++ "|" ++ " ".intercalate l.up

def active (l : Links) : Bool := !l.down.isEmpty && !l.up.isEmpty

/-- The (down, up) pairs the rule loops go over, in their order, `i == o` skipped. -/
def pairs (l : Links) : List (String × String) :=
  l.down.flatMap fun i => (l.up.filter fun o => i != o).map fun o => (i, o)

end Links

end Nfqttl
