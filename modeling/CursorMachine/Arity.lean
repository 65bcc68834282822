/-!
# Arities

How many parameters an instruction takes: none, an exact number, or one of several numbers.
-/

namespace CursorMachine

/-- A set of parameter counts. -/
inductive Arity where
  | none
  | exactly (n : Nat)
  | oneOf (ns : List Nat)
  deriving DecidableEq, Repr

namespace Arity

/-- The arity allows this number of parameters. -/
def accepts : Arity → Nat → Bool
  | .none, count => count == 0
  | .exactly n, count => count == n
  | .oneOf ns, count => ns.contains count

/-- The arity in words, as messages give it. -/
def text : Arity → String
  | .none => "no"
  | .exactly n => toString n
  | .oneOf ns => " or ".intercalate (ns.map toString)

end Arity

end CursorMachine
