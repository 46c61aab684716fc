namespace ClassForge.Text

structure Style where
  attributes : List Nat
  deriving DecidableEq, Repr

namespace Style

/-- What takes an attribute back: 1 to 9 have a number of their own, colours share one. -/
def reset (n : Nat) : Nat :=
  if n = 1 || n = 2 then 22
  else if 3 ≤ n && n ≤ 5 then n + 20
  else if n = 6 then 25
  else if 7 ≤ n && n ≤ 9 then n + 20
  else 0

def sequence (ns : List Nat) : String := "\x1b[" ++ ";".intercalate (ns.map toString) ++ "m"

def apply (s : Style) (text : String) : String :=
  sequence s.attributes ++ text ++ sequence (s.attributes.map reset)

end Style

end ClassForge.Text
