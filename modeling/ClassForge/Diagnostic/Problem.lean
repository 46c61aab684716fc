import ClassForge.Diagnostic.Code

namespace ClassForge.Diagnostic

/-- Something that went wrong: a plain text, a coded failure with its cause, or a problem with words
in front. -/
inductive Problem
  | plain (text : String)
  | coded (code : Code) (message place : String) (cause : Option Problem)
  | wrapped (text : String) (inner : Problem)

namespace Problem

def text : Problem → String
  | .plain s => s
  | .coded c m "" _ => s!"{c.id}: {m}"
  | .coded c m p _ => s!"{c.id}: {p}: {m}"
  | .wrapped s p => s!"{s}: {p.text}"

def outer? : Problem → Option (Code × String × String)
  | .plain _ => none
  | .coded c m p _ => some (c, m, p)
  | .wrapped _ p => p.outer?

def code (p : Problem) : Code := (p.outer?.map (·.1)).getD .unknown

def root : Problem → Code
  | .plain _ => .unknown
  | .coded c _ _ none => c
  | .coded c _ _ (some q) => if c = .unusable then q.root else c
  | .wrapped _ p => p.root

def has (c : Code) : Problem → Bool
  | .plain _ => false
  | .coded d _ _ none => d = c
  | .coded d _ _ (some q) => d = c || q.has c
  | .wrapped _ p => p.has c

def located (place : String) : Problem → Problem
  | .coded c m "" cause => .coded c m place cause
  | p => p

end Problem

end ClassForge.Diagnostic
