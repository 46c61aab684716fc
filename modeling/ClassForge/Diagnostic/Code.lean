namespace ClassForge.Diagnostic

structure Code where
  number : UInt16
  deriving DecidableEq, Repr

inductive Category
  | unknown | access | structural | typing | assembly | recipe
  deriving DecidableEq, Repr

def Category.name : Category → String
  | .unknown => "unknown"
  | .access => "access"
  | .structural => "syntax"
  | .typing => "type"
  | .assembly => "assembly"
  | .recipe => "recipe"

def Category.letters : Category → String
  | .unknown => "E"
  | .access => "ACC"
  | .structural => "SYN"
  | .typing => "TYP"
  | .assembly => "ASM"
  | .recipe => "REC"

namespace Code

def unknown : Code := ⟨0⟩

def noSuchClass : Code := ⟨1001⟩
def noSuchField : Code := ⟨1002⟩
def noSuchMethod : Code := ⟨1003⟩
def staticMismatch : Code := ⟨1004⟩
def invisible : Code := ⟨1005⟩
def unassignedLocal : Code := ⟨1006⟩
def noReceiver : Code := ⟨1007⟩
def finalAssign : Code := ⟨1008⟩

def scopeClosed : Code := ⟨2001⟩
def elseOutsideIf : Code := ⟨2002⟩
def catchOutsideTry : Code := ⟨2003⟩
def breakOutsideLoop : Code := ⟨2004⟩
def continueOutsideLoop : Code := ⟨2005⟩
def nodeReused : Code := ⟨2006⟩
def danglingExpr : Code := ⟨2007⟩
def tooManyLocals : Code := ⟨2008⟩
def unbalancedEnd : Code := ⟨2009⟩
def misplacedSuperCall : Code := ⟨2010⟩
def noBody : Code := ⟨2011⟩
def foreignNode : Code := ⟨2012⟩
def overlappingCatch : Code := ⟨2013⟩
def codeTooLarge : Code := ⟨2014⟩
def poolOverflow : Code := ⟨2015⟩
def branchTooFar : Code := ⟨2016⟩
def duplicateMember : Code := ⟨2017⟩
def patchUnderflow : Code := ⟨2018⟩
def methodClosed : Code := ⟨2019⟩

def operandMismatch : Code := ⟨3001⟩
def invalidCast : Code := ⟨3002⟩
def argumentMismatch : Code := ⟨3003⟩
def missingReturn : Code := ⟨3004⟩
def extraneousReturn : Code := ⟨3005⟩
def notAssignable : Code := ⟨3006⟩
def notThrowable : Code := ⟨3007⟩
def notArray : Code := ⟨3008⟩
def notIterable : Code := ⟨3009⟩
def unsupportedConstant : Code := ⟨3010⟩
def notBoolean : Code := ⟨3011⟩
def ambiguousCall : Code := ⟨3012⟩
def voidValue : Code := ⟨3013⟩

def methodOpen : Code := ⟨4001⟩
def abstractNotImplemented : Code := ⟨4002⟩
def unusable : Code := ⟨4003⟩
def finalized : Code := ⟨4004⟩
def badDeclaration : Code := ⟨4005⟩
def outputFailed : Code := ⟨4006⟩

def invalidRecipe : Code := ⟨5001⟩
def recipeDecode : Code := ⟨5002⟩
def recipeUnknownType : Code := ⟨5003⟩

def category (c : Code) : Category :=
  match c.number.toNat / 1000 with
  | 1 => .access
  | 2 => .structural
  | 3 => .typing
  | 4 => .assembly
  | 5 => .recipe
  | _ => .unknown

/-- The printed name: category letters and four digits; all codes outside the categories share one. -/
def id (c : Code) : String :=
  match c.category with
  | .unknown => "E0000"
  | k => k.letters ++ toString c.number.toNat

def titles : List (Nat × String) :=
  [(1000, "Access information"),
   (1001, "Unknown class"),
   (1002, "Unknown field"),
   (1003, "Unknown method"),
   (1004, "Static/instance mismatch"),
   (1005, "Member not accessible"),
   (1006, "Local read before assignment"),
   (1007, "No receiver in static context"),
   (1008, "Assignment to final field"),
   (2000, "Structure information"),
   (2001, "Statement after scope closed"),
   (2002, "Else outside if"),
   (2003, "Catch outside try"),
   (2004, "Break outside loop"),
   (2005, "Continue outside loop"),
   (2006, "Expression node reused"),
   (2007, "Unconsumed expression"),
   (2008, "Too many local slots"),
   (2009, "End without open scope"),
   (2010, "Misplaced constructor call"),
   (2011, "Method has no body"),
   (2012, "Expression from another method"),
   (2013, "Overlapping catch"),
   (2014, "Code too large"),
   (2015, "Constant pool overflow"),
   (2016, "Branch offset out of range"),
   (2017, "Duplicate member"),
   (2018, "No open patch site"),
   (2019, "Method already finished"),
   (3000, "Type information"),
   (3001, "Operand type mismatch"),
   (3002, "Invalid cast"),
   (3003, "Argument mismatch"),
   (3004, "Missing return value"),
   (3005, "Extraneous return value"),
   (3006, "Type not assignable"),
   (3007, "Not a throwable"),
   (3008, "Not an array"),
   (3009, "Not iterable"),
   (3010, "Unsupported constant"),
   (3011, "Condition is not boolean"),
   (3012, "Ambiguous invocation"),
   (3013, "Void used as value"),
   (4000, "Assembly information"),
   (4001, "Method left open"),
   (4002, "Abstract member not implemented"),
   (4003, "Assembler unusable"),
   (4004, "Class already finalized"),
   (4005, "Bad declaration"),
   (4006, "Write failed"),
   (5000, "Recipe information"),
   (5001, "Invalid recipe"),
   (5002, "Recipe decode failed"),
   (5003, "Unknown type in recipe")]

def title (c : Code) : String := (titles.lookup c.number.toNat).getD "Unknown error"

def describe (c : Code) : String := s!"[{c.id}]: {c.title}"

end Code

end ClassForge.Diagnostic
