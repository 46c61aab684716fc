import ClassForge.Assembler.Literal
import ClassForge.ClassFile.Code
import ClassForge.ClassFile.Pool
import ClassForge.Diagnostic.Problem
import ClassForge.Hierarchy.Walk

namespace ClassForge.Assembler

inductive Fault
  | pool (cause : Pool.Fault)
  | code (cause : Code.Fault)
  | hierarchy (cause : Hierarchy.Fault)
  | overflow (cause : Overflow)
  | output (cause : Overflow)
  -- declarations
  | emptyName
  | illegalName (name : String)
  | interfaceExtends (name super : String)
  | finalAbstract (name : String)
  | cannotExtend (super : String)
  | notInterface (name : String)
  | fieldType (name : String) (type : JType)
  | duplicateField (name : String)
  | finalVolatile (name : String)
  | lateInitializer (field method : String)
  | paramType (param method : String) (type : JType)
  | duplicateMethod (name descriptor : String)
  | interfaceConstructor (name : String)
  | interfaceStatic (method : String)
  | abstractInConcrete (method owner : String)
  | abstractModifiers (method modifiers : String)
  | specialName (name : String)
  | notThrowable (type : JType)
  | annotationType (type : JType)
  | annotationValue (form : String)
  | annotationSize (type : JType) (cause : Overflow)
  -- constants
  | nullConstant (type : JType)
  | constantForm (type : JType) (form : String)
  | booleanConstant (type : JType)
  | notBooleanConstant (text : String)
  | unsupportedConstant (form : String)
  | constantRange (text : String) (type : JType)
  | charRange (code : Int)
  | classLiteral (type : JType)
  -- locals
  | tooManyLocals (name : String) (slot limit : Int)
  | localType (name : String) (type : JType)
  | missingLocal
  | foreignLocal (name place : String)
  | unassigned (name : String)
  -- method state
  | noBody (method : String)
  | finished (method : String)
  | unreachable
  | misplacedSuper
  | elseOutside (what scope : String)
  | catchOutside (scope : String)
  | tryWithoutCatch
  | breakOutside
  | continueOutside
  | overlappingCatch (type earlier : JType)
  | dangling (kind text : String)
  | openSites (count : Nat)
  | noScope
  | codeSize (size : Nat)
  | fieldRange (what : String) (n : Int)
  -- operands
  | missingOperand (position : Nat)
  | foreignNode (kind place : String)
  | nodeUsed (kind : String)
  | nodeTwice (kind : String)
  | noReceiver (method : String)
  | superInStatic (method : String)
  | notArray (type : JType)
  | indexType (type : JType)
  | lengthType (type : JType)
  | noArrays (type : JType)
  | instanceOfTypes (value type : JType)
  | nullTest (type : JType)
  | operator (symbol : String) (left right : JType)
  | shiftOf (type : JType)
  | shiftDistance (type : JType)
  | negation (type : JType)
  | condition (type : JType)
  | voidComparison
  | voidConcatenation
  | incrementOf (type : JType) (name : String)
  | noBox (type : JType)
  | notBox (type : JType)
  | voidWhere (type : JType)
  | notAssignable (source target : JType)
  | invalidCast (source target : JType)
  -- members
  | callOn (name : String) (type : JType)
  | arity (owner name : String) (count : Nat)
  | instanceMethod (owner name : String)
  | staticMethod (owner name : String)
  | invisible (owner name viewer : String)
  | ambiguous (owner name first second : String)
  | noOverload (owner name : String) (args : List JType)
  | argument (position : Nat) (signature cause : String)
  | abstractSuper (signature : String)
  | cannotInstantiate (type : JType)
  | abstractInstance (type : JType)
  | noFields (type : JType)
  | instanceField (owner name : String)
  | staticField (owner name : String)
  | finalField (owner name : String)
  | noDefaultConstructor (owner : String)
  -- statements
  | missingReturn (method : String) (type : JType)
  | fallsThrough (method : String) (type : JType)
  | extraneousReturn (method : String)
  | cannotThrow (type : JType)
  | cannotCatch (type : JType)
  | loopVariable (name : String) (type : JType)
  | notIterable (type : JType)
  | elementType (array type : JType)
  -- finishing
  | methodOpen (name descriptor : String)
  | notImplemented (name owner signature : String)
  | finalized (name : String)
  | notWritten (target reason : String)
  deriving DecidableEq

namespace Fault

def code? : Fault → Option Diagnostic.Code
  | .overflow _ => none
  | .output _ => some .outputFailed
  | .pool e => some e.code
  | .code e => some e.code
  | .hierarchy e => some e.code
  | .emptyName | .illegalName _ | .interfaceExtends _ _ | .finalAbstract _ | .cannotExtend _
  | .notInterface _ | .fieldType _ _ | .finalVolatile _ | .lateInitializer _ _ | .paramType _ _ _
  | .interfaceConstructor _ | .interfaceStatic _ | .abstractInConcrete _ _ | .abstractModifiers _ _
  | .specialName _ | .annotationType _ | .annotationSize _ _ => some .badDeclaration
  | .duplicateField _ | .duplicateMethod _ _ => some .duplicateMember
  | .notThrowable _ | .cannotThrow _ | .cannotCatch _ => some .notThrowable
  | .annotationValue _ | .constantForm _ _ | .unsupportedConstant _ | .charRange _
  | .classLiteral _ => some .unsupportedConstant
  | .nullConstant _ | .booleanConstant _ | .notBooleanConstant _ | .constantRange _ _ | .noBox _
  | .notBox _ | .notAssignable _ _ | .elementType _ _ => some .notAssignable
  | .tooManyLocals _ _ _ => some .tooManyLocals
  | .localType _ _ | .voidComparison | .voidConcatenation | .voidWhere _ | .loopVariable _ _ =>
    some .voidValue
  | .missingLocal | .missingOperand _ | .indexType _ | .lengthType _ | .noArrays _
  | .instanceOfTypes _ _ | .nullTest _ | .operator _ _ _ | .shiftOf _ | .shiftDistance _
  | .negation _ | .incrementOf _ _ | .callOn _ _ | .cannotInstantiate _ | .abstractInstance _
  | .noFields _ => some .operandMismatch
  | .foreignLocal _ _ | .foreignNode _ _ => some .foreignNode
  | .unassigned _ => some .unassignedLocal
  | .noBody _ => some .noBody
  | .finished _ => some .methodClosed
  | .unreachable => some .scopeClosed
  | .misplacedSuper => some .misplacedSuperCall
  | .elseOutside _ _ => some .elseOutsideIf
  | .catchOutside _ | .tryWithoutCatch => some .catchOutsideTry
  | .breakOutside => some .breakOutsideLoop
  | .continueOutside => some .continueOutsideLoop
  | .overlappingCatch _ _ => some .overlappingCatch
  | .dangling _ _ => some .danglingExpr
  | .openSites _ | .noScope => some .unbalancedEnd
  | .codeSize _ | .fieldRange _ _ => some .codeTooLarge
  | .nodeUsed _ | .nodeTwice _ => some .nodeReused
  | .noReceiver _ | .superInStatic _ => some .noReceiver
  | .notArray _ => some .notArray
  | .condition _ => some .notBoolean
  | .invalidCast _ _ => some .invalidCast
  | .arity _ _ _ | .noOverload _ _ _ | .argument _ _ _ => some .argumentMismatch
  | .instanceMethod _ _ | .staticMethod _ _ | .instanceField _ _ | .staticField _ _ =>
    some .staticMismatch
  | .invisible _ _ _ => some .invisible
  | .ambiguous _ _ _ _ => some .ambiguousCall
  | .abstractSuper _ | .noDefaultConstructor _ => some .noSuchMethod
  | .finalField _ _ => some .finalAssign
  | .missingReturn _ _ | .fallsThrough _ _ => some .missingReturn
  | .extraneousReturn _ => some .extraneousReturn
  | .notIterable _ => some .notIterable
  | .methodOpen _ _ => some .methodOpen
  | .notImplemented _ _ _ => some .abstractNotImplemented
  | .finalized _ => some .finalized
  | .notWritten .. => some .outputFailed

def codePoint (n : Int) : String :=
  let digits := (Nat.toDigits 16 (n % 18446744073709551616).toNat).map Char.toUpper
  "U+" ++ String.ofList (List.replicate (4 - digits.length) '0' ++ digits)

def message : Fault → String
  | .pool e => e.message
  | .code e => e.message
  | .hierarchy e => e.message
  | .overflow e | .output e => e.message
  | .emptyName => "empty name"
  | .illegalName n => "illegal name " ++ Text.quote n
  | .interfaceExtends n s => s!"interface {n} cannot extend class {s}"
  | .finalAbstract n => s!"class {n} is both final and abstract"
  | .cannotExtend s => "cannot extend " ++ s
  | .notInterface n => n ++ " is not an interface"
  | .fieldType n t => s!"field {n} cannot have type {t.spelling}"
  | .duplicateField n => s!"field {n} already declared"
  | .finalVolatile n => s!"field {n} is both final and volatile"
  | .lateInitializer f m => s!"initializer for {f} after {m} was finished"
  | .paramType p m t => s!"parameter {p} of {m} cannot have type {t.spelling}"
  | .duplicateMethod n d => s!"method {n}{d} already declared"
  | .interfaceConstructor n => s!"interface {n} cannot declare constructors"
  | .interfaceStatic m => s!"interface method {m} cannot be static"
  | .abstractInConcrete m c => s!"abstract method {m} in concrete class {c}"
  | .abstractModifiers m mods => s!"abstract method {m} has incompatible modifiers {mods}"
  | .specialName n => "use Constructor or StaticInit for " ++ n
  | .notThrowable t => t.spelling ++ " is not throwable"
  | .annotationType t => "annotation type " ++ t.spelling
  | .annotationValue f => "unsupported annotation value " ++ f
  | .annotationSize t e => s!"annotation {t.spelling}: {e.message}"
  | .nullConstant t => "null is not a " ++ t.spelling
  | .constantForm t f => s!"cannot initialize {t.spelling} from {f}"
  | .booleanConstant t => "boolean is not a " ++ t.spelling
  | .notBooleanConstant v => v ++ " is not a boolean"
  | .unsupportedConstant f => "unsupported constant " ++ f
  | .constantRange v t => s!"constant {v} does not fit {t.spelling}"
  | .charRange n => s!"char {codePoint n} outside the basic plane"
  | .classLiteral t => "no class literal for " ++ t.spelling
  | .tooManyLocals n slot limit => s!"local {n} needs slot {slot}, limit is {limit}"
  | .localType n t => s!"local {n} cannot have type {t.spelling}"
  | .missingLocal => "missing local"
  | .foreignLocal n p => s!"local {n} belongs to {p}"
  | .unassigned n => s!"local {n} might not have been assigned"
  | .noBody m => m ++ " has no body"
  | .finished m => m ++ " already finished"
  | .unreachable => "statement after return, throw, break or continue"
  | .misplacedSuper => "super(...) must open a constructor"
  | .elseOutside what scope => s!"{what} inside {scope}"
  | .catchOutside scope => "catch inside " ++ scope
  | .tryWithoutCatch => "try without catch"
  | .breakOutside => "break outside a loop"
  | .continueOutside => "continue outside a loop"
  | .overlappingCatch t e => s!"{t.spelling} is already caught by the handler for {e.spelling}"
  | .dangling k text => s!"{k} node {text} is never used"
  | .openSites n => s!"{n} branch sites left open"
  | .noScope => "no scope to end"
  | .codeSize n => s!"{n} bytes of code, limit is 65535"
  | .fieldRange what n => s!"{what} {n} exceeds u2: out of range"
  | .missingOperand i => s!"missing operand {i}"
  | .foreignNode k p => s!"{k} node belongs to {p}"
  | .nodeUsed k => k ++ " node already used"
  | .nodeTwice k => k ++ " node passed twice"
  | .noReceiver m => "this in static method " ++ m
  | .superInStatic m => s!"super.{m} in static method"
  | .notArray t => t.spelling ++ " is not an array"
  | .indexType t => "array index of type " ++ t.spelling
  | .lengthType t => "array length of type " ++ t.spelling
  | .noArrays t => "no arrays of " ++ t.spelling
  | .instanceOfTypes e t => s!"instanceof needs references, have {e.spelling} and {t.spelling}"
  | .nullTest t => "null test on " ++ t.spelling
  | .operator s a b => s!"operator {s} on {a.spelling} and {b.spelling}"
  | .shiftOf t => "shift of " ++ t.spelling
  | .shiftDistance t => "shift distance of type " ++ t.spelling
  | .negation t => "negation of " ++ t.spelling
  | .condition t => "condition of type " ++ t.spelling
  | .voidComparison => "comparison with a void value"
  | .voidConcatenation => "concatenation with a void value"
  | .incrementOf t n => s!"increment of {t.spelling} local {n}"
  | .noBox t => t.spelling ++ " has no box type"
  | .notBox t => t.spelling ++ " is not a box type"
  | .voidWhere t => s!"void value where {t.spelling} is required"
  | .notAssignable s t => s!"{s.spelling} is not assignable to {t.spelling}"
  | .invalidCast s t => s!"cannot cast {s.spelling} to {t.spelling}"
  | .callOn n t => s!"cannot call {n} on {t.spelling}"
  | .arity o n k => s!"no {o}.{n} takes {k} arguments"
  | .instanceMethod o n => s!"{o}.{n} is an instance method"
  | .staticMethod o n => s!"{o}.{n} is static"
  | .invisible o n v => s!"{o}.{n} is not accessible from {v}"
  | .ambiguous o n a b => s!"call to {o}.{n} is ambiguous between {a} and {b}"
  | .noOverload o n ts =>
    "no " ++ o ++ "." ++ n ++ " accepts (" ++ ", ".intercalate (ts.map (·.spelling)) ++ ")"
  | .argument i s e => s!"argument {i} of {s}: {e}"
  | .abstractSuper s => s!"super.{s} is abstract"
  | .cannotInstantiate t => "cannot instantiate " ++ t.spelling
  | .abstractInstance t => "cannot instantiate abstract " ++ t.spelling
  | .noFields t => t.spelling ++ " has no fields"
  | .instanceField o n => s!"{o}.{n} is an instance field"
  | .staticField o n => s!"{o}.{n} is static"
  | .finalField o n => s!"cannot assign final field {o}.{n}"
  | .noDefaultConstructor o =>
    o ++ " has no accessible no-argument constructor; call SuperConstructor"
  | .missingReturn m t => s!"{m} must return {t.spelling}"
  | .fallsThrough m t => s!"{m} can complete without returning {t.spelling}"
  | .extraneousReturn m => s!"void method {m} returns a value"
  | .cannotThrow t => "cannot throw " ++ t.spelling
  | .cannotCatch t => "cannot catch " ++ t.spelling
  | .loopVariable n t => s!"loop variable {n} cannot have type {t.spelling}"
  | .notIterable t => "cannot iterate over " ++ t.spelling
  | .elementType a t => s!"{a.spelling} elements are not assignable to {t.spelling}"
  | .methodOpen n d => s!"method {n}{d} was never ended"
  | .notImplemented n o s => s!"{n} does not implement {o}.{s}"
  | .finalized n => s!"class {n} already serialized"
  | .notWritten t r => s!"write {t}: {r}"

def describe (e : Fault) (place : String) : String :=
  match e.code? with
  | none => e.message
  | some c => c.id ++ ": " ++ (if place = "" then "" else place ++ ": ") ++ e.message

end Fault

/-- What a builder call reports: a located fault, or that the class failed earlier. -/
inductive Failure
  | fault (cause : Fault) (place : String)
  | unusable (name : String) (first : Failure)
  deriving DecidableEq

namespace Failure

def code? : Failure → Option Diagnostic.Code
  | .fault e _ => e.code?
  | .unusable _ _ => some .unusable

def message : Failure → String
  | .fault e _ => e.message
  | .unusable _ _ => "assembler unusable after earlier failure"

def place : Failure → String
  | .fault _ p => p
  | .unusable n _ => n

def root : Failure → Diagnostic.Code
  | .fault e _ => e.code?.getD .unknown
  | .unusable _ first => first.root

def describe : Failure → String
  | .fault e p => e.describe p
  | .unusable n _ =>
    s!"{Diagnostic.Code.unusable.id}: {n}: assembler unusable after earlier failure"

def problem : Failure → Diagnostic.Problem
  | .fault e p =>
    match e.code? with
    | some c => .coded c e.message p none
    | none => .plain e.message
  | .unusable n first =>
    .coded .unusable "assembler unusable after earlier failure" n (some first.problem)

/-- The failure with a place, unless it has one. Faults without a code stay as they are. -/
def located (place : String) : Failure → Failure
  | .fault e "" => .fault e (if e.code?.isSome then place else "")
  | f => f

end Failure

end ClassForge.Assembler
