import ClassForge.Number.Reading
import ClassForge.Text.Quoted

namespace ClassForge.Command

inductive FlagKind
  | text
  | switch
  | number
  deriving DecidableEq, Repr

structure Flag where
  name : String
  kind : FlagKind := .text
  short : Option Char := none
  initial : String := ""
  required : Bool := false
  deriving DecidableEq, Repr

inductive FlagError
  | badForm (arg : String)
  | unknown (name : String)
  | unknownLetter (letter : Char) (letters : String)
  | noValue (name : String)
  | noLetterValue (letter : Char) (letters : String)
  | badValue (flag : Flag) (value cause : String)
  deriving DecidableEq, Repr

def Flag.spelling (f : Flag) : String :=
  match f.short with
  | some c => s!"-{c.toString}, --{f.name}"
  | none => "--" ++ f.name

def FlagError.message : FlagError → String
  | .badForm a => "bad flag syntax: " ++ a
  | .unknown n => "unknown flag: --" ++ n
  | .unknownLetter c s => s!"unknown shorthand flag: {Text.quoteChar c} in -{s}"
  | .noValue n => "flag needs an argument: --" ++ n
  | .noLetterValue c s => s!"flag needs an argument: {Text.quoteChar c} in -{s}"
  | .badValue f v cause =>
    s!"invalid argument {Text.quote v} for {Text.quote f.spelling} flag: {cause}"

def truth? (s : String) : Option Bool :=
  if ["1", "t", "T", "TRUE", "true", "True"].contains s then some true
  else if ["0", "f", "F", "FALSE", "false", "False"].contains s then some false
  else none

/-- Whether each underscore stands between digits, or between the mark of a base and a digit. -/
def underscoresFit (isDigit : Char → Bool) : Bool → List Char → Bool
  | _, [] => true
  | afterDigit, '_' :: rest =>
    afterDigit && (rest.head?.map isDigit).getD false && underscoresFit isDigit false rest
  | _, c :: rest => underscoresFit isDigit (isDigit c) rest

/-- An integer with digits grouped by underscores, in a base that its beginning tells. -/
def integer? (s : String) : Option Int :=
  let (_, body) := Number.takeSign s.toList
  let marked : Bool := match body with
    | '0' :: c :: _ => ['b', 'o', 'x'].contains c.toLower
    | _ => false
  let hex : Bool := match body with
    | '0' :: c :: _ => c.toLower = 'x'
    | _ => false
  let isDigit (c : Char) : Bool := Number.isDigit c || (hex && ((Number.digitValue? 16 c).isSome))
  if underscoresFit isDigit marked (if marked then body.drop 2 else body) then
    Number.readInt (s.toList.filter (· != '_'))
  else none

def fault? (kind : FlagKind) (value : String) : Option String :=
  match kind with
  | .text => none
  | .switch =>
    if (truth? value).isSome then none
    else some s!"strconv.ParseBool: parsing {Text.quote value}: invalid syntax"
  | .number =>
    match integer? value with
    | none => some s!"strconv.ParseInt: parsing {Text.quote value}: invalid syntax"
    | some n =>
      if Number.fitsInt64 n then none
      else some s!"strconv.ParseInt: parsing {Text.quote value}: value out of range"

structure Arguments where
  given : List (String × String) := []
  rest : List String := []
  deriving DecidableEq, Repr

namespace Arguments

def set (a : Arguments) (f : Flag) (value : String) : Except FlagError Arguments :=
  match fault? f.kind value with
  | some cause => .error (.badValue f value cause)
  | none => .ok { a with given := (f.name, value) :: a.given }

def isSet (a : Arguments) (name : String) : Bool := a.given.any (·.1 = name)

def text (a : Arguments) (flags : List Flag) (name : String) : String :=
  match a.given.lookup name with
  | some v => v
  | none => ((flags.find? (·.name = name)).map (·.initial)).getD ""

def switch (a : Arguments) (name : String) : Bool := ((a.given.lookup name).bind truth?).getD false

def number (a : Arguments) (flags : List Flag) (name : String) : Int := (integer? (a.text flags name)).getD 0

end Arguments

def readLetters (flags : List Flag) : List Char → Arguments → Except FlagError (Arguments × Option (Flag × Char × String))
  | [], a => .ok (a, none)
  | c :: cs, a =>
    match flags.find? (·.short = some c) with
    | none => .error (.unknownLetter c (String.ofList (c :: cs)))
    | some f =>
      match cs with
      | '=' :: v :: vs => do return (← a.set f (String.ofList (v :: vs)), none)
      | _ =>
        if f.kind = .switch then do readLetters flags cs (← a.set f "true")
        else if cs.isEmpty then .ok (a, some (f, c, String.ofList (c :: cs)))
        else do return (← a.set f (String.ofList cs), none)

def splitLong (s : List Char) : String × Option String :=
  let name := s.takeWhile (· != '=')
  (String.ofList name, if name.length < s.length then some (String.ofList (s.drop (name.length + 1))) else none)

/-- The flags and the other arguments, in any order. After two hyphens there are no flags. -/
def readArguments (flags : List Flag) : List String → Arguments → Except FlagError Arguments
  | [], a => .ok { a with rest := a.rest.reverse }
  | s :: more, a =>
    match s.toList with
    | ['-', '-'] => .ok { a with rest := a.rest.reverse ++ more }
    | '-' :: '-' :: body =>
      if body.head? = some '-' || body.head? = some '=' then .error (.badForm s)
      else
        let (name, value?) := splitLong body
        match flags.find? (·.name = name), value?, more with
        | none, _, _ => .error (.unknown name)
        | some f, some v, more => do readArguments flags more (← a.set f v)
        | some f, none, more =>
          if f.kind = .switch then do readArguments flags more (← a.set f "true")
          else match more with
            | v :: more => do readArguments flags more (← a.set f v)
            | [] => .error (.noValue name)
    | '-' :: c :: cs => do
      match ← readLetters flags (c :: cs) a with
      | (a, none) => readArguments flags more a
      | (a, some (f, c, letters)) =>
        match more with
        | v :: more => readArguments flags more (← a.set f v)
        | [] => .error (.noLetterValue c letters)
    | _ => readArguments flags more { a with rest := s :: a.rest }
termination_by args => args.length

end ClassForge.Command
