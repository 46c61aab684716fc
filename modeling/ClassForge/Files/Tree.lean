namespace ClassForge.Files

/-- What a name stands for: the bytes of a file, or the entries of a directory in the order of their names. -/
inductive Tree
  | file (data : List UInt8)
  | directory (entries : List (String × Tree))

inductive Fault
  | missing
  | notDirectory
  | isDirectory
  | occupied
  deriving DecidableEq, Repr

def Fault.message : Fault → String
  | .missing => "no such file or directory"
  | .notDirectory => "not a directory"
  | .isDirectory => "is a directory"
  | .occupied => "file exists"

namespace Tree

def isDirectory : Tree → Bool
  | .file _ => false
  | .directory _ => true

def find : Tree → List String → Except Fault Tree
  | t, [] => .ok t
  | .file _, _ :: _ => .error .notDirectory
  | .directory es, n :: ns =>
    match es.lookup n with
    | some t => t.find ns
    | none => .error .missing

def setEntry (name : String) (t : Tree) : List (String × Tree) → List (String × Tree)
  | [] => [(name, t)]
  | (n, u) :: es =>
    if name = n then (n, t) :: es
    else if name < n then (name, t) :: (n, u) :: es
    else (n, u) :: setEntry name t es

/-- Puts a tree at a place, with the directories on the way. A file on the way stays as it is. -/
def put (new : Tree) : List String → Tree → Tree
  | [], _ => new
  | _ :: _, .file data => .file data
  | n :: ns, .directory es => .directory (setEntry n (put new ns ((es.lookup n).getD (.directory []))) es)

def erase : List String → Tree → Tree
  | [], t => t
  | _, .file data => .file data
  | [n], .directory es => .directory (es.filter (·.1 ≠ n))
  | n :: ns, .directory es =>
    match es.lookup n with
    | some t => .directory (setEntry n (erase ns t) es)
    | none => .directory es

mutual

def files (place : List String) : Tree → List (List String × List UInt8)
  | .file data => [(place, data)]
  | .directory es => filesOf place es

def filesOf (place : List String) : List (String × Tree) → List (List String × List UInt8)
  | [] => []
  | (n, t) :: es => files (place ++ [n]) t ++ filesOf place es

end

end Tree

end ClassForge.Files
