import ClassForge.Files.Disk

namespace ClassForge.Files

inductive Change
  | remove (place : List String)
  | makeDirectory (place : List String)
  | write (place : List String) (data : List UInt8)
  deriving DecidableEq, Repr

namespace Tree

def clearing (place : List String) : Option Tree → List Change
  | some _ => [.remove place]
  | none => []

mutual

def changes (place : List String) (old : Option Tree) : Tree → List Change
  | .file data =>
    match old with
    | some (.file before) => if before = data then [] else [.write place data]
    | other => clearing place other ++ [.write place data]
  | .directory es =>
    match old with
    | some (.directory before) =>
      (before.filter fun (n, _) => (es.lookup n).isNone).map (fun (n, _) => .remove (place ++ [n])) ++
        changesOf place before es
    | other => clearing place other ++ .makeDirectory place :: changesOf place [] es

def changesOf (place : List String) (before : List (String × Tree)) : List (String × Tree) → List Change
  | [] => []
  | (n, t) :: es => changes (place ++ [n]) (before.lookup n) t ++ changesOf place before es

end

end Tree

def Disk.changes (old new : Disk) : List Change := new.root.changes [] (some old.root)

end ClassForge.Files
