namespace ClassForge.Files

/-! Paths are texts whose parts are divided by slashes. -/

abbrev Path := String

namespace Path

def split : List Char → List (List Char)
  | [] => [[]]
  | c :: cs => if c = '/' then [] :: split cs else (split cs).modifyHead (c :: ·)

def parts (p : Path) : List String := (split p.toList).map String.ofList

def isAbsolute (p : Path) : Bool := p.toList.head? == some '/'

/-- Drops empty parts and single dots, and takes two dots back with the part before, if there is
one. -/
def reduce (rooted : Bool) : List String → List String → List String
  | done, [] => done.reverse
  | done, "" :: ps | done, "." :: ps => reduce rooted done ps
  | d :: done, ".." :: ps => if d = ".." then reduce rooted (".." :: d :: done) ps else reduce rooted done ps
  | [], ".." :: ps => reduce rooted (if rooted then [] else [".."]) ps
  | done, p :: ps => reduce rooted (p :: done) ps

def clean (p : Path) : Path :=
  let body := "/".intercalate (reduce p.isAbsolute [] p.parts)
  if p.isAbsolute then "/" ++ body else if body = "" then "." else body

def join (ps : List Path) : Path :=
  let ps := ps.filter (· ≠ "")
  if ps.isEmpty then "" else clean ("/".intercalate ps)

def base (p : Path) : String :=
  if p = "" then "."
  else
    let trimmed := p.toList.reverse.dropWhile (· == '/')
    if trimmed.isEmpty then "/" else String.ofList (trimmed.takeWhile (· != '/')).reverse

def dir (p : Path) : Path := clean (String.ofList (p.toList.reverse.dropWhile (· != '/')).reverse)

def extension (p : Path) : String :=
  let tail := (p.toList.reverse.takeWhile (· != '/')).reverse
  let back := tail.reverse.takeWhile (· != '.')
  if back.length < tail.length then String.ofList ('.' :: back.reverse) else ""

def absolute (working p : Path) : Path := if p.isAbsolute then clean p else join [working, p]

def dropCommon : List String → List String → List String × List String
  | a :: as, b :: bs => if a = b then dropCommon as bs else (a :: as, b :: bs)
  | as, bs => (as, bs)

def relative (start target : Path) : Path :=
  let (up, down) := dropCommon (reduce true [] start.parts) (reduce true [] target.parts)
  let way := up.map (fun _ => "..") ++ down
  if way.isEmpty then "." else "/".intercalate way

end Path

end ClassForge.Files
