namespace ClassForge.Text

def isBlank (c : Char) : Bool :=
  (0x09 ≤ c.val && c.val ≤ 0x0d) || c == ' ' || c.val == 0x85 || c.val == 0xa0 || c.val == 0x1680 ||
    (0x2000 ≤ c.val && c.val ≤ 0x200a) || c.val == 0x2028 || c.val == 0x2029 || c.val == 0x202f ||
    c.val == 0x205f || c.val == 0x3000

def trimStart (cs : List Char) : List Char := cs.dropWhile isBlank

def trimEnd (cs : List Char) : List Char := (cs.reverse.dropWhile isBlank).reverse

def trim (s : String) : String := String.ofList (trimEnd (trimStart s.toList))

def words (s : String) : List String :=
  let rec go : List Char → List Char → List (List Char)
    | [], [] => []
    | [], w => [w.reverse]
    | c :: cs, w =>
      if isBlank c then
        if w.isEmpty then go cs [] else w.reverse :: go cs []
      else go cs (c :: w)
  (go s.toList []).map String.ofList

def substitute (a b : Char) (s : String) : String :=
  String.ofList (s.toList.map fun c => if c == a then b else c)

def slashed (s : String) : String := substitute '.' '/' s

end ClassForge.Text
