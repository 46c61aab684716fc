import ClassForge.Format.Yaml.Token

namespace ClassForge.Yaml

/-- The content of a document. Aliases are replaced by what they name, and merged mappings by their
entries. -/
inductive Node
  | scalar (tag : Option String) (text : String) (style : Style)
  | sequence (items : List Node)
  | mapping (entries : List (Node × Node))

namespace Node

def empty : Node := .scalar none "" .plain

/-- Whether two keys count as the same: scalars by their text, collections always. -/
def sameKey : Node → Node → Bool
  | .scalar _ a _, .scalar _ b _ => a == b
  | .sequence _, .sequence _ => true
  | .mapping _, .mapping _ => true
  | _, _ => false

def isMerge : Node → Bool
  | .scalar tag text style => text == "<<" && (tag == some "!!merge" || (tag.isNone && style == .plain))
  | _ => false

def allDistinct : List (Node × Node) → Bool
  | [] => true
  | (k, _) :: rest => !(rest.any fun e => sameKey k e.1) && allDistinct rest

def addMissing (entries more : List (Node × Node)) : List (Node × Node) :=
  more.foldl (fun es e => if es.any (fun f => sameKey f.1 e.1) then es else es ++ [e]) entries

def mergeSources : Node → Option (List (Node × Node))
  | .mapping es => some es
  | .sequence ns => ns.foldlM (fun done n => match n with
      | .mapping es => some (addMissing done es)
      | _ => none) []
  | .scalar .. => none

/-- A mapping of entries as written: keys are distinct, and what is merged in comes last and gives
way. -/
def ofEntries? (entries : List (Node × Node)) : Option Node :=
  if !allDistinct entries then none
  else
    let own := entries.filter (!·.1.isMerge)
    match entries.find? (·.1.isMerge) with
    | some (_, source) => (mergeSources source).map fun es => .mapping (addMissing own es)
    | none => some (.mapping own)

/-! Nodes from tokens. -/

/-- What is left of the tokens, the anchored nodes (none while they are being read), and the handles of
tags. -/
structure Reading where
  rest : List Token
  anchors : List (String × Option Node) := []
  handles : List (String × String) := [("!", "!"), ("!!", "tag:yaml.org,2002:")]

abbrev Reader := StateT Reading Option

def peek : Reader Token := return (← get).rest.head?.getD .streamEnd

def skip : Reader Unit := modify fun r => { r with rest := r.rest.tail }

def shortTag (tag : String) : String :=
  let lead := "tag:yaml.org,2002:"
  if tag.startsWith lead then "!!" ++ (tag.drop lead.length).toString else tag

def tagOf (handle suffix : String) : Reader String := do
  if handle = "" then return shortTag suffix
  let some lead := (← get).handles.lookup handle | failure
  return shortTag (lead ++ suffix)

def properties : Reader (Option String × Option String) := do
  match ← peek with
  | .anchor a => do
    skip
    match ← peek with
    | .tag h s => do
      skip
      return (some a, some (← tagOf h s))
    | _ => return (some a, none)
  | .tag h s => do
    skip
    let t ← tagOf h s
    match ← peek with
    | .anchor a => do
      skip
      return (some a, some t)
    | _ => return (none, some t)
  | _ => return (none, none)

def bindAnchor (name : Option String) (n : Option Node) : Reader Unit :=
  match name with
  | some a => modify fun r => { r with anchors := (a, n) :: r.anchors }
  | none => pure ()

def endsEntry (inBlock : Bool) (inSequence : Bool) : Token → Bool
  | .blockEntry => inBlock && inSequence
  | .key | .value => inBlock && !inSequence
  | .blockEnd => inBlock
  | .flowEntry => !inBlock
  | .flowSequenceEnd => !inBlock && inSequence
  | .flowMappingEnd => !inBlock && !inSequence
  | _ => false

mutual

def node : Nat → Bool → Bool → Reader Node
  | 0, _, _ => failure
  | fuel + 1, inBlock, indentless => do
    match ← peek with
    | .alias a => do
      skip
      let some (some n) := (← get).anchors.lookup a | failure
      return n
    | _ => do
      let (anchor, tag) ← properties
      bindAnchor anchor none
      let n ← content fuel inBlock indentless (anchor.isSome || tag.isSome) (tag.filter (· ≠ "!"))
      bindAnchor anchor (some n)
      return n

def content : Nat → Bool → Bool → Bool → Option String → Reader Node
  | 0, _, _, _, _ => failure
  | fuel + 1, inBlock, indentless, marked, tag => do
    match ← peek with
    | .scalar text style => do
      skip
      return .scalar tag text style
    | .flowSequenceStart => do
      skip
      return .sequence (← flowItems fuel true)
    | .flowMappingStart => do
      skip
      ofEntries? (← flowEntries fuel true)
    | .blockEntry =>
      if indentless then return .sequence (← looseItems fuel)
      else if marked then return .scalar tag "" .plain
      else failure
    | .sequenceStart =>
      if inBlock then do
        skip
        return .sequence (← items fuel)
      else if marked then return .scalar tag "" .plain
      else failure
    | .mappingStart =>
      if inBlock then do
        skip
        ofEntries? (← entries fuel)
      else if marked then return .scalar tag "" .plain
      else failure
    | .fault => failure
    | _ => if marked then return .scalar tag "" .plain else failure

def items : Nat → Reader (List Node)
  | 0 => failure
  | fuel + 1 => do
    match ← peek with
    | .blockEntry => do
      skip
      let n ← if endsEntry true true (← peek) then pure empty else node fuel true false
      return n :: (← items fuel)
    | .blockEnd => do
      skip
      return []
    | _ => failure

def looseItems : Nat → Reader (List Node)
  | 0 => failure
  | fuel + 1 => do
    match ← peek with
    | .blockEntry => do
      skip
      let t ← peek
      let n ← if endsEntry true true t || endsEntry true false t then pure empty else node fuel true false
      return n :: (← looseItems fuel)
    | .fault => failure
    | _ => return []

def entries : Nat → Reader (List (Node × Node))
  | 0 => failure
  | fuel + 1 => do
    match ← peek with
    | .key => do
      skip
      let k ← if endsEntry true false (← peek) then pure empty else node fuel true true
      let v ← value fuel true false
      return (k, v) :: (← entries fuel)
    | .blockEnd => do
      skip
      return []
    | _ => failure

def value : Nat → Bool → Bool → Reader Node
  | 0, _, _ => failure
  | fuel + 1, inBlock, inSequence => do
    match ← peek with
    | .value => do
      skip
      if endsEntry inBlock inSequence (← peek) then return empty
      else node fuel inBlock inBlock
    | .fault => failure
    | _ => return empty

/-- The items of a sequence in brackets, to its end. A key begins a mapping of one entry. -/
def flowItems : Nat → Bool → Reader (List Node)
  | 0, _ => failure
  | fuel + 1, first => do
    match ← peek with
    | .flowSequenceEnd => do
      skip
      return []
    | t => do
      unless first do
        if t == .flowEntry then skip else failure
      match ← peek with
      | .flowSequenceEnd => do
        skip
        return []
      | .key => do
        skip
        let t ← peek
        let k ←
          if t == .value || endsEntry false true t then do
            skip
            pure empty
          else node fuel false false
        let v ← value fuel false true
        let n ← ofEntries? [(k, v)]
        return n :: (← flowItems fuel false)
      | _ => do
        let n ← node fuel false false
        return n :: (← flowItems fuel false)

def flowEntries : Nat → Bool → Reader (List (Node × Node))
  | 0, _ => failure
  | fuel + 1, first => do
    match ← peek with
    | .flowMappingEnd => do
      skip
      return []
    | t => do
      unless first do
        if t == .flowEntry then skip else failure
      match ← peek with
      | .flowMappingEnd => do
        skip
        return []
      | .key => do
        skip
        let t ← peek
        let k ← if t == .value || endsEntry false false t then pure empty else node fuel false false
        let v ← value fuel false false
        return (k, v) :: (← flowEntries fuel false)
      | _ => do
        let k ← node fuel false false
        return (k, empty) :: (← flowEntries fuel false)

end

def directives : Nat → Bool → List String → Reader Unit
  | 0, _, _ => failure
  | fuel + 1, versioned, named => do
    match ← peek with
    | .version 1 1 => do
      if versioned then failure
      skip
      directives fuel true named
    | .version _ _ => failure
    | .tagRule h lead => do
      if named.contains h then failure
      skip
      modify fun r => { r with handles := (h, lead) :: r.handles }
      directives fuel versioned (h :: named)
    | .documentStart => skip
    | _ => failure

/-- The first document of a stream, if any. What follows it must be readable for as long as it is
looked at. -/
def document : Reader (Option Node) := do
  let fuel := 4 * (← get).rest.length + 4
  match ← peek with
  | .streamEnd => return none
  | .version .. | .tagRule .. | .documentStart => do
    directives fuel false []
    match ← peek with
    | .version .. | .tagRule .. | .documentStart | .documentEnd | .streamEnd => return some empty
    | _ => finish fuel
  | _ => finish fuel
where
  finish (fuel : Nat) : Reader (Option Node) := do
    let n ← node fuel true false
    match ← peek with
    | .fault => failure
    | _ => return some n

def read? (text : String) : Option (Option Node) := (document.run { rest := tokens text }).map (·.1)

end Node

end ClassForge.Yaml
