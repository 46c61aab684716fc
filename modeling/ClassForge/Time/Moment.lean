import ClassForge.Number.Reading
import ClassForge.Time.Calendar

namespace ClassForge

/-- A date and time of day with an offset from universal time in seconds and the name of the zone. -/
structure Moment where
  year : Nat := 0
  month : Nat := 1
  day : Nat := 1
  hour : Nat := 0
  minute : Nat := 0
  second : Nat := 0
  nano : Nat := 0
  offset : Int := 0
  zone : String := ""
  deriving DecidableEq, Repr

namespace Moment

open Calendar (padded fractionText monthLength)
open Number (isDigit readDigits)

def offsetText (seconds : Int) : String :=
  let minutes := (seconds.tdiv 60).natAbs
  (if seconds < 0 then "-" else "+") ++ padded 2 (minutes / 60) ++ padded 2 (minutes % 60)

/-- Date, time of day, offset and zone. A zone without a name is written as its offset. -/
def text (m : Moment) : String :=
  padded 4 m.year ++ "-" ++ padded 2 m.month ++ "-" ++ padded 2 m.day ++ " " ++ padded 2 m.hour ++ ":" ++
    padded 2 m.minute ++ ":" ++ padded 2 m.second ++ fractionText 9 m.nano ++ " " ++ offsetText m.offset ++ " " ++
    (if m.zone = "" then offsetText m.offset else m.zone)

inductive Part
  | year
  | month (short : Bool)
  | day (short : Bool)
  | hour
  | minute (short : Bool)
  | second (short : Bool)
  | fraction
  /-- `Z`, or a sign with hours and minutes. -/
  | zone
  | mark (c : Char)
  | blanks
  deriving DecidableEq, Repr

def readNumber (short : Bool) : List Char → Option (Nat × List Char)
  | a :: b :: rest =>
    if isDigit a && isDigit b then (readDigits 10 [a, b]).map (·, rest)
    else if isDigit a && short then (readDigits 10 [a]).map (·, b :: rest)
    else none
  | [a] => if isDigit a && short then (readDigits 10 [a]).map (·, []) else none
  | [] => none

def readBelow (bound : Nat) (short : Bool) (cs : List Char) : Option (Nat × List Char) := do
  let (n, rest) ← readNumber short cs
  if n < bound then return (n, rest) else none

def nanosOf (digits : List Char) : Nat :=
  let ds := digits.take 9
  (readDigits 10 (ds ++ List.replicate (9 - ds.length) '0')).getD 0

def readZone (m : Moment) : List Char → Option (Moment × List Char)
  | 'Z' :: rest => some ({ m with offset := 0, zone := "UTC" }, rest)
  | sign :: a :: b :: ':' :: c :: d :: rest => do
    let hours ← readDigits 10 [a, b]
    let minutes ← readDigits 10 [c, d]
    if 24 < hours || 60 < minutes || !(sign == '+' || sign == '-') then none
    let seconds : Int := (hours * 60 + minutes) * 60
    let offset := if sign == '-' then -seconds else seconds
    return ({ m with offset, zone := if offset = 0 then "UTC" else "" }, rest)
  | _ => none

def readPart (m : Moment) (cs : List Char) : Part → Option (Moment × List Char)
  | .year =>
    let digits := cs.take 4
    if digits.length = 4 && digits.all isDigit then
      (readDigits 10 digits).map fun n => ({ m with year := n }, cs.drop 4)
    else none
  | .month short => do
    let (n, rest) ← readBelow 13 short cs
    if n = 0 then none else return ({ m with month := n }, rest)
  | .day short => do
    let (n, rest) ← readNumber short cs
    return ({ m with day := n }, rest)
  | .hour => do
    let (n, rest) ← readBelow 24 true cs
    return ({ m with hour := n }, rest)
  | .minute short => do
    let (n, rest) ← readBelow 60 short cs
    return ({ m with minute := n }, rest)
  | .second short => do
    let (n, rest) ← readBelow 60 short cs
    return ({ m with second := n }, rest)
  | .fraction =>
    match cs with
    | p :: d :: rest =>
      if (p == '.' || p == ',') && isDigit d then
        some ({ m with nano := nanosOf ((d :: rest).takeWhile isDigit) }, (d :: rest).dropWhile isDigit)
      else some (m, cs)
    | _ => some (m, cs)
  | .zone => readZone m cs
  | .mark c =>
    match cs with
    | d :: rest => if c == d then some (m, rest) else none
    | [] => none
  | .blanks =>
    match cs with
    | ' ' :: rest => some (m, rest.dropWhile (· == ' '))
    | _ => none

def read (layout : List Part) (start : Moment) (cs : List Char) : Option Moment := do
  let (m, rest) ← layout.foldlM (fun (m, cs) p => readPart m cs p) (start, cs)
  if rest.isEmpty && 1 ≤ m.day && m.day ≤ monthLength m.year m.month then return m else none

def dateLayout (short : Bool) : List Part := [.year, .mark '-', .month short, .mark '-', .day short]

def timeLayout (short : Bool) : List Part :=
  [.hour, .mark ':', .minute short, .mark ':', .second short, .fraction]

end Moment

end ClassForge
