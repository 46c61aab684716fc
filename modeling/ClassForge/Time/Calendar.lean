namespace ClassForge.Calendar

/-- Year, month and day of a day counted from 1 January 1970. Years are counted from March, so that
a leap day is last; 400 years have 146097 days. -/
def civil (days : Int) : Int × Nat × Nat :=
  let z := days + 719468
  let era := z.fdiv 146097
  let doe := (z - era * 146097).toNat
  let yoe := (doe - doe / 1460 + doe / 36524 - doe / 146096) / 365
  let doy := doe - (365 * yoe + yoe / 4 - yoe / 100)
  let mp := (5 * doy + 2) / 153
  let day := doy - (153 * mp + 2) / 5 + 1
  let month := if mp < 10 then mp + 3 else mp - 9
  let year := (yoe : Int) + era * 400
  (if month ≤ 2 then year + 1 else year, month, day)

def isLeap (year : Int) : Bool := year % 4 == 0 && (year % 100 != 0 || year % 400 == 0)

def monthLength (year : Int) : Nat → Nat
  | 2 => if isLeap year then 29 else 28
  | 4 | 6 | 9 | 11 => 30
  | _ => 31

def padded (width : Nat) (n : Nat) : String :=
  let s := toString n
  String.ofList (List.replicate (width - s.length) '0') ++ s

def yearText (year : Int) : String := (if year < 0 then "-" else "") ++ padded 4 year.natAbs

def fractionText (digits n : Nat) : String :=
  if n = 0 then ""
  else "." ++ String.ofList (((padded digits n).toList.reverse.dropWhile (· = '0')).reverse)

def stamp (us : Int) : String :=
  let seconds := us.fdiv 1000000
  let (y, m, d) := civil (seconds.fdiv 86400)
  let t := (seconds.fmod 86400).toNat
  yearText y ++ "-" ++ padded 2 m ++ "-" ++ padded 2 d ++ "T" ++ padded 2 (t / 3600) ++ ":" ++
    padded 2 (t / 60 % 60) ++ ":" ++ padded 2 (t % 60) ++ fractionText 6 (us.fmod 1000000).toNat ++ "Z"

end ClassForge.Calendar
