import ClassForge.Number.Fixed

namespace ClassForge

namespace Duration

def millis (us : Nat) : Nat := (us + 500) / 1000

def trimmed (s : String) : String :=
  let back := s.toList.reverse.dropWhile (· == '0')
  String.ofList (if back.head? == some '.' then back.tail else back).reverse

/-- Milliseconds as hours, minutes and seconds. What is less than a second is in milliseconds. -/
def text (ms : Nat) : String :=
  if ms = 0 then "0s"
  else if ms < 1000 then toString ms ++ "ms"
  else
    let hours := ms / 3600000
    let minutes := ms / 60000 % 60
    (if hours = 0 then "" else toString hours ++ "h") ++
      (if hours = 0 && minutes = 0 then "" else toString minutes ++ "m") ++
      trimmed (Number.withPoint 3 (ms % 60000)) ++ "s"

end Duration

end ClassForge
