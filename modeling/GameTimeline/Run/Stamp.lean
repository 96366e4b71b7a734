import GameTimeline.Text.Digits

namespace GameTimeline.Run

structure Date where
  year : Int
  month : Nat
  day : Nat
  deriving DecidableEq, Repr

namespace Date

def epoch : Int := 719468

def daysInEra : Int := 146097

/-- The date so many days after the first of January 1970. Years are counted from March, so that a
leap day is the last of its year, in eras of four hundred years. -/
def ofDays (days : Int) : Date :=
  let era := (days + epoch).fdiv daysInEra
  let inEra := ((days + epoch).fmod daysInEra).toNat
  let year := (inEra - inEra / 1460 + inEra / 36524 - inEra / 146096) / 365
  let inYear := inEra - (365 * year + year / 4 - year / 100)
  let month := (5 * inYear + 2) / 153
  let day := inYear - (153 * month + 2) / 5 + 1
  let early := 10 ≤ month
  ⟨era * 400 + year + (if early then 1 else 0), if early then month - 9 else month + 3, day⟩

end Date

def padded (width n : Nat) : String :=
  let ds := Nat.toDigits 10 n
  String.ofList (List.replicate (width - ds.length) '0' ++ ds)

def fraction (nanos : Nat) : String :=
  if nanos = 0 then ""
  else if nanos % 1000000 = 0 then "." ++ padded 3 (nanos / 1000000)
  else if nanos % 1000 = 0 then "." ++ padded 6 (nanos / 1000)
  else "." ++ padded 9 nanos

def nanosInSecond : Int := 1000000000

def secondsInDay : Int := 86400

def stamp (nanos : Int) : String :=
  let seconds := nanos.fdiv nanosInSecond
  let date := Date.ofDays (seconds.fdiv secondsInDay)
  let inDay := (seconds.fmod secondsInDay).toNat
  padded 4 date.year.toNat ++ "-" ++ padded 2 date.month ++ "-" ++ padded 2 date.day ++ "T" ++
    padded 2 (inDay / 3600) ++ ":" ++ padded 2 (inDay / 60 % 60) ++ ":" ++ padded 2 (inDay % 60) ++
    fraction (nanos.fmod nanosInSecond).toNat ++ "Z"

end GameTimeline.Run
