import GameTimeline.Field.Value
import GameTimeline.Text.Blank

namespace GameTimeline

def cleanDigits (s : List Char) : List Char := (Text.trimChars s).filter (· != ',')

def FieldValue.whole? : FieldValue → Option Int64
  | .int n => some n
  | .text s => Text.int64? (cleanDigits s.toList)
  | .flag _ => none
  | .unsupported _ => none

end GameTimeline
