namespace GameTimeline.Text

def utf8 (s : String) : List UInt8 := s.toUTF8.toList

def encode (s : List Char) : List UInt8 := s.flatMap String.utf8EncodeChar

def isBoundary (bytes : List UInt8) (n : Nat) : Bool :=
  n = 0 || n = bytes.length || (bytes[n]?).any fun b => b < 0x80 || 0xc0 ≤ b

def slice? (bytes : List UInt8) (start stop : Nat) : Option (List UInt8) :=
  if start ≤ stop && isBoundary bytes start && isBoundary bytes stop then
    some ((bytes.drop start).take (stop - start))
  else none

def ofUtf8? (bytes : List UInt8) : Option String := String.fromUTF8? ⟨bytes.toArray⟩

def byteOrderMark : Char := Char.ofNat 0xfeff

def dropByteOrderMark : List UInt8 → List UInt8
  | 0xef :: 0xbb :: 0xbf :: r => r
  | bs => bs

end GameTimeline.Text
