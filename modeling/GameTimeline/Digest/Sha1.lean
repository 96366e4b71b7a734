import GameTimeline.Digest.Words

namespace GameTimeline.Digest.Sha1

structure State where
  a : UInt32
  b : UInt32
  c : UInt32
  d : UInt32
  e : UInt32

def start : State := ⟨0x67452301, 0xefcdab89, 0x98badcfe, 0x10325476, 0xc3d2e1f0⟩

def extend (w : Array UInt32) : Array UInt32 :=
  let back := fun k => w.getD (w.size - k) 0
  w.push (rotateLeft (back 3 ^^^ back 8 ^^^ back 14 ^^^ back 16) 1)

def schedule (block : List UInt32) : Array UInt32 :=
  (List.range 64).foldl (fun w _ => extend w) block.toArray

def mix (i : Nat) (b c d : UInt32) : UInt32 :=
  if i < 20 then (b &&& c) ||| (~~~b &&& d)
  else if i < 40 then b ^^^ c ^^^ d
  else if i < 60 then (b &&& c) ||| (b &&& d) ||| (c &&& d)
  else b ^^^ c ^^^ d

def constant (i : Nat) : UInt32 :=
  if i < 20 then 0x5a827999
  else if i < 40 then 0x6ed9eba1
  else if i < 60 then 0x8f1bbcdc
  else 0xca62c1d6

def round (s : State) (i : Nat) (w : UInt32) : State :=
  ⟨rotateLeft s.a 5 + mix i s.b s.c s.d + s.e + constant i + w, s.a, rotateLeft s.b 30, s.c, s.d⟩

def compress (s : State) (block : List UInt32) : State :=
  let t := (schedule block).toList.zipIdx.foldl (fun t e => round t e.2 e.1) s
  ⟨s.a + t.a, s.b + t.b, s.c + t.c, s.d + t.d, s.e + t.e⟩

def digest (message : List UInt8) : List UInt8 :=
  let s := (blocks message).foldl compress start
  [s.a, s.b, s.c, s.d, s.e].flatMap bytesOfWord

end GameTimeline.Digest.Sha1
