import GameTimeline.Digest.Sha1
import GameTimeline.Text.Bytes
import GameTimeline.Text.Hex

namespace GameTimeline.Digest.Uuid

def oidSpace : List UInt8 :=
  [0x6b, 0xa7, 0xb8, 0x12, 0x9d, 0xad, 0x11, 0xd1, 0x80, 0xb4, 0x00, 0xc0, 0x4f, 0xd4, 0x30, 0xc8]

/-- Version 5: sixteen bytes of the digest of name space and name, with version and variant set. -/
def named (space : List UInt8) (name : String) : List UInt8 :=
  (Sha1.digest (space ++ Text.utf8 name)).take 16 |>.zipIdx.map fun e =>
    if e.2 = 6 then (e.1 &&& 0x0f) ||| 0x50
    else if e.2 = 8 then (e.1 &&& 0x3f) ||| 0x80
    else e.1

def text (bytes : List UInt8) : String :=
  let part := fun start count => Text.hexBytes ((bytes.drop start).take count)
  String.intercalate "-" [part 0 4, part 4 2, part 6 2, part 8 2, part 10 6]

end GameTimeline.Digest.Uuid
