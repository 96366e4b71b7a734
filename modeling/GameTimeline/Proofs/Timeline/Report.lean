import GameTimeline.Proofs.Json.Document
import GameTimeline.Timeline.Quality

namespace GameTimeline

open Json (Spelled)

def Json.Spelled.count (n : Nat) : Spelled := .num ⟨false, Nat.toDigits 10 n, none, none⟩

namespace QualityReport

end QualityReport

end GameTimeline
