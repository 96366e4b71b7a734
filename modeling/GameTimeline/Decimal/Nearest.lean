namespace GameTimeline.Decimal

structure Format where
  precision : Nat
  least : Int
  greatest : Int

def double : Format := ⟨53, -1074, 971⟩

def single : Format := ⟨24, -149, 104⟩

namespace Format

def hidden (f : Format) : Nat := Nat.pow 2 (f.precision - 1)

def infinityBits (f : Format) : Nat := (f.greatest - f.least + 2).toNat * f.hidden

end Format

def bitLength (n : Nat) : Nat := if n = 0 then 0 else n.log2 + 1

def roundHalfEven (num den : Nat) : Nat :=
  let q := num / den
  let r := num % den
  if 2 * r < den then q
  else if den < 2 * r then q + 1
  else if q % 2 = 0 then q else q + 1

def scaleUp (n : Nat) (k : Int) : Nat := n <<< k.toNat

def nearestQuotient (f : Format) (num den : Nat) : Nat :=
  if num = 0 then 0
  else
    let k₀ : Int := (bitLength num : Int) - bitLength den - f.precision
    let top := k₀ + f.precision
    let k₁ := if scaleUp den top ≤ scaleUp num (-top) then k₀ + 1 else k₀
    let k := max k₁ f.least
    let q := roundHalfEven (scaleUp num (-k)) (scaleUp den k)
    min f.infinityBits ((k - f.least).toNat * f.hidden + q)

def nearest (f : Format) (m : Nat) (e : Int) : Nat :=
  let magnitude := (bitLength m : Int) * 3 / 10 + e
  if m = 0 then 0
  else if 400 < magnitude then f.infinityBits
  else if magnitude < -400 then 0
  else if 0 ≤ e then nearestQuotient f (m * Nat.pow 10 e.toNat) 1
  else nearestQuotient f m (Nat.pow 10 (-e).toNat)

def infinity : Float := Float.ofBits 0x7ff0000000000000

def notANumber : Float := Float.ofBits 0x7ff8000000000000

def toFloat (negative : Bool) (m : Nat) (e : Int) : Float :=
  let bits := nearest double m e
  Float.ofBits (UInt64.ofNat (if negative then bits + 0x8000000000000000 else bits))

end GameTimeline.Decimal
