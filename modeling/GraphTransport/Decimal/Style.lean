import GraphTransport.Decimal.Literal
import GraphTransport.Decimal.Shortest

namespace GraphTransport.Decimal

structure Style where
  /-- Whether a number whose leading digit has this power of ten is written without one. -/
  positional : Int → Bool
  pointZero : Bool
  tie : Tie

namespace Style

def plain : Style := ⟨fun _ ↦ true, false, .up⟩

def scientific : Style := ⟨fun _ ↦ false, false, .up⟩

def listed : Style := ⟨fun e ↦ -4 ≤ e && e < 16, true, .up⟩

def stored : Style := ⟨fun e ↦ -5 ≤ e && e < 16, true, .even⟩

def layPositional (style : Style) (negative : Bool) (s : Scaled) : Literal :=
  if 0 ≤ s.exponent then
    let fraction := if style.pointZero then lastDigits 1 0 else []
    ⟨negative, s.digits * Nat.pow 10 s.exponent.toNat, fraction, none⟩
  else
    let places := s.exponent.natAbs
    ⟨negative, s.digits / Nat.pow 10 places, lastDigits places s.digits, none⟩

def layScientific (negative : Bool) (s : Scaled) : Literal :=
  let places := digitCount s.digits - 1
  ⟨negative, s.digits / Nat.pow 10 places, lastDigits places s.digits, some (s.exponent + places)⟩

def literal (style : Style) (negative : Bool) (m : Nat) (q : Int) : Literal :=
  let s := shortest style.tie m q
  if style.positional (s.exponent + (digitCount s.digits - 1 : Nat)) then
    style.layPositional negative s
  else
    layScientific negative s

def text (style : Style) (x : Float) : String :=
  match Binary.ofFloat x with
  | .nan => "NaN"
  | .infinite negative => if negative then "-inf" else "inf"
  | .finite negative m q => (style.literal negative m q).text false

end Style

end GraphTransport.Decimal
