import GraphTransport.Decimal.Literal
import GraphTransport.Decimal.Binary

namespace GraphTransport.Decimal

def roundHalfEven (num den : Nat) : Nat :=
  let c := num / den
  let rest := 2 * (num % den)
  if rest < den then c else if den < rest then c + 1 else if c % 2 = 0 then c else c + 1

/-- The text of a double with `places` digits behind the point; its exact value is rounded, a half
to the even neighbour, and the sign is kept. -/
def fixed (places : Nat) (x : Float) : String :=
  match Binary.ofFloat x with
  | .nan => "NaN"
  | .infinite negative => if negative then "-inf" else "inf"
  | .finite negative m q =>
    let scaled := roundHalfEven (m * Nat.pow 2 q.toNat * Nat.pow 10 places) (Nat.pow 2 (-q).toNat)
    let literal : Literal :=
      ⟨negative, scaled / Nat.pow 10 places, lastDigits places scaled, none⟩
    literal.text false

end GraphTransport.Decimal
