namespace GraphTransport.Decimal

abbrev Digit := Fin 10

def Digit.toChar (d : Digit) : Char := Char.ofNat (48 + d.val)

def Digit.ofChar? (c : Char) : Option Digit :=
  if h : 48 ≤ c.toNat ∧ c.toNat < 58 then some ⟨c.toNat - 48, by omega⟩ else none

def takeDigits : List Char → List Digit × List Char
  | [] => ([], [])
  | c :: cs =>
    match Digit.ofChar? c with
    | some d => let (ds, rest) := takeDigits cs; (d :: ds, rest)
    | none => ([], c :: cs)

def ofDigits (n : Nat) (digits : List Digit) : Nat :=
  digits.foldl (fun n d ↦ 10 * n + d.val) n

def lastDigits : Nat → Nat → List Digit
  | 0, _ => []
  | k + 1, n => lastDigits k (n / 10) ++ [Fin.ofNat 10 n]

/-- A decimal number as it is written: `1`, `1.0` and `1e0` are different literals of one number. -/
structure Literal where
  negative : Bool
  integer : Nat
  fraction : List Digit
  exponent : Option Int
deriving DecidableEq, Repr

def Literal.text (plus : Bool) (l : Literal) : String :=
  let sign := if l.negative then "-" else ""
  let fraction :=
    if l.fraction.isEmpty then "" else "." ++ String.ofList (l.fraction.map Digit.toChar)
  let exponent :=
    match l.exponent with
    | none => ""
    | some e => "e" ++ (if e < 0 then "-" else if plus then "+" else "") ++ toString e.natAbs
  sign ++ toString l.integer ++ fraction ++ exponent

end GraphTransport.Decimal
