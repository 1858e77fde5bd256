import GraphTransport.Json.Value

namespace GraphTransport.Json

open Decimal

inductive Token where
  | openBrace | closeBrace | openBracket | closeBracket | colon | comma
  | null
  | bool (value : Bool)
  | number (literal : Literal)
  | string (text : String)
deriving DecidableEq, Repr

def hexValue? (c : Char) : Option Nat :=
  let n := c.toNat
  if 48 ≤ n ∧ n < 58 then some (n - 48)
  else if 97 ≤ n ∧ n < 103 then some (n - 87)
  else if 65 ≤ n ∧ n < 71 then some (n - 55)
  else none

def takeHex : List Char → Option (Nat × List Char)
  | a :: b :: c :: d :: rest => do
    let a ← hexValue? a
    let b ← hexValue? b
    let c ← hexValue? c
    let d ← hexValue? d
    return (((a * 16 + b) * 16 + c) * 16 + d, rest)
  | _ => none

def shortEscape? (c : Char) : Option Char :=
  match c with
  | '"' => some '"'
  | '\\' => some '\\'
  | '/' => some '/'
  | 'b' => some (Char.ofNat 8)
  | 'f' => some (Char.ofNat 12)
  | 'n' => some '\n'
  | 'r' => some '\r'
  | 't' => some '\t'
  | _ => none

/-- The character behind `\u`, and the rest of the text. The two halves of a surrogate pair are one
character; a half that stands alone is none. -/
def takeUnicode (cs : List Char) : Option (Char × List Char) := do
  let (unit, rest) ← takeHex cs
  if 0xdc00 ≤ unit ∧ unit < 0xe000 then none
  else if 0xd800 ≤ unit ∧ unit < 0xdc00 then
    match rest with
    | '\\' :: 'u' :: rest => do
      let (low, rest) ← takeHex rest
      if 0xdc00 ≤ low ∧ low < 0xe000 then
        return (Char.ofNat (0x10000 + (unit - 0xd800) * 0x400 + (low - 0xdc00)), rest)
      else none
    | _ => none
  else
    return (Char.ofNat unit, rest)

def takeString : Nat → List Char → Option (List Char × List Char)
  | 0, _ => none
  | fuel + 1, cs =>
    match cs with
    | [] => none
    | '"' :: rest => some ([], rest)
    | '\\' :: 'u' :: rest => do
      let (c, rest) ← takeUnicode rest
      let (text, rest) ← takeString fuel rest
      return (c :: text, rest)
    | '\\' :: letter :: rest => do
      let c ← shortEscape? letter
      let (text, rest) ← takeString fuel rest
      return (c :: text, rest)
    | c :: rest =>
      if c.toNat < 32 then none
      else do
        let (text, rest) ← takeString fuel rest
        return (c :: text, rest)

def takeInteger (cs : List Char) : Option (Nat × List Char) :=
  match takeDigits cs with
  | ([], _) => none
  | ([d], rest) => some (d.val, rest)
  | (d :: ds, rest) => if d.val = 0 then none else some (ofDigits 0 (d :: ds), rest)

def takeFraction : List Char → Option (List Digit × List Char)
  | '.' :: cs =>
    match takeDigits cs with
    | ([], _) => none
    | (ds, rest) => some (ds, rest)
  | cs => some ([], cs)

def takePower (negative : Bool) (cs : List Char) : Option (Option Int × List Char) :=
  match takeDigits cs with
  | ([], _) => none
  | (ds, rest) =>
    let e : Int := ofDigits 0 ds
    some (some (if negative then -e else e), rest)

def takeExponent : List Char → Option (Option Int × List Char)
  | 'e' :: cs | 'E' :: cs =>
    match cs with
    | '+' :: cs => takePower false cs
    | '-' :: cs => takePower true cs
    | cs => takePower false cs
  | cs => some (none, cs)

def takeNumber (negative : Bool) (cs : List Char) : Option (Literal × List Char) := do
  let (integer, rest) ← takeInteger cs
  let (fraction, rest) ← takeFraction rest
  let (exponent, rest) ← takeExponent rest
  return (⟨negative, integer, fraction, exponent⟩, rest)

def takeToken (cs : List Char) : Option (Token × List Char) :=
  match cs with
  | '\x7b' :: rest => some (.openBrace, rest)
  | '\x7d' :: rest => some (.closeBrace, rest)
  | '[' :: rest => some (.openBracket, rest)
  | ']' :: rest => some (.closeBracket, rest)
  | ':' :: rest => some (.colon, rest)
  | ',' :: rest => some (.comma, rest)
  | 'n' :: 'u' :: 'l' :: 'l' :: rest => some (.null, rest)
  | 't' :: 'r' :: 'u' :: 'e' :: rest => some (.bool true, rest)
  | 'f' :: 'a' :: 'l' :: 's' :: 'e' :: rest => some (.bool false, rest)
  | '"' :: rest =>
    (takeString (rest.length + 1) rest).map fun (text, rest) ↦ (.string (String.ofList text), rest)
  | '-' :: rest => (takeNumber true rest).map fun (l, rest) ↦ (.number l, rest)
  | rest => (takeNumber false rest).map fun (l, rest) ↦ (.number l, rest)

def isSpace (c : Char) : Bool := c = ' ' || c = '\t' || c = '\n' || c = '\r'

def tokensOf : Nat → List Char → Option (List Token)
  | 0, _ => none
  | fuel + 1, cs =>
    match cs.dropWhile isSpace with
    | [] => some []
    | cs => do
      let (token, rest) ← takeToken cs
      let tokens ← tokensOf fuel rest
      return token :: tokens

/-- The tokens of a text, if it has no part that is none. Tokens may touch, since no two values
stand beside each other without punctuation in what the grammar accepts. -/
def tokens (cs : List Char) : Option (List Token) := tokensOf (cs.length + 1) cs

end GraphTransport.Json
