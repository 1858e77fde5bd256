import GraphTransport.Json.Token

namespace GraphTransport.Json

def maxDepth : Nat := 128

mutual

def takeValue : Nat → Nat → List Token → Option (Json × List Token)
  | 0, _, _ => none
  | fuel + 1, depth, tokens =>
    match tokens with
    | .null :: rest => some (.null, rest)
    | .bool b :: rest => some (.bool b, rest)
    | .number l :: rest => some (.number l, rest)
    | .string s :: rest => some (.string s, rest)
    | .openBracket :: rest =>
      match depth, rest with
      | 0, _ => none
      | _ + 1, .closeBracket :: rest => some (.array [], rest)
      | depth + 1, rest => takeItems fuel depth [] rest
    | .openBrace :: rest =>
      match depth, rest with
      | 0, _ => none
      | _ + 1, .closeBrace :: rest => some (.object [], rest)
      | depth + 1, rest => takeMembers fuel depth [] rest
    | _ => none

def takeItems : Nat → Nat → List Json → List Token → Option (Json × List Token)
  | 0, _, _, _ => none
  | fuel + 1, depth, items, tokens =>
    match takeValue fuel depth tokens with
    | some (item, .comma :: rest) => takeItems fuel depth (item :: items) rest
    | some (item, .closeBracket :: rest) => some (.array (item :: items).reverse, rest)
    | _ => none

def takeMembers : Nat → Nat → List (String × Json) → List Token → Option (Json × List Token)
  | 0, _, _, _ => none
  | fuel + 1, depth, members, tokens =>
    match tokens with
    | .string key :: .colon :: rest =>
      match takeValue fuel depth rest with
      | some (value, .comma :: rest) => takeMembers fuel depth ((key, value) :: members) rest
      | some (value, .closeBrace :: rest) => some (.object ((key, value) :: members).reverse, rest)
      | _ => none
    | _ => none

end

def parse (text : String) : Option Json := do
  let tokens ← tokens text.toList
  match takeValue (2 * tokens.length + 1) maxDepth tokens with
  | some (value, []) => return value
  | _ => none

def parseBytes (bytes : ByteArray) : Option Json := String.fromUTF8? bytes >>= parse

end GraphTransport.Json
