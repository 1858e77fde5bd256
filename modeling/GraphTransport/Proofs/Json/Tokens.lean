import Mathlib.Tactic.IntervalCases
import GraphTransport.Json.Reader
import GraphTransport.Proofs.Decimal.Digits

namespace GraphTransport.Json

open Decimal

section Numbers

variable {rest : List Char}

def EndsDigits (rest : List Char) : Prop := ∀ c ∈ rest.head?, Digit.ofChar? c = none

def EndsNumber (rest : List Char) : Prop :=
  ∀ c ∈ rest.head?, Digit.ofChar? c = none ∧ c ≠ '.' ∧ c ≠ 'e' ∧ c ≠ 'E'

theorem EndsNumber.endsDigits (h : EndsNumber rest) : EndsDigits rest := fun c hc ↦ (h c hc).1

theorem takeInteger_append (n : Nat) (hrest : EndsDigits rest) :
    takeInteger ((digits n).map Digit.toChar ++ rest) = some (n, rest) := by
  rw [takeInteger, takeDigits_append _ hrest]
  rcases Nat.lt_or_ge n 10 with h | h
  · simp [digits_of_lt h, Nat.mod_eq_of_lt h]
  · obtain ⟨d, e, ds, hds, hd⟩ := exists_digits_eq_cons_of_le h
    have hn := ofDigits_digits n
    rw [hds] at hn ⊢
    simp [hd, hn]

def fractionText (ds : List Digit) : List Char :=
  if ds.isEmpty then [] else '.' :: ds.map Digit.toChar

def exponentText : Option Int → List Char
  | none => []
  | some e => 'e' :: (if e < 0 then '-' else '+') :: (digits e.natAbs).map Digit.toChar

theorem toList_text (l : Literal) : (l.text true).toList = (if l.negative then ['-'] else []) ++
    ((digits l.integer).map Digit.toChar ++ (fractionText l.fraction ++
      exponentText l.exponent)) := by
  unfold fractionText exponentText
  rw [← toList_toString]
  obtain ⟨negative, integer, fraction, exponent⟩ := l
  cases exponent with
  | none => cases negative <;> cases fraction <;> simp [Literal.text]
  | some e =>
    simp only [← toList_toString]
    cases negative <;> cases fraction <;> by_cases he : e < 0 <;> simp [Literal.text, he]

theorem takeFraction_append (ds : List Digit) (hdigits : EndsDigits rest)
    (hpoint : ∀ c ∈ rest.head?, c ≠ '.') :
    takeFraction (fractionText ds ++ rest) = some (ds, rest) := by
  cases ds with
  | nil =>
    cases rest with
    | nil => rfl
    | cons c cs => simp [fractionText, takeFraction, hpoint c rfl]
  | cons d ds =>
    have htake := takeDigits_append (d :: ds) hdigits
    simp only [List.map_cons, List.cons_append] at htake
    simp [fractionText, takeFraction, htake]

theorem takePower_append (negative : Bool) (n : Nat) (hrest : EndsDigits rest) :
    takePower negative ((digits n).map Digit.toChar ++ rest) =
      some (some (if negative then -(n : Int) else n), rest) := by
  obtain ⟨d, ds, hds⟩ := exists_digits_eq_cons n
  have hn := ofDigits_digits n
  rw [takePower, takeDigits_append _ hrest]
  rw [hds] at hn ⊢
  simp [hn]

theorem takeExponent_append (exponent : Option Int) (hrest : EndsNumber rest) :
    takeExponent (exponentText exponent ++ rest) = some (exponent, rest) := by
  cases exponent with
  | none =>
    cases rest with
    | nil => rfl
    | cons c cs =>
      obtain ⟨-, -, he, hE⟩ := hrest c rfl
      simp [exponentText, takeExponent, he, hE]
  | some e =>
    by_cases he : e < 0
    · have hpower := takePower_append true e.natAbs hrest.endsDigits
      have habs : -(e.natAbs : Int) = e := by omega
      simp only [if_true, habs] at hpower
      simp [exponentText, takeExponent, he, hpower]
    · have hpower := takePower_append false e.natAbs hrest.endsDigits
      have habs : (e.natAbs : Int) = e := by omega
      simp only [Bool.false_eq_true, if_false, habs] at hpower
      simp [exponentText, takeExponent, he, hpower]

theorem takeNumber_append (l : Literal) (hrest : EndsNumber rest) :
    takeNumber l.negative ((digits l.integer).map Digit.toChar ++
      (fractionText l.fraction ++ (exponentText l.exponent ++ rest))) = some (l, rest) := by
  have hexponent : EndsDigits (exponentText l.exponent ++ rest) ∧
      ∀ c ∈ (exponentText l.exponent ++ rest).head?, c ≠ '.' := by
    cases l.exponent with
    | none => exact ⟨hrest.endsDigits, fun c hc ↦ (hrest c hc).2.1⟩
    | some e => constructor <;> rintro c ⟨⟩ <;> decide
  have hfraction : EndsDigits (fractionText l.fraction ++ (exponentText l.exponent ++ rest)) := by
    cases l.fraction with
    | nil => exact hexponent.1
    | cons d ds => rintro c ⟨⟩; decide
  rw [takeNumber, takeInteger_append _ hfraction]
  simp [takeFraction_append _ hexponent.1 hexponent.2, takeExponent_append _ hrest]

theorem takeToken_digit (d : Digit) (cs : List Char) : takeToken (d.toChar :: cs) =
    (takeNumber false (d.toChar :: cs)).map fun (l, rest) ↦ (.number l, rest) := by
  obtain ⟨d, hd⟩ := d
  interval_cases d <;> rfl

theorem takeToken_text (l : Literal) (hrest : EndsNumber rest) :
    takeToken ((l.text true).toList ++ rest) = some (.number l, rest) := by
  have hnumber := takeNumber_append l hrest
  rw [toList_text]
  simp only [List.append_assoc]
  cases hsign : l.negative with
  | true =>
    rw [hsign] at hnumber
    simp [takeToken, hnumber]
  | false =>
    obtain ⟨d, ds, hds⟩ := exists_digits_eq_cons l.integer
    rw [hsign, hds] at hnumber
    rw [hds]
    simp only [List.map_cons, List.cons_append] at hnumber
    simp [takeToken_digit, hnumber]

end Numbers

section Strings

theorem hexValue?_hexDigit {n : Nat} (h : n < 16) : hexValue? (hexDigit n) = some n := by
  decide +revert

theorem takeUnicode_hexDigit {n : Nat} (h : n < 32) (rest : List Char) :
    takeUnicode ('0' :: '0' :: hexDigit (n / 16) :: hexDigit (n % 16) :: rest) =
      some (Char.ofNat n, rest) := by
  have hhigh := hexValue?_hexDigit (n := n / 16) (by omega)
  have hlow := hexValue?_hexDigit (n := n % 16) (by omega)
  have hzero : hexValue? '0' = some 0 := rfl
  have hsum : n / 16 * 16 + n % 16 = n := Nat.div_add_mod' n 16
  have hfirst : ¬ (0xdc00 ≤ n ∧ n < 0xe000) := by omega
  have hsecond : ¬ (0xd800 ≤ n ∧ n < 0xdc00) := by omega
  simp [takeUnicode, takeHex, hzero, hhigh, hlow, hsum, hfirst, hsecond]

theorem takeString_escape (c : Char) (fuel : Nat) (rest : List Char) :
    takeString (fuel + 1) (escape c ++ rest) =
      (takeString fuel rest).bind fun (text, rest) ↦ some (c :: text, rest) := by
  have hback : Char.ofNat c.toNat = c := Char.ofNat_toNat c
  unfold escape
  split
  · rfl
  · rfl
  · rfl
  · rfl
  · rfl
  · next hquote hslash _ _ _ =>
    dsimp only
    split_ifs with h₈ h₁₂ h₃₂
    · rw [← hback, h₈]
      rfl
    · rw [← hback, h₁₂]
      rfl
    · have hunicode := takeUnicode_hexDigit h₃₂ rest
      rw [hback] at hunicode
      simp [takeString, hunicode]
    · rw [List.singleton_append, takeString]
      · simp [h₃₂]
      · exact hquote
      · exact fun _ h _ ↦ hslash h
      · exact fun _ _ h _ ↦ hslash h

theorem takeString_append (text rest : List Char) {fuel : Nat} (h : text.length < fuel) :
    takeString fuel (text.flatMap escape ++ '"' :: rest) = some (text, rest) := by
  obtain ⟨fuel, rfl⟩ : ∃ k, fuel = k + 1 := ⟨fuel - 1, by omega⟩
  induction text generalizing fuel with
  | nil => rfl
  | cons c text ih =>
    simp only [List.length_cons] at h
    obtain ⟨fuel, rfl⟩ : ∃ k, fuel = k + 1 := ⟨fuel - 1, by omega⟩
    rw [List.flatMap_cons, List.append_assoc, takeString_escape, ih fuel (by omega)]
    rfl

theorem length_le_length_flatMap_escape (text : List Char) :
    text.length ≤ (text.flatMap escape).length := by
  induction text with
  | nil => exact le_rfl
  | cons c text ih =>
    have hc : 0 < (escape c).length := by
      unfold escape
      split <;> try exact Nat.succ_pos _
      dsimp only
      split_ifs <;> exact Nat.succ_pos _
    simp only [List.flatMap_cons, List.length_append, List.length_cons]
    omega

theorem quoted_ne_nil (s : String) : (quoted s).toList ≠ [] := by
  simp [quoted]

theorem takeToken_quoted (s : String) (rest : List Char) :
    takeToken ((quoted s).toList ++ rest) = some (.string s, rest) := by
  have hlength := length_le_length_flatMap_escape s.toList
  have hfuel : s.toList.length < (s.toList.flatMap escape ++ '"' :: rest).length + 1 := by
    simp only [List.length_append, List.length_cons]
    omega
  have htake := takeString_append s.toList rest hfuel
  have htext : (quoted s).toList ++ rest = '"' :: (s.toList.flatMap escape ++ '"' :: rest) := by
    simp [quoted]
  rw [htext, takeToken, htake]
  simp

end Strings

/-- The tokens of a text, whatever fuel there is beyond what the text needs. -/
def Lexes (cs : List Char) (ts : List Token) : Prop :=
  ∀ fuel, cs.length < fuel → tokensOf fuel cs = some ts

theorem Lexes.nil : Lexes [] [] := by
  intro fuel h
  obtain ⟨fuel, rfl⟩ : ∃ k, fuel = k + 1 := ⟨fuel - 1, by omega⟩
  rfl

theorem Lexes.space {cs : List Char} {ts : List Token} {c : Char} (hc : isSpace c)
    (h : Lexes cs ts) : Lexes (c :: cs) ts := by
  intro fuel hfuel
  simp only [List.length_cons] at hfuel
  rw [← h fuel (by omega)]
  obtain ⟨fuel, rfl⟩ : ∃ k, fuel = k + 1 := ⟨fuel - 1, by omega⟩
  simp only [tokensOf, List.dropWhile_cons_of_pos hc]

theorem takeToken_of_isSpace {c : Char} {cs : List Char} (hc : isSpace c) :
    takeToken (c :: cs) = none := by
  simp only [isSpace, Bool.or_eq_true, decide_eq_true_eq] at hc
  rcases hc with ((rfl | rfl) | rfl) | rfl <;> rfl

theorem Lexes.token (text : List Char) {rest : List Char} {t : Token} {ts : List Token}
    (ht : takeToken (text ++ rest) = some (t, rest)) (hne : text ≠ []) (h : Lexes rest ts) :
    Lexes (text ++ rest) (t :: ts) := by
  obtain ⟨c, cs, rfl⟩ := List.exists_cons_of_ne_nil hne
  intro fuel hfuel
  obtain ⟨fuel, rfl⟩ : ∃ k, fuel = k + 1 := ⟨fuel - 1, by omega⟩
  simp only [List.length_append, List.length_cons] at hfuel
  have hc : ¬ isSpace c := by
    intro hc
    rw [List.cons_append, takeToken_of_isSpace hc] at ht
    cases ht
  rw [List.cons_append] at ht ⊢
  simp [tokensOf, List.dropWhile_cons_of_neg hc, ht, h fuel (by omega)]

theorem Lexes.lineBreak {cs : List Char} {ts : List Token} (depth : Nat) (h : Lexes cs ts) :
    Lexes ((lineBreak depth).toList ++ cs) ts := by
  have hblanks (n : Nat) : Lexes (List.replicate n ' ' ++ cs) ts := by
    induction n with
    | zero => exact h
    | succ n ih => exact ih.space rfl
  have htext : (Json.lineBreak depth).toList ++ cs =
      '\n' :: (List.replicate (2 * depth) ' ' ++ cs) := by
    simp [Json.lineBreak]
  rw [htext]
  exact (hblanks (2 * depth)).space rfl

theorem Lexes.member {cs : List Char} {ts : List Token} (key : String) (h : Lexes cs ts) :
    Lexes ((quoted key).toList ++ ':' :: ' ' :: cs) (.string key :: .colon :: ts) := by
  have hcolon : Lexes (':' :: ' ' :: cs) (.colon :: ts) :=
    (h.space (c := ' ') rfl).token [':'] rfl (by simp)
  exact hcolon.token _ (takeToken_quoted key _) (quoted_ne_nil key)

mutual

def toTokens : Json → List Token
  | null => [.null]
  | bool b => [.bool b]
  | number l => [.number l]
  | string s => [.string s]
  | array [] => [.openBracket, .closeBracket]
  | array (item :: items) => .openBracket :: toTokens item ++ itemTokens items ++ [.closeBracket]
  | object [] => [.openBrace, .closeBrace]
  | object ((key, value) :: members) =>
    .openBrace :: .string key :: .colon :: toTokens value ++ memberTokens members ++ [.closeBrace]

def itemTokens : List Json → List Token
  | [] => []
  | item :: items => .comma :: toTokens item ++ itemTokens items

def memberTokens : List (String × Json) → List Token
  | [] => []
  | (key, value) :: members =>
    .comma :: .string key :: .colon :: toTokens value ++ memberTokens members

end

theorem endsNumber_lineBreak (depth : Nat) (cs : List Char) :
    EndsNumber ((lineBreak depth).toList ++ cs) := by
  rw [lineBreak, String.toList_append]
  rintro c ⟨⟩
  decide

theorem endsNumber_prettyItems {depth : Nat} {items : List Json} {rest : List Char}
    (hrest : EndsNumber rest) : EndsNumber ((prettyItems depth items).toList ++ rest) := by
  cases items with
  | nil => simpa [prettyItems] using hrest
  | cons item items =>
    simp only [prettyItems, String.toList_append]
    rintro c ⟨⟩
    decide

theorem endsNumber_prettyMembers {depth : Nat} {members : List (String × Json)}
    {rest : List Char} (hrest : EndsNumber rest) :
    EndsNumber ((prettyMembers depth members).toList ++ rest) := by
  cases members with
  | nil => simpa [prettyMembers] using hrest
  | cons member members =>
    simp only [prettyMembers, String.toList_append]
    rintro c ⟨⟩
    decide

theorem text_ne_nil (l : Literal) : (l.text true).toList ≠ [] := by
  obtain ⟨d, ds, hds⟩ := exists_digits_eq_cons l.integer
  simp [toList_text, hds]

-- The text is lexed from its end: every token is put in front of text that is lexed already.
mutual

theorem lexes_prettyAt (depth : Nat) (v : Json) {rest : List Char} {ts : List Token}
    (hrest : EndsNumber rest) (h : Lexes rest ts) :
    Lexes ((prettyAt depth v).toList ++ rest) (toTokens v ++ ts) := by
  match v with
  | null =>
    have hnull := h.token ['n', 'u', 'l', 'l'] rfl (by simp)
    simpa [prettyAt, toTokens] using hnull
  | bool true =>
    have htrue := h.token ['t', 'r', 'u', 'e'] rfl (by simp)
    simpa [prettyAt, toTokens] using htrue
  | bool false =>
    have hfalse := h.token ['f', 'a', 'l', 's', 'e'] rfl (by simp)
    simpa [prettyAt, toTokens] using hfalse
  | number l => exact h.token _ (takeToken_text l hrest) (text_ne_nil l)
  | string s => exact h.token _ (takeToken_quoted s rest) (quoted_ne_nil s)
  | array [] =>
    have hclose := h.token [']'] rfl (by simp)
    have hopen := hclose.token ['['] rfl (by simp)
    simpa [prettyAt, toTokens] using hopen
  | array (item :: items) =>
    have hclose := (h.token [']'] rfl (by simp)).lineBreak depth
    have hitems := lexes_prettyItems (depth + 1) items (endsNumber_lineBreak _ _) hclose
    have hitem := lexes_prettyAt (depth + 1) item
      (endsNumber_prettyItems (endsNumber_lineBreak _ _)) hitems
    have hopen := (hitem.lineBreak (depth + 1)).token ['['] rfl (by simp)
    simpa [prettyAt, toTokens] using hopen
  | object [] =>
    have hclose := h.token ['\x7d'] rfl (by simp)
    have hopen := hclose.token ['\x7b'] rfl (by simp)
    simpa [prettyAt, toTokens] using hopen
  | object ((key, value) :: members) =>
    have hclose := (h.token ['\x7d'] rfl (by simp)).lineBreak depth
    have hmembers := lexes_prettyMembers (depth + 1) members (endsNumber_lineBreak _ _) hclose
    have hvalue := lexes_prettyAt (depth + 1) value
      (endsNumber_prettyMembers (endsNumber_lineBreak _ _)) hmembers
    have hopen := ((hvalue.member key).lineBreak (depth + 1)).token ['\x7b'] rfl (by simp)
    simpa [prettyAt, toTokens] using hopen

theorem lexes_prettyItems (depth : Nat) (items : List Json) {rest : List Char} {ts : List Token}
    (hrest : EndsNumber rest) (h : Lexes rest ts) :
    Lexes ((prettyItems depth items).toList ++ rest) (itemTokens items ++ ts) := by
  match items with
  | [] => simpa [prettyItems, itemTokens] using h
  | item :: items =>
    have hitems := lexes_prettyItems depth items hrest h
    have hitem := lexes_prettyAt depth item (endsNumber_prettyItems hrest) hitems
    have hcomma := (hitem.lineBreak depth).token [','] rfl (by simp)
    simpa [prettyItems, itemTokens] using hcomma

theorem lexes_prettyMembers (depth : Nat) (members : List (String × Json)) {rest : List Char}
    {ts : List Token} (hrest : EndsNumber rest) (h : Lexes rest ts) :
    Lexes ((prettyMembers depth members).toList ++ rest) (memberTokens members ++ ts) := by
  match members with
  | [] => simpa [prettyMembers, memberTokens] using h
  | (key, value) :: members =>
    have hmembers := lexes_prettyMembers depth members hrest h
    have hvalue := lexes_prettyAt depth value (endsNumber_prettyMembers hrest) hmembers
    have hcomma := ((hvalue.member key).lineBreak depth).token [','] rfl (by simp)
    simpa [prettyMembers, memberTokens] using hcomma

end

theorem tokens_pretty (v : Json) : tokens v.pretty.toList = some (toTokens v) := by
  have hend : EndsNumber [] := by rintro c ⟨⟩
  have h := lexes_prettyAt 0 v hend .nil
  rw [List.append_nil, List.append_nil] at h
  exact h _ (Nat.lt_succ_self _)

end GraphTransport.Json
