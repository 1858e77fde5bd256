import GraphTransport.Proofs.Json.Tokens

namespace GraphTransport.Json

mutual

def depth : Json → Nat
  | array items => itemsDepth items + 1
  | object members => membersDepth members + 1
  | _ => 0

def itemsDepth : List Json → Nat
  | [] => 0
  | item :: items => max (depth item) (itemsDepth items)

def membersDepth : List (String × Json) → Nat
  | [] => 0
  | (_, value) :: members => max (depth value) (membersDepth members)

end

theorem toTokens_ne_nil (v : Json) : toTokens v ≠ [] := by
  fun_cases toTokens v <;> simp

theorem toTokens_head_ne_closeBracket (v : Json) {ts : List Token} :
    ∀ t ∈ (toTokens v ++ ts).head?, t ≠ .closeBracket := by
  fun_cases toTokens v <;> simp

theorem takeValue_openBracket {fuel d : Nat} {ts : List Token}
    (h : ∀ t ∈ ts.head?, t ≠ .closeBracket) :
    takeValue (fuel + 1) (d + 1) (.openBracket :: ts) = takeItems fuel d [] ts := by
  rw [takeValue]
  intro rest hrest
  exact h .closeBracket (by rw [hrest]; rfl) rfl

mutual

/-- Two units of fuel for each token are enough. -/
theorem takeValue_toTokens (v : Json) (fuel d : Nat) (rest : List Token)
    (hfuel : 2 * (toTokens v).length ≤ fuel) (hd : v.depth ≤ d) :
    takeValue fuel d (toTokens v ++ rest) = some (v, rest) := by
  have hpos := List.length_pos_iff.2 (toTokens_ne_nil v)
  obtain ⟨fuel, rfl⟩ : ∃ k, fuel = k + 1 := ⟨fuel - 1, by omega⟩
  match v with
  | null => rfl
  | bool b => rfl
  | number l => rfl
  | string s => rfl
  | array [] =>
    obtain ⟨d, rfl⟩ : ∃ k, d = k + 1 := ⟨d - 1, by simp [depth] at hd; omega⟩
    rfl
  | array (item :: items) =>
    simp only [depth, itemsDepth] at hd
    simp only [toTokens, List.length_append, List.length_cons, List.length_nil] at hfuel
    obtain ⟨d, rfl⟩ : ∃ k, d = k + 1 := ⟨d - 1, by omega⟩
    obtain ⟨fuel, rfl⟩ : ∃ k, fuel = k + 1 := ⟨fuel - 1, by omega⟩
    have hitem := takeValue_toTokens item fuel d (itemTokens items ++ .closeBracket :: rest)
      (by omega) (by omega)
    have hitems := takeItems_of_takeValue items [] hitem (by omega) (by omega)
    simp only [toTokens, List.cons_append, List.append_assoc, List.nil_append]
    rw [takeValue_openBracket (toTokens_head_ne_closeBracket item)]
    exact hitems
  | object [] =>
    obtain ⟨d, rfl⟩ : ∃ k, d = k + 1 := ⟨d - 1, by simp [depth] at hd; omega⟩
    rfl
  | object ((key, value) :: members) =>
    simp only [depth, membersDepth] at hd
    simp only [toTokens, List.length_append, List.length_cons, List.length_nil] at hfuel
    obtain ⟨d, rfl⟩ : ∃ k, d = k + 1 := ⟨d - 1, by omega⟩
    obtain ⟨fuel, rfl⟩ : ∃ k, fuel = k + 1 := ⟨fuel - 1, by omega⟩
    have hvalue := takeValue_toTokens value fuel d (memberTokens members ++ .closeBrace :: rest)
      (by omega) (by omega)
    have hmembers := takeMembers_of_takeValue key members [] hvalue (by omega) (by omega)
    simp only [toTokens, List.cons_append, List.append_assoc, List.nil_append]
    exact hmembers

theorem takeItems_of_takeValue (items read : List Json) {fuel d : Nat} {item : Json}
    {ts rest : List Token}
    (hitem : takeValue fuel d ts = some (item, itemTokens items ++ .closeBracket :: rest))
    (hfuel : 2 * (itemTokens items).length ≤ fuel) (hd : itemsDepth items ≤ d) :
    takeItems (fuel + 1) d read ts = some (.array (read.reverse ++ item :: items), rest) := by
  rw [takeItems, hitem]
  match items with
  | [] => simp [itemTokens]
  | next :: items =>
    simp only [itemTokens, List.length_append, List.length_cons] at hfuel
    simp only [itemsDepth] at hd
    obtain ⟨fuel, rfl⟩ : ∃ k, fuel = k + 1 := ⟨fuel - 1, by omega⟩
    have hnext := takeValue_toTokens next fuel d (itemTokens items ++ .closeBracket :: rest)
      (by omega) (by omega)
    have hitems := takeItems_of_takeValue items (item :: read) hnext (by omega) (by omega)
    simpa [itemTokens] using hitems

theorem takeMembers_of_takeValue (key : String) (members read : List (String × Json))
    {fuel d : Nat} {value : Json} {ts rest : List Token}
    (hvalue : takeValue fuel d ts = some (value, memberTokens members ++ .closeBrace :: rest))
    (hfuel : 2 * (memberTokens members).length ≤ fuel) (hd : membersDepth members ≤ d) :
    takeMembers (fuel + 1) d read (.string key :: .colon :: ts) =
      some (.object (read.reverse ++ (key, value) :: members), rest) := by
  rw [takeMembers, hvalue]
  match members with
  | [] => simp [memberTokens]
  | (nextKey, next) :: members =>
    simp only [memberTokens, List.length_append, List.length_cons] at hfuel
    simp only [membersDepth] at hd
    obtain ⟨fuel, rfl⟩ : ∃ k, fuel = k + 1 := ⟨fuel - 1, by omega⟩
    have hnext := takeValue_toTokens next fuel d (memberTokens members ++ .closeBrace :: rest)
      (by omega) (by omega)
    have hmembers := takeMembers_of_takeValue nextKey members ((key, value) :: read) hnext
      (by omega) (by omega)
    simpa [memberTokens] using hmembers

end

theorem parse_pretty {v : Json} (hv : v.depth ≤ maxDepth) : parse v.pretty = some v := by
  have hvalue := takeValue_toTokens v (2 * (toTokens v).length + 1) maxDepth [] (by omega) hv
  rw [List.append_nil] at hvalue
  simp [parse, tokens_pretty, hvalue]

end GraphTransport.Json
