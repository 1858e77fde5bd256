import GraphTransport.CommandLine.Run
import GraphTransport.Proofs.Settings.RoundTrip
import GraphTransport.Proofs.Traversal

namespace GraphTransport

def Json.problem? (value : Json) : Option Problem := value.choice? Problem.all fun p ↦ [p.name]

def Json.scheme? (value : Json) : Option Scheme := value.choice? Scheme.all Scheme.storedNames

def Json.odeMethod? (value : Json) : Option OdeMethod :=
  value.choice? OdeMethod.all fun k ↦ [k.name]

def Json.execution? (value : Json) : Option Execution :=
  value.choice? Execution.all fun e ↦ [e.name]

def SettingsField.Reads {α : Type} (codec : ScalarCodec α) (value : Json) : SettingsField → Prop
  | problem => value.problem?.isSome
  | scheme => value.scheme?.isSome
  | odeMethod => value.odeMethod?.isSome
  | numCells | reportInterval => value.count?.isSome
  | tFinal | dt => (value.scalar? codec).isSome
  | execution => value.execution?.isSome

/-- The settings `s` with what is stored in the place of what they say, and what is chosen in the
place of both. -/
def Overrides.layered {α : Type} (o : Overrides α) (codec : ScalarCodec α)
    (stored : SettingsField → Option Json) (s : Settings α) : Settings α where
  problem := (o.problem.or ((stored .problem).bind Json.problem?)).getD s.problem
  scheme := (o.scheme.or ((stored .scheme).bind Json.scheme?)).getD s.scheme
  odeMethod := (o.odeMethod.or ((stored .odeMethod).bind Json.odeMethod?)).getD s.odeMethod
  numCells := (o.numCells.or ((stored .numCells).bind Json.count?)).getD s.numCells
  tFinal := (o.tFinal.or ((stored .tFinal).bind (Json.scalar? codec))).getD s.tFinal
  dt := (o.dt.or ((stored .dt).bind (Json.scalar? codec))).getD s.dt
  reportInterval :=
    (o.reportInterval.or ((stored .reportInterval).bind Json.count?)).getD s.reportInterval
  execution :=
    if o.parallel then .parallel
    else ((stored .execution).bind Json.execution?).getD s.execution

section Layers

variable {α : Type} {codec : ScalarCodec α} {s : Settings α} {value : Json}
  {fields : List (SettingsField × Json)}

theorem Overrides.apply_layered (o : Overrides α) (stored : SettingsField → Option Json) :
    o.apply (Overrides.none.layered codec stored s) = o.layered codec stored s := by
  simp only [apply, layered, none, Option.none_or, Option.getD_or, Bool.false_eq_true, if_false]

def storeAt (f : SettingsField) (value : Json) (stored : SettingsField → Option Json) :
    SettingsField → Option Json :=
  fun g ↦ if g = f then some value else stored g

theorem lookup_cons_eq_storeAt (f : SettingsField) (value : Json)
    (fields : List (SettingsField × Json)) :
    (fun g ↦ ((f, value) :: fields).lookup g) = storeAt f value fun g ↦ fields.lookup g := by
  funext g
  rw [List.lookup_cons, storeAt]
  by_cases hg : g = f
  · simp [hg]
  · rw [beq_eq_false_iff_ne.2 hg, if_neg hg]

namespace SettingsField

variable {f : SettingsField} {stored : SettingsField → Option Json}

theorem assign?_of_reads (h : f.Reads codec value) : f.assign? codec s value =
    some (Overrides.none.layered codec (storeAt f value fun _ ↦ none) s) := by
  cases f <;> obtain ⟨x, hx⟩ := Option.isSome_iff_exists.1 h <;>
    refine Option.bind_eq_some_iff.2 ⟨x, hx, ?_⟩ <;>
    simp [pure, Overrides.layered, Overrides.none, storeAt, hx]

theorem assign?_of_not_reads (h : ¬ f.Reads codec value) : f.assign? codec s value = none := by
  cases f <;> exact Option.bind_eq_none_iff.2 fun x hx ↦ absurd (Option.isSome_of_eq_some hx) h

theorem layered_storeAt (h : f.Reads codec value) (hf : stored f = none) :
    Overrides.none.layered codec stored
        (Overrides.none.layered codec (storeAt f value fun _ ↦ none) s) =
      Overrides.none.layered codec (storeAt f value stored) s := by
  cases f <;> obtain ⟨x, hx⟩ := Option.isSome_iff_exists.1 h <;>
    simp [Overrides.layered, Overrides.none, storeAt, hx, hf]

end SettingsField

theorem Settings.assignAll?_eq (hnodup : (fields.map Prod.fst).Nodup)
    (hreads : ∀ m ∈ fields, m.1.Reads codec m.2) (s : Settings α) :
    assignAll? codec s fields =
      some (Overrides.none.layered codec (fun f ↦ fields.lookup f) s) := by
  induction fields generalizing s with
  | nil => rfl
  | cons first fields ih =>
    obtain ⟨f, value⟩ := first
    obtain ⟨hf, hfields⟩ := List.nodup_cons.1 hnodup
    obtain ⟨hvalue, hrest⟩ := List.forall_mem_cons.1 hreads
    have habsent : fields.lookup f = none := by
      rw [List.lookup_eq_none_iff]
      intro m hm
      simpa using fun h ↦ hf (List.mem_map.2 ⟨m, hm, h.symm⟩)
    rw [assignAll?_cons, SettingsField.assign?_of_reads hvalue, Option.bind_some, ih hfields hrest,
      lookup_cons_eq_storeAt, SettingsField.layered_storeAt hvalue habsent]

structure Readable (codec : ScalarCodec α) (members : List (String × Json)) : Prop where
  nodup : (members.map Prod.fst).Nodup
  reads : ∀ m ∈ members, ∃ f : SettingsField, f.key = m.1 ∧ f.Reads codec m.2

variable {members members' : List (String × Json)}

theorem Readable.of_perm (h : Readable codec members) (hperm : members'.Perm members) :
    Readable codec members' where
  nodup := (hperm.map Prod.fst).nodup_iff.2 h.nodup
  reads m hm := h.reads m (hperm.mem_iff.1 hm)

namespace SettingsField

def keyed (m : SettingsField × Json) : String × Json := (m.1.key, m.2)

theorem key_injective : Function.Injective key := by
  intro f g h
  apply Option.some.inj
  rw [← ofKey?_key f, ← ofKey?_key g, h]

theorem key_of_ofKey? {f : SettingsField} {k : String} (h : ofKey? k = some f) : f.key = k := by
  simpa using List.find?_some h

theorem mapM_ofKey?_eq_some_iff :
    (members.mapM fun (key, value) ↦ do return (← ofKey? key, value)) = some fields ↔
      fields.map keyed = members := by
  induction members generalizing fields with
  | nil => simp [eq_comm]
  | cons m members ih =>
    rw [List.mapM_cons]
    constructor
    · intro h
      obtain ⟨first, hfirst, h⟩ := Option.bind_eq_some_iff.1 h
      obtain ⟨rest, hrest, h⟩ := Option.bind_eq_some_iff.1 h
      obtain ⟨f, hf, hvalue⟩ := Option.bind_eq_some_iff.1 hfirst
      cases h
      cases hvalue
      rw [List.map_cons, ih.1 hrest, keyed, key_of_ofKey? hf]
    · intro h
      obtain ⟨first, rest, rfl, rfl, hrest⟩ := List.map_eq_cons_iff.1 h
      refine Option.bind_eq_some_iff.2 ⟨first, ?_, ?_⟩
      · exact Option.bind_eq_some_iff.2 ⟨first.1, ofKey?_key first.1, rfl⟩
      · exact Option.bind_eq_some_iff.2 ⟨rest, ih.2 hrest, rfl⟩

theorem lookup_map_keyed (f : SettingsField) :
    (fields.map keyed).lookup f.key = fields.lookup f := by
  induction fields with
  | nil => rfl
  | cons m fields ih =>
    have hkey : (f.key == m.1.key) = (f == m.1) := by
      rw [Bool.eq_iff_iff, beq_iff_eq, beq_iff_eq, key_injective.eq_iff]
    rw [List.map_cons, keyed, List.lookup_cons, List.lookup_cons, hkey, ih]

theorem exists_map_keyed
    (h : ∀ m ∈ members, ∃ f : SettingsField, f.key = m.1 ∧ f.Reads codec m.2) :
    ∃ fields : List (SettingsField × Json), fields.map keyed = members ∧
      ∀ m ∈ fields, m.1.Reads codec m.2 := by
  induction members with
  | nil => exact ⟨[], rfl, by simp⟩
  | cons m members ih =>
    obtain ⟨⟨f, hkey, hreads⟩, hrest⟩ := List.forall_mem_cons.1 h
    obtain ⟨fields, rfl, hfields⟩ := ih hrest
    refine ⟨(f, m.2) :: fields, ?_, List.forall_mem_cons.2 ⟨hreads, hfields⟩⟩
    rw [List.map_cons, keyed, hkey]

theorem nodup_map_keyed :
    ((fields.map keyed).map Prod.fst).Nodup ↔ (fields.map Prod.fst).Nodup := by
  have hkeys : (fields.map keyed).map Prod.fst = (fields.map Prod.fst).map key := by
    rw [List.map_map, List.map_map]
    rfl
  rw [hkeys, List.nodup_map_iff key_injective]

end SettingsField

namespace Settings

variable [Scalar α]

theorem ofJson?_of_readable (h : Readable codec members) : ofJson? codec (.object members) =
    some (Overrides.none.layered codec (fun f ↦ members.lookup f.key) default) := by
  obtain ⟨fields, rfl, hreads⟩ := SettingsField.exists_map_keyed h.reads
  have hnodup := SettingsField.nodup_map_keyed.1 h.nodup
  rw [ofJson?, SettingsField.mapM_ofKey?_eq_some_iff.2 rfl, Option.bind_eq_bind, Option.bind_some,
    guard, if_pos hnodup]
  simp only [SettingsField.lookup_map_keyed]
  exact assignAll?_eq hnodup hreads default

theorem ofJson?_of_not_readable (h : ¬ Readable codec members) :
    ofJson? codec (.object members) = none := by
  rw [Option.eq_none_iff_forall_ne_some]
  intro s hs
  simp only [ofJson?, Option.bind_eq_bind, Option.bind_eq_some_iff, guard] at hs
  obtain ⟨fields, hfields, _, hnodup, hs⟩ := hs
  obtain rfl := SettingsField.mapM_ofKey?_eq_some_iff.1 hfields
  refine h ⟨SettingsField.nodup_map_keyed.2 ?_, ?_⟩
  · by_contra hrepeated
    rw [if_neg hrepeated] at hnodup
    cases hnodup
  · intro m hm
    obtain ⟨⟨f, value⟩, hfield, rfl⟩ := List.mem_map.1 hm
    refine ⟨f, rfl, ?_⟩
    by_contra hreads
    rw [assignAll?_eq_none hfield fun _ ↦ SettingsField.assign?_of_not_reads hreads] at hs
    cases hs

end Settings

end Layers

namespace Options

variable {o : Options} {path : String} {readFile : String → Option ByteArray} {bytes : ByteArray}
  {members : List (String × Json)}

def checked (o : Options) (members : List (String × Json)) : Except String (Settings Float) :=
  let layers := o.overrides.layered .binary64 (fun f ↦ members.lookup f.key) .default
  match layers.validate with
  | .ok _ => .ok layers
  | .error e => .error (e.message Decimal.Style.plain.text)

theorem settings_eq (hconfig : o.config = some path) (hfile : readFile path = some bytes)
    (hobject : Json.parseBytes bytes = some (.object members)) : o.settings readFile =
      match Settings.ofJson? .binary64 (.object members) with
      | some s => (o.overrides.resolve s).mapError (·.message Decimal.Style.plain.text)
      | .none => .error (Settings.FileError.malformed path).message := by
  have hread : Json.parseBytes bytes >>= Settings.ofJson? .binary64 =
      Settings.ofJson? .binary64 (.object members) := by
    rw [hobject]
    rfl
  simp only [settings, hconfig, hfile, Settings.ofFile, hread]
  cases Settings.ofJson? .binary64 (.object members) <;> rfl

theorem settings_of_readable (hconfig : o.config = some path) (hfile : readFile path = some bytes)
    (hobject : Json.parseBytes bytes = some (.object members))
    (hmembers : Readable .binary64 members) : o.settings readFile = o.checked members := by
  rw [settings_eq hconfig hfile hobject, Settings.ofJson?_of_readable hmembers]
  simp only [Overrides.resolve, Overrides.apply_layered, checked]
  cases (o.overrides.layered .binary64 (fun f ↦ members.lookup f.key) Settings.default).validate <;>
    rfl

theorem settings_of_not_readable (hconfig : o.config = some path)
    (hfile : readFile path = some bytes)
    (hobject : Json.parseBytes bytes = some (.object members))
    (hmembers : ¬ Readable .binary64 members) :
    o.settings readFile = .error (Settings.FileError.malformed path).message := by
  rw [settings_eq hconfig hfile hobject, Settings.ofJson?_of_not_readable hmembers]

theorem checked_of_perm (hmembers : Readable .binary64 members)
    {members' : List (String × Json)} (hperm : members'.Perm members) :
    o.checked members' = o.checked members := by
  simp only [checked, lookup_eq_of_perm hmembers.nodup hperm]

/-- With an object of readable members in the settings file the settings are those in layers, if
these are valid, and otherwise the run is refused for what is not valid in them. The order of the
members does not matter. An object with another key, a repeated key or a value that cannot be read
is refused, whatever is chosen for the run. -/
theorem settings_of_object (hconfig : o.config = some path) (hfile : readFile path = some bytes)
    (hobject : Json.parseBytes bytes = some (.object members)) :
    (Readable .binary64 members → o.settings readFile = o.checked members ∧
      ∀ readFile' bytes' members', readFile' path = some bytes' →
        Json.parseBytes bytes' = some (.object members') → members'.Perm members →
          o.settings readFile' = o.settings readFile) ∧
    (¬ Readable .binary64 members →
      o.settings readFile = .error (Settings.FileError.malformed path).message) := by
  constructor
  · intro hmembers
    have hsettings := settings_of_readable hconfig hfile hobject hmembers
    refine ⟨hsettings, ?_⟩
    intro readFile' bytes' members' hfile' hobject' hperm
    have hsettings' := settings_of_readable hconfig hfile' hobject' (hmembers.of_perm hperm)
    rw [hsettings, hsettings', checked_of_perm hmembers hperm]
  · intro hmembers
    exact settings_of_not_readable hconfig hfile hobject hmembers

theorem settings_of_object_negative :
    let members : List (String × Json) :=
      [("dt", .number ⟨true, 1, [], .none⟩), ("vis_steps", .ofCount 5),
        ("scheme", .object [("high-order-target", .null)])]
    let o : Options :=
      ⟨some "run.json", { Overrides.none with dt := some 0.5, parallel := true }, .none⟩
    o.settings (fun _ ↦ some (Json.object members).pretty.toUTF8) =
      .ok { (Settings.default : Settings Float) with
        scheme := .highOrder, dt := 0.5, reportInterval := 5, execution := .parallel } := by
  intro members o
  have hobject : Json.parseBytes (Json.object members).pretty.toUTF8 = some (.object members) := by
    have hread : String.fromUTF8? (Json.object members).pretty.toUTF8 =
        some (Json.object members).pretty := dif_pos (Json.object members).pretty.isValidUTF8
    have hdepth : (Json.object members).depth ≤ Json.maxDepth := by
      decide
    rw [Json.parseBytes, hread]
    exact Json.parse_pretty hdepth
  have hmembers : Readable .binary64 members := by
    refine ⟨by decide, ?_⟩
    intro m hm
    simp only [members, List.mem_cons, List.not_mem_nil, or_false] at hm
    obtain rfl | rfl | rfl := hm
    · exact ⟨.dt, rfl, by unfold SettingsField.Reads; decide +kernel⟩
    · exact ⟨.reportInterval, rfl, rfl⟩
    · exact ⟨.scheme, rfl, rfl⟩
  let readFile : String → Option ByteArray := fun _ ↦ some (Json.object members).pretty.toUTF8
  have hsettings : o.settings readFile = o.checked members :=
    ((@settings_of_object o "run.json" readFile _ members rfl rfl hobject).1 hmembers).1
  exact hsettings.trans (by decide +kernel)

end Options

end GraphTransport
