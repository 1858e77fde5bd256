import GraphTransport.Proofs.Decimal.Nearest
import GraphTransport.Proofs.Json.RoundTrip
import GraphTransport.Settings.Stored
import GraphTransport.Scalar.Binary64

namespace GraphTransport

/-- Finite doubles are found again. There is no literal for the others, and no literal is read as
one of them. -/
structure ScalarCodec.Faithful (codec : ScalarCodec Float) : Prop where
  decode_encode : ∀ x, x.isFinite → ∃ l, codec.encode x = .number l ∧ codec.decode l = some x
  encode_eq_null : ∀ x, ¬ x.isFinite → codec.encode x = .null
  isFinite_of_decode : ∀ l x, codec.decode l = some x → x.isFinite

def ScalarCodec.nearest : ScalarCodec Float :=
  { ScalarCodec.binary64 with decode := Decimal.readNearest }

theorem ScalarCodec.faithful_nearest : ScalarCodec.nearest.Faithful where
  decode_encode x hx := by
    obtain ⟨negative, m, q, hdouble, hread⟩ := Decimal.readNearest_literal hx .stored
    refine ⟨_, ?_, hread⟩
    simp only [nearest, binary64, hdouble]
  encode_eq_null x hx := by
    simp only [nearest, binary64]
    split
    · next hdouble => exact absurd hdouble (Decimal.ofFloat_ne_finite hx _ _ _)
    · rfl
  isFinite_of_decode _ _ h := Decimal.isFinite_of_readNearest h

variable {codec : ScalarCodec Float} {s t : Settings Float}

namespace SettingsField

theorem ofKey?_key (f : SettingsField) : ofKey? f.key = some f := by
  cases f <;> rfl

theorem nodup_all : all.Nodup := by decide

theorem mem_all (f : SettingsField) : f ∈ all := by
  cases f <;> decide

def Storable (s : Settings Float) : SettingsField → Prop
  | numCells => s.numCells < 2 ^ 64
  | tFinal => s.tFinal.isFinite
  | dt => s.dt.isFinite
  | reportInterval => s.reportInterval < 2 ^ 64
  | _ => True

def copy (s t : Settings Float) : SettingsField → Settings Float
  | problem => { t with problem := s.problem }
  | scheme => { t with scheme := s.scheme }
  | odeMethod => { t with odeMethod := s.odeMethod }
  | numCells => { t with numCells := s.numCells }
  | tFinal => { t with tFinal := s.tFinal }
  | dt => { t with dt := s.dt }
  | reportInterval => { t with reportInterval := s.reportInterval }
  | execution => { t with execution := s.execution }

theorem foldl_copy_all (s t : Settings Float) : all.foldl (fun t f ↦ f.copy s t) t = s := by
  simp only [all, List.foldl_cons, List.foldl_nil, copy]

theorem count?_ofCount {n : Nat} (h : n < 2 ^ 64) : (Json.ofCount n).count? = some n :=
  if_pos h

theorem choice?_problem (p : Problem) :
    (Json.string p.name).choice? Problem.all (fun p ↦ [p.name]) = some p := by
  cases p <;> rfl

theorem choice?_scheme (s : Scheme) :
    (Json.string s.name).choice? Scheme.all Scheme.storedNames = some s := by
  cases s <;> rfl

theorem choice?_odeMethod (k : OdeMethod) :
    (Json.string k.name).choice? OdeMethod.all (fun k ↦ [k.name]) = some k := by
  cases k <;> rfl

theorem choice?_execution (e : Execution) :
    (Json.string e.name).choice? Execution.all (fun e ↦ [e.name]) = some e := by
  cases e <;> rfl

theorem scalar?_encode (hcodec : codec.Faithful) {x : Float} (hx : x.isFinite) :
    (codec.encode x).scalar? codec = some x := by
  obtain ⟨l, hl, hx⟩ := hcodec.decode_encode x hx
  rw [hl]
  exact hx

theorem depth_encode (hcodec : codec.Faithful) (f : SettingsField) :
    (f.encode codec s).depth = 0 := by
  have hscalar (x : Float) : (codec.encode x).depth = 0 := by
    by_cases hx : x.isFinite
    · obtain ⟨l, hl, -⟩ := hcodec.decode_encode x hx
      rw [hl]
      rfl
    · rw [hcodec.encode_eq_null x hx]
      rfl
  cases f <;> first | exact hscalar _ | rfl

theorem assign?_encode (hcodec : codec.Faithful) (f : SettingsField) (hf : f.Storable s) :
    f.assign? codec t (f.encode codec s) = some (f.copy s t) := by
  cases f with
  | problem => simp [assign?, encode, choice?_problem, copy]
  | scheme => simp [assign?, encode, choice?_scheme, copy]
  | odeMethod => simp [assign?, encode, choice?_odeMethod, copy]
  | numCells => simp [assign?, encode, count?_ofCount hf, copy]
  | tFinal => simp [assign?, encode, scalar?_encode hcodec hf, copy]
  | dt => simp [assign?, encode, scalar?_encode hcodec hf, copy]
  | reportInterval => simp [assign?, encode, count?_ofCount hf, copy]
  | execution => simp [assign?, encode, choice?_execution, copy]

theorem lt_of_count? {value : Json} {n : Nat} (h : value.count? = some n) : n < 2 ^ 64 := by
  unfold Json.count? at h
  split at h
  · split_ifs at h with hn
    cases h
    exact hn
  · cases h

theorem isFinite_of_scalar? (hcodec : codec.Faithful) {value : Json} {x : Float}
    (h : value.scalar? codec = some x) : x.isFinite := by
  cases value with
  | number l => exact hcodec.isFinite_of_decode l x h
  | _ => cases h

theorem eq_copy_of_assign? (hcodec : codec.Faithful) {f : SettingsField} {value : Json}
    (h : f.assign? codec s value = some t) : t = f.copy t s ∧ f.Storable t := by
  cases f with
  | problem | scheme | odeMethod | execution =>
    obtain ⟨c, -, ⟨⟩⟩ := Option.bind_eq_some_iff.1 h
    exact ⟨rfl, trivial⟩
  | numCells | reportInterval =>
    obtain ⟨n, hn, ⟨⟩⟩ := Option.bind_eq_some_iff.1 h
    exact ⟨rfl, lt_of_count? hn⟩
  | tFinal | dt =>
    obtain ⟨x, hx, ⟨⟩⟩ := Option.bind_eq_some_iff.1 h
    exact ⟨rfl, isFinite_of_scalar? hcodec hx⟩

theorem storable_copy {f g : SettingsField} (hf : f.Storable s) (hg : g.Storable t) :
    g.Storable (f.copy s t) := by
  by_cases h : g = f
  · subst h
    cases g <;> exact hf
  · cases f <;> cases g <;> first | exact hg | exact absurd rfl h

theorem assign?_encode_of_not_isFinite (hcodec : codec.Faithful) {f : SettingsField}
    (hf : f = tFinal ∧ ¬ s.tFinal.isFinite ∨ f = dt ∧ ¬ s.dt.isFinite) :
    f.assign? codec t (f.encode codec s) = none := by
  rcases hf with ⟨rfl, hx⟩ | ⟨rfl, hx⟩
  · simp [assign?, encode, hcodec.encode_eq_null _ hx, Json.scalar?]
  · simp [assign?, encode, hcodec.encode_eq_null _ hx, Json.scalar?]

end SettingsField

namespace Settings

def Storable (s : Settings Float) : Prop := ∀ f : SettingsField, f.Storable s

theorem storable_default : (default : Settings Float).Storable := by
  intro f
  cases f <;> simp [SettingsField.Storable] <;> decide

theorem Storable.of_assign? (hcodec : codec.Faithful) (hs : s.Storable) {f : SettingsField}
    {value : Json} (h : f.assign? codec s value = some t) : t.Storable := by
  intro g
  obtain ⟨ht, hf⟩ := SettingsField.eq_copy_of_assign? hcodec h
  rw [ht]
  exact SettingsField.storable_copy hf (hs g)

theorem Storable.of_assignAll? (hcodec : codec.Faithful) {fields : List (SettingsField × Json)}
    (hs : s.Storable) (h : assignAll? codec s fields = some t) : t.Storable := by
  induction fields generalizing s with
  | nil =>
    cases h
    exact hs
  | cons field fields ih =>
    obtain ⟨s', hs', h⟩ := Option.bind_eq_some_iff.1 h
    exact ih (hs.of_assign? hcodec hs') h

theorem storable_of_ofJson? (hcodec : codec.Faithful) {value : Json}
    (h : ofJson? codec value = some s) : s.Storable := by
  cases value with
  | object members =>
    simp only [ofJson?, Option.bind_eq_bind, Option.bind_eq_some_iff] at h
    obtain ⟨fields, -, -, -, h⟩ := h
    exact storable_default.of_assignAll? hcodec h
  | array items =>
    simp only [ofJson?] at h
    split_ifs at h
    exact storable_default.of_assignAll? hcodec h
  | _ => cases h

theorem assignAll?_cons {α : Type} {codec : ScalarCodec α} (f : SettingsField) (value : Json)
    (fields : List (SettingsField × Json)) (t : Settings α) :
    assignAll? codec t ((f, value) :: fields) =
      (f.assign? codec t value).bind fun t ↦ assignAll? codec t fields :=
  List.foldlM_cons

theorem assignAll?_map_encode (hcodec : codec.Faithful) (hs : s.Storable)
    (fields : List SettingsField) (t : Settings Float) :
    assignAll? codec t (fields.map fun f ↦ (f, f.encode codec s)) =
      some (fields.foldl (fun t f ↦ f.copy s t) t) := by
  induction fields generalizing t with
  | nil => rfl
  | cons f fields ih =>
    rw [List.map_cons, assignAll?_cons, SettingsField.assign?_encode hcodec f (hs f),
      Option.bind_some, ih, List.foldl_cons]

theorem assignAll?_eq_none {α : Type} {codec : ScalarCodec α} {f : SettingsField} {value : Json}
    {fields : List (SettingsField × Json)} (hmem : (f, value) ∈ fields)
    (hnone : ∀ t, f.assign? codec t value = none) (t : Settings α) :
    assignAll? codec t fields = none := by
  induction fields generalizing t with
  | nil => cases hmem
  | cons field fields ih =>
    rw [assignAll?_cons]
    rcases List.mem_cons.1 hmem with rfl | hmem
    · rw [hnone, Option.bind_none]
    · cases h : field.1.assign? codec t field.2 with
      | none => rfl
      | some t' => exact ih hmem t'

theorem ofJson?_toJson (codec : ScalarCodec Float) (s : Settings Float) :
    ofJson? codec (s.toJson codec) =
      assignAll? codec default (SettingsField.all.map fun f ↦ (f, f.encode codec s)) := by
  have hfields {read : String × Json → Option (SettingsField × Json)}
      (hread : ∀ f, read (f.key, f.encode codec s) = some (f, f.encode codec s))
      (fields : List SettingsField) : (fields.map fun f ↦ (f.key, f.encode codec s)).mapM read =
        some (fields.map fun f ↦ (f, f.encode codec s)) := by
    induction fields with
    | nil => rfl
    | cons f fields ih =>
      rw [List.map_cons, List.mapM_cons, ih, hread]
      rfl
  have hnodup : ((SettingsField.all.map fun f ↦ (f, f.encode codec s)).map (·.1)).Nodup := by
    rw [List.map_map]
    exact (List.map_id SettingsField.all).symm ▸ SettingsField.nodup_all
  rw [toJson, ofJson?, hfields fun f ↦ by simp only [f.ofKey?_key]; rfl]
  rw [Option.bind_eq_bind, Option.bind_some, guard, if_pos hnodup]
  rfl

theorem depth_toJson (hcodec : codec.Faithful) (s : Settings Float) :
    (s.toJson codec).depth ≤ Json.maxDepth := by
  have hfields (fields : List SettingsField) :
      Json.membersDepth (fields.map fun f ↦ (f.key, f.encode codec s)) = 0 := by
    induction fields with
    | nil => rfl
    | cons f fields ih => simp [Json.membersDepth, f.depth_encode hcodec, ih]
  simp [toJson, Json.depth, hfields, Json.maxDepth]

theorem ofText?_toText (hcodec : codec.Faithful) (s : Settings Float) :
    ofText? codec (s.toText codec) = ofJson? codec (s.toJson codec) := by
  rw [ofText?, toText, Json.parse_pretty (s.depth_toJson hcodec)]
  rfl

theorem ofText?_toText_of_storable (hcodec : codec.Faithful) (hs : s.Storable) :
    ofText? codec (s.toText codec) = some s := by
  rw [ofText?_toText hcodec, ofJson?_toJson, assignAll?_map_encode hcodec hs,
    SettingsField.foldl_copy_all]

theorem ofFile_toUTF8 (codec : ScalarCodec Float) (path text : String) :
    ofFile codec path (some text.toUTF8) =
      (ofText? codec text).elim (.error (.malformed path)) .ok := by
  have hread : String.fromUTF8? text.toUTF8 = some text := dif_pos text.isValidUTF8
  have htext : (some text >>= Json.parse) >>= ofJson? codec = ofText? codec text := rfl
  rw [ofFile, Json.parseBytes, hread, htext]
  cases ofText? codec text <;> rfl

theorem ofFile_toText_of_storable (hcodec : codec.Faithful) (hs : s.Storable) (path : String) :
    ofFile codec path (some (s.toText codec).toUTF8) = .ok s := by
  rw [ofFile_toUTF8, ofText?_toText_of_storable hcodec hs]
  rfl

theorem ofFile_toText_of_not_isFinite (hcodec : codec.Faithful)
    (hs : ¬ (s.tFinal.isFinite ∧ s.dt.isFinite)) (path : String) :
    ofFile codec path (some (s.toText codec).toUTF8) = .error (.malformed path) := by
  obtain ⟨f, hf⟩ : ∃ f, f = SettingsField.tFinal ∧ ¬ s.tFinal.isFinite ∨
      f = SettingsField.dt ∧ ¬ s.dt.isFinite := by
    by_cases hx : s.tFinal.isFinite
    · exact ⟨_, .inr ⟨rfl, fun hdt ↦ hs ⟨hx, hdt⟩⟩⟩
    · exact ⟨_, .inl ⟨rfl, hx⟩⟩
  have hmem := List.mem_map_of_mem (f := fun f ↦ (f, f.encode codec s)) f.mem_all
  rw [ofFile_toUTF8, ofText?_toText hcodec, ofJson?_toJson, assignAll?_eq_none hmem
    fun _ ↦ SettingsField.assign?_encode_of_not_isFinite hcodec hf]
  rfl

theorem storable_of_ofFile (hcodec : codec.Faithful) {path : String}
    {contents : Option ByteArray} (h : ofFile codec path contents = .ok s) : s.Storable := by
  unfold ofFile at h
  split at h
  · cases h
  · split at h
    · next hread =>
      cases h
      obtain ⟨value, -, hvalue⟩ := Option.bind_eq_some_iff.1 hread
      exact storable_of_ofJson? hcodec hvalue
    · cases h

/-- Settings are found again in the file that keeps them if both of their numbers are finite, and
the file is refused otherwise. Whatever file is accepted, the settings in it are found again once
they are written out. -/
theorem ofFile_toText (hcodec : codec.Faithful) (path : String) :
    (∀ s : Settings Float, s.numCells < 2 ^ 64 → s.reportInterval < 2 ^ 64 →
      ofFile codec path (some (s.toText codec).toUTF8) =
        if s.tFinal.isFinite ∧ s.dt.isFinite then .ok s else .error (.malformed path)) ∧
    ∀ source contents s, ofFile codec source contents = .ok s →
      ofFile codec path (some (s.toText codec).toUTF8) = .ok s := by
  constructor
  · intro s hcells hinterval
    split
    · next hfinite =>
      refine ofFile_toText_of_storable hcodec ?_ path
      intro f
      cases f with
      | numCells => exact hcells
      | tFinal => exact hfinite.1
      | dt => exact hfinite.2
      | reportInterval => exact hinterval
      | _ => trivial
    · next hfinite => exact ofFile_toText_of_not_isFinite hcodec hfinite path
  · intro source contents s h
    exact ofFile_toText_of_storable hcodec (storable_of_ofFile hcodec h) path

theorem ofFile_toText_nearest :
    let written : Settings Float := { (default : Settings Float) with dt := 0.5 }
    let endless : Settings Float := { (default : Settings Float) with tFinal := 1.0 / 0.0 }
    let source := "\x7b\"scheme\": \x7b\"high-order-target\": null\x7d, \"dt\": 5e-1\x7d"
    let read : Settings Float := { written with scheme := .highOrder }
    ofFile .nearest "settings.json" (some (written.toText .nearest).toUTF8) = .ok written ∧
      ofFile .nearest "settings.json" (some (endless.toText .nearest).toUTF8) =
        .error (.malformed "settings.json") ∧
      ofFile .nearest "source.json" (some source.toUTF8) = .ok read ∧
      ofFile .nearest "settings.json" (some (read.toText .nearest).toUTF8) = .ok read := by
  intro written endless source read
  obtain ⟨hwrite, hrewrite⟩ := ofFile_toText ScalarCodec.faithful_nearest "settings.json"
  have hread : ofFile .nearest "source.json" (some source.toUTF8) = .ok read := by
    decide +kernel
  refine ⟨?_, ?_, hread, hrewrite _ _ _ hread⟩
  · rw [hwrite written (by decide) (by decide)]
    exact if_pos (by decide +kernel)
  · rw [hwrite endless (by decide) (by decide)]
    exact if_neg (by decide +kernel)

end Settings

end GraphTransport
