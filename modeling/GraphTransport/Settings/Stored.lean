import GraphTransport.Settings.Basic
import GraphTransport.Json.Reader
import GraphTransport.Decimal.Style
import GraphTransport.Decimal.Scaling

namespace GraphTransport

structure ScalarCodec (α : Type) where
  encode : α → Json
  decode : Decimal.Literal → Option α

def ScalarCodec.binary64 : ScalarCodec Float where
  encode x :=
    match Decimal.Binary.ofFloat x with
    | .finite negative m q => .number (Decimal.Style.stored.literal negative m q)
    | _ => .null
  decode := Decimal.readScaled

def Json.choice? {β : Type} (choices : List β) (names : β → List String) (value : Json) :
    Option β :=
  match value with
  | .string name | .object [(name, .null)] => choices.find? fun c ↦ (names c).contains name
  | _ => none

def Json.ofCount (n : Nat) : Json := .number ⟨false, n, [], none⟩

/-- Reads a count: a literal without sign, point and power of ten that fits into 64 bits. -/
def Json.count? : Json → Option Nat
  | .number ⟨false, n, [], none⟩ => if n < Nat.pow 2 64 then some n else none
  | _ => none

def Json.scalar? {α : Type} (codec : ScalarCodec α) : Json → Option α
  | .number l => codec.decode l
  | _ => none

def Scheme.storedNames : Scheme → List String
  | highOrder => ["high-order", "high-order-target"]
  | s => [s.name]

inductive SettingsField where
  | problem | scheme | odeMethod | numCells | tFinal | dt | reportInterval | execution
deriving DecidableEq, Repr

namespace SettingsField

def all : List SettingsField :=
  [problem, scheme, odeMethod, numCells, tFinal, dt, reportInterval, execution]

def key : SettingsField → String
  | problem => "problem"
  | scheme => "scheme"
  | odeMethod => "ode_solver"
  | numCells => "num_cells"
  | tFinal => "t_final"
  | dt => "dt"
  | reportInterval => "vis_steps"
  | execution => "execution"

def ofKey? (key : String) : Option SettingsField := all.find? fun f ↦ f.key == key

variable {α : Type}

def encode (codec : ScalarCodec α) (s : Settings α) : SettingsField → Json
  | problem => .string s.problem.name
  | scheme => .string s.scheme.name
  | odeMethod => .string s.odeMethod.name
  | numCells => .ofCount s.numCells
  | tFinal => codec.encode s.tFinal
  | dt => codec.encode s.dt
  | reportInterval => .ofCount s.reportInterval
  | execution => .string s.execution.name

def assign? (codec : ScalarCodec α) (s : Settings α) (value : Json) :
    SettingsField → Option (Settings α)
  | problem => do
    return { s with problem := ← value.choice? Problem.all fun p ↦ [p.name] }
  | scheme => do
    return { s with scheme := ← value.choice? Scheme.all Scheme.storedNames }
  | odeMethod => do
    return { s with odeMethod := ← value.choice? OdeMethod.all fun k ↦ [k.name] }
  | numCells => do return { s with numCells := ← value.count? }
  | tFinal => do return { s with tFinal := ← value.scalar? codec }
  | dt => do return { s with dt := ← value.scalar? codec }
  | reportInterval => do return { s with reportInterval := ← value.count? }
  | execution => do
    return { s with execution := ← value.choice? Execution.all fun e ↦ [e.name] }

end SettingsField

namespace Settings

variable {α : Type}

def toJson (codec : ScalarCodec α) (s : Settings α) : Json :=
  .object (SettingsField.all.map fun f ↦ (f.key, f.encode codec s))

def assignAll? (codec : ScalarCodec α) (s : Settings α)
    (fields : List (SettingsField × Json)) : Option (Settings α) :=
  fields.foldlM (fun s (field, value) ↦ field.assign? codec s value) s

variable [Scalar α]

/-- The settings that a value keeps. An unknown field, a repeated one or an item too many makes it
keep none. -/
def ofJson? (codec : ScalarCodec α) : Json → Option (Settings α)
  | .object members => do
    let fields ← members.mapM fun (key, value) ↦ return (← SettingsField.ofKey? key, value)
    guard (fields.map (·.1)).Nodup
    assignAll? codec default fields
  | .array items =>
    if items.length ≤ SettingsField.all.length then
      assignAll? codec default (SettingsField.all.zip items)
    else none
  | _ => none

def toText (codec : ScalarCodec α) (s : Settings α) : String := (s.toJson codec).pretty

def ofText? (codec : ScalarCodec α) (text : String) : Option (Settings α) :=
  Json.parse text >>= ofJson? codec

inductive FileError where
  | unreadable (path : String)
  | malformed (path : String)
deriving DecidableEq, Repr

def FileError.message : FileError → String
  | unreadable path => "failed to open settings file " ++ path
  | malformed path => "failed to parse settings file " ++ path

def ofFile (codec : ScalarCodec α) (path : String) (contents : Option ByteArray) :
    Except FileError (Settings α) :=
  match contents with
  | none => .error (.unreadable path)
  | some bytes =>
    match Json.parseBytes bytes >>= ofJson? codec with
    | some s => .ok s
    | none => .error (.malformed path)

end Settings

end GraphTransport
