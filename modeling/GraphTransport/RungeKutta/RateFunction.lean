import GraphTransport.Evolution.Basic

namespace GraphTransport

structure RateFunction (ε σ α : Type) where
  stateSize : Except Violation Nat
  /-- The rates of a state in place of a vector that may hold anything. -/
  eval : {n : Nat} → Vector α n → Vector α n → σ → Evaluated ε σ α n

namespace RateFunction

variable {ε σ α : Type}

def ofTotal (f : {n : Nat} → Vector α n → Vector α n) : RateFunction ε Unit α where
  stateSize := .ok 0
  eval x _ _ := ⟨.ok (), f x, ()⟩

def linear [Scalar α] (c : α) : RateFunction ε Unit α :=
  ofTotal fun x ↦ x.map (c * ·)

def quadratic [Scalar α] (c : α) : RateFunction ε Unit α :=
  ofTotal fun {n} x ↦ Vector.ofFn fun i ↦
    have : (i.val + 1) % n < n := Nat.mod_lt _ i.pos
    x.get i * x[(i.val + 1) % n] - c * x.get i

def ofEvolution [Scalar α] (e : Evolution α) : RateFunction EvaluationError (Array α) α where
  stateSize := e.stateSize
  eval x y scratch := e.replaceRates x.toArray y scratch

end RateFunction

inductive MeterError (ε : Type) where
  | exhausted
  | inner (error : ε)
deriving Repr

structure Metered (σ : Type) where
  used : Nat
  memory : σ

def Fault.metered {ε : Type} : Fault ε → Fault (MeterError ε)
  | .refused e => .refused (.inner e)
  | .broken v => .broken v

namespace RateFunction

variable {ε σ α : Type}

/-- The same right-hand side with its evaluations counted; past the limit, if there is one, every
evaluation is refused and not counted. -/
def metered (limit : Option Nat) (f : RateFunction ε σ α) :
    RateFunction (MeterError ε) (Metered σ) α where
  stateSize := f.stateSize
  eval x y meter :=
    if limit.any (· ≤ meter.used) then
      ⟨.error (.refused .exhausted), y, meter⟩
    else
      let result := f.eval x y meter.memory
      ⟨result.outcome.mapError Fault.metered, result.rates, ⟨meter.used + 1, result.memory⟩⟩

end RateFunction

end GraphTransport
