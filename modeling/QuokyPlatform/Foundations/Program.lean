import Mathlib.Data.List.AList
import QuokyPlatform.Foundations.Machine

/-! # Asynchronous programs and the pools they run in

A program is a call of asynchronous code over a state it shares with other calls. It performs
atomic operations, and between two of them anything may happen to the shared state. An operation
gets one input from outside (a reading of the clock, an answer, a failure), and it may throw. An
exclusive section is a part of a program during which no other call takes a step.

A pool runs any number of programs. A crash ends all of them at once, wherever they are, and leaves
what the restart finds of the shared state. -/

namespace QuokyPlatform

set_option autoImplicit false
set_option maxHeartbeats 250000

inductive Program (σ ι ε : Type) : Type → Type 1
  | done {α : Type} (result : Except ε α) : Program σ ι ε α
  | atomic {α β : Type} (op : σ → ι → Option (Except ε β × σ))
      (next : Except ε β → Program σ ι ε α) : Program σ ι ε α
  | exclusive {α β : Type} (body : Program σ ι ε β)
      (next : Except ε β → Program σ ι ε α) : Program σ ι ε α

namespace Program

variable {σ ι ε : Type} {α β : Type}

/-- The program, followed by what becomes of its result. -/
def andThen : {α : Type} → Program σ ι ε α → (Except ε α → Program σ ι ε β) → Program σ ι ε β
  | _, .done result, rest => rest result
  | _, .atomic op next, rest => .atomic op fun result => (next result).andThen rest
  | _, .exclusive body next, rest => .exclusive body fun result => (next result).andThen rest

/-- What follows a call that may throw: nothing, when it throws. -/
def onOk (rest : α → Program σ ι ε β) : Except ε α → Program σ ι ε β
  | .ok a => rest a
  | .error e => .done (.error e)

instance : Monad (Program σ ι ε) where
  pure a := .done (.ok a)
  bind p rest := p.andThen (onOk rest)

theorem bind_def (p : Program σ ι ε α) (rest : α → Program σ ι ε β) :
    p >>= rest = p.andThen (onOk rest) := rfl

theorem pure_def (a : α) : (pure a : Program σ ι ε α) = .done (.ok a) := rfl

def raise (e : ε) : Program σ ι ε α := .done (.error e)

def ofExcept (result : Except ε α) : Program σ ι ε α := .done result

theorem ofExcept_ok_bind (a : α) (rest : α → Program σ ι ε β) :
    (ofExcept (.ok a) >>= rest) = rest a := rfl

/-- One operation. -/
def perform (op : σ → ι → Option (Except ε α × σ)) : Program σ ι ε α := .atomic op .done

/-- `try`: the result of the call as a value. -/
def attempt (p : Program σ ι ε α) : Program σ ι ε (Except ε α) := p.andThen fun r => .done (.ok r)

/-- A section with this much of it left, and whether that is anything. -/
def enter (body : Program σ ι ε β) (next : Except ε β → Program σ ι ε α) :
    Program σ ι ε α × Bool :=
  match body with
  | .done result => (next result, false)
  | body => (.exclusive body next, true)

/-- The whole call as one exclusive section. -/
def exclusively (p : Program σ ι ε α) : Program σ ι ε α := (p.enter .done).1

/-- The next operation of a program, and whether the program is inside a section after it. -/
def step : {α : Type} → Program σ ι ε α → σ → ι → Option (Program σ ι ε α × σ × Bool)
  | _, .done _, _, _ => none
  | _, .atomic op next, s, input => (op s input).map fun (result, t) => (next result, t, false)
  | _, .exclusive body next, s, input => (body.step s input).map fun (rest, t, _) =>
    ((rest.enter next).1, t, (rest.enter next).2)

end Program

/-- The calls in progress over a shared state; `focus` is the one that is inside a section. -/
structure Pool (σ ι ε : Type) where
  shared : σ
  threads : AList fun _ : ℕ => Program σ ι ε Unit
  focus : Option ℕ

inductive PoolAction (κ ι : Type)
  | spawn (thread : ℕ) (call : κ)
  | step (thread : ℕ) (input : ι)
  | crash
deriving DecidableEq, Repr

namespace Pool

variable {σ ι ε κ : Type}

def start (s : σ) : Pool σ ι ε := { shared := s, threads := ∅, focus := none }

/-- One action on a pool whose calls are `main call thread`. -/
def step (main : κ → ℕ → Program σ ι ε Unit) (restart : σ → σ) (pool : Pool σ ι ε) :
    PoolAction κ ι → Option (Pool σ ι ε)
  | .spawn thread call =>
    if thread ∈ pool.threads then none
    else some { pool with threads := pool.threads.insert thread (main call thread) }
  | .step thread input =>
    if pool.focus = none ∨ pool.focus = some thread then do
      let p ← pool.threads.lookup thread
      let (rest, s, inside) ← p.step pool.shared input
      return { shared := s, threads := pool.threads.insert thread rest,
               focus := if inside then some thread else none }
    else none
  | .crash => some { shared := restart pool.shared, threads := ∅, focus := none }

end Pool

end QuokyPlatform
