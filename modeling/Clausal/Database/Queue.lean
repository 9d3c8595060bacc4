import Clausal.Substitution.Basic

/-
  Write queues — changes held back and sent to an engine together

  An engine takes one request at a time. Changes to its store are queued in the
  order they are made and sent as one request: a single change on its own, more
  of them as the conjunction of their goals.

  What is proved:
    1. `flush_pending` — nothing stays queued, whether the engine accepts the
       request or not.
    2. `flush_of_isEmpty` — an empty queue asks the engine nothing.
-/

namespace Clausal

/-- What an engine is asked to do. -/
inductive Request where
  | assert (clause : Term)
  | retract (clause : Term)
  | solve (goal : Term)
  deriving DecidableEq

/-- Why a request came to nothing. -/
inductive EngineError where
  | rejected (goal reason : String)
  | batchFailed (operations : Nat)
  deriving DecidableEq, Repr

def EngineError.message : EngineError → String
  | .rejected goal reason => "engine rejected " ++ goal ++ ": " ++ reason
  | .batchFailed operations => "batch of " ++ toString operations ++ " operations failed"

/-- A reasoning engine with a state of its own. It answers a goal with the
bindings of each solution; the answers to other requests do not count. -/
abbrev Engine (σ : Type) := Request → σ → Except EngineError (List Substitution) × σ

/-- A change to the clauses of an engine. -/
inductive Operation where
  | insert (clause : Term)
  | delete (clause : Term)
  deriving DecidableEq

namespace Operation

/-- The goal that makes the change. -/
def goal : Operation → Term
  | .insert clause => .compound "assertz" [clause]
  | .delete clause => .compound "retract" [clause]

/-- The request that makes the change on its own. -/
def request : Operation → Request
  | .insert clause => .assert clause
  | .delete clause => .retract clause

end Operation

/-- Changes not yet sent, the oldest first. -/
structure WriteQueue where
  pending : List Operation
  deriving DecidableEq

namespace WriteQueue

/-- Nothing queued. -/
def empty : WriteQueue := ⟨[]⟩

instance : EmptyCollection WriteQueue := ⟨empty⟩

/-- Queues changes behind those that wait. -/
def push (q : WriteQueue) (operations : List Operation) : WriteQueue :=
  ⟨q.pending ++ operations⟩

def size (q : WriteQueue) : Nat := q.pending.length

def isEmpty (q : WriteQueue) : Bool := q.pending.isEmpty

/-- The goal that makes all the changes. -/
def batch? (q : WriteQueue) : Option Term :=
  if q.isEmpty then none else some (.conjunction (q.pending.map Operation.goal))

/-- The request that sends everything queued. -/
def request? (q : WriteQueue) : Option Request :=
  match q.pending with
  | [] => none
  | [operation] => some operation.request
  | operations => some (.solve (.conjunction (operations.map Operation.goal)))

/-- Whether the engine carried out everything queued: a batch without a solution
has failed. -/
def outcome (q : WriteQueue) : Except EngineError (List Substitution) → Except EngineError Unit
  | .error e => .error e
  | .ok answers =>
    if 1 < q.size && answers.isEmpty then .error (.batchFailed q.size) else .ok ()

/-- Sends everything queued. The queue is empty afterwards. -/
def flush {σ : Type} (q : WriteQueue) (engine : Engine σ) (state : σ) :
    Except EngineError Unit × WriteQueue × σ :=
  match q.request? with
  | none => (.ok (), ∅, state)
  | some request =>
    let (answer, state) := engine request state
    (q.outcome answer, ∅, state)

theorem flush_pending {σ : Type} (q : WriteQueue) (engine : Engine σ) (state : σ) :
    (q.flush engine state).2.1 = ∅ := by
  unfold flush
  split <;> rfl

theorem flush_of_isEmpty {σ : Type} {q : WriteQueue} (h : q.isEmpty = true) (engine : Engine σ)
    (state : σ) : q.flush engine state = (.ok (), ∅, state) := by
  have : q.pending = [] := by simpa [isEmpty] using h
  simp [flush, request?, this]

end WriteQueue

end Clausal
