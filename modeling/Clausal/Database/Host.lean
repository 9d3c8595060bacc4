import Clausal.Clause.Basic
import Clausal.Database.Queue

/-
  Databases — named clause stores in one engine

  The databases of a host share its engine and differ by name; every clause and
  goal is qualified with the name of its database, `db0 : p(a)`. A database
  queues its changes until it is asked a query or told to send them.

  What is proved:
    1. `Database.flush_size` and `Database.query_size` — after either nothing
       waits.
-/

namespace Clausal

/-- A named clause store and the changes that wait to be sent to it. -/
structure Database where
  name : String
  queue : WriteQueue
  deriving DecidableEq

namespace Database

/-- A term qualified with the name of the database. -/
def qualify (d : Database) (t : Term) : Term := .compound ":" [.atom d.name, t]

/-- How many changes wait. -/
def pending (d : Database) : Nat := d.queue.size

/-- Queues changes. -/
def push (d : Database) (operations : List Operation) : Database :=
  { d with queue := d.queue.push operations }

/-- Queues the insertion of a clause. -/
def insert (d : Database) (c : Clause) : Database := d.push [.insert (d.qualify c.term)]

/-- Queues the deletion of a clause. -/
def delete (d : Database) (c : Clause) : Database := d.push [.delete (d.qualify c.term)]

/-- Queues an update: first its deletions, then its additions. -/
def insertUpdate (d : Database) (u : Update) : Database :=
  u.adds.foldl insert (u.deletes.foldl delete d)

/-- Queues the opposite of an update: what it adds is deleted, then what it
deletes is inserted. -/
def deleteUpdate (d : Database) (u : Update) : Database :=
  u.deletes.foldl insert (u.adds.foldl delete d)

/-- Sends the changes that wait. -/
def flush {σ : Type} (d : Database) (engine : Engine σ) (state : σ) :
    Except EngineError Unit × Database × σ :=
  let (result, queue, state) := d.queue.flush engine state
  (result, { d with queue }, state)

/-- Answers a query after sending the changes that wait. Each answer keeps the
bindings of the query's own variables. -/
def query {σ : Type} (d : Database) (q : Query) (engine : Engine σ) (state : σ) :
    Except EngineError (List Substitution) × Database × σ :=
  match d.flush engine state with
  | (.error e, d, state) => (.error e, d, state)
  | (.ok (), d, state) =>
    let (answers, state) := engine (.solve (d.qualify q.term)) state
    (answers.map fun found => found.map (·.restrict q.term.freeVars), d, state)

theorem flush_size {σ : Type} (d : Database) (engine : Engine σ) (state : σ) :
    (d.flush engine state).2.1.pending = 0 := by
  simp only [flush, pending, WriteQueue.flush_pending]
  rfl

theorem query_size {σ : Type} (d : Database) (q : Query) (engine : Engine σ) (state : σ) :
    (d.query q engine state).2.1.pending = 0 := by
  have h := d.flush_size engine state
  unfold query
  split
  · rename_i heq
    rwa [heq] at h
  · rename_i heq
    rwa [heq] at h

end Database

/-- The state of an engine and the databases kept in it, in the order they were
made. -/
structure Host (σ : Type) where
  state : σ
  databases : List Database

/-- What a host can be told to do. Databases are counted from 0. -/
inductive Command where
  | create
  | insert (database : Nat) (clause : Clause)
  | delete (database : Nat) (clause : Clause)
  | insertUpdate (database : Nat) (update : Update)
  | deleteUpdate (database : Nat) (update : Update)
  | flush (database : Nat)
  | query (database : Nat) (query : Query)

/-- What a host has to say to a command. -/
inductive Reply where
  | created (name : String)
  | queued
  | flushed
  | answers (found : List Substitution)
  | failed (error : EngineError)
  | noDatabase

namespace Host

variable {σ : Type}

/-- A host without databases. -/
def new (state : σ) : Host σ := ⟨state, []⟩

/-- The name of the database with a number. -/
def nameOf (n : Nat) : String := "db" ++ String.ofList (Number.natChars n)

/-- Puts a database in the place of one of those there are. -/
def replace (h : Host σ) (n : Nat) (d : Database) (state : σ) : Host σ :=
  ⟨state, h.databases.set n d⟩

/-- Makes a database with a name of its own. -/
def create (h : Host σ) : Reply × Host σ :=
  let name := nameOf h.databases.length
  (.created name, { h with databases := h.databases ++ [⟨name, ∅⟩] })

/-- Queues changes in a database. -/
def enqueue (h : Host σ) (n : Nat) (change : Database → Database) : Reply × Host σ :=
  match h.databases[n]? with
  | some d => (.queued, h.replace n (change d) h.state)
  | none => (.noDatabase, h)

/-- Carries out a command. -/
def run (engine : Engine σ) (h : Host σ) : Command → Reply × Host σ
  | .create => h.create
  | .insert n c => h.enqueue n (·.insert c)
  | .delete n c => h.enqueue n (·.delete c)
  | .insertUpdate n u => h.enqueue n (·.insertUpdate u)
  | .deleteUpdate n u => h.enqueue n (·.deleteUpdate u)
  | .flush n =>
    match h.databases[n]? with
    | none => (.noDatabase, h)
    | some d =>
      match d.flush engine h.state with
      | (.ok (), d, state) => (.flushed, h.replace n d state)
      | (.error e, d, state) => (.failed e, h.replace n d state)
  | .query n q =>
    match h.databases[n]? with
    | none => (.noDatabase, h)
    | some d =>
      match d.query q engine h.state with
      | (.ok found, d, state) => (.answers found, h.replace n d state)
      | (.error e, d, state) => (.failed e, h.replace n d state)

end Host

end Clausal
