import Clausal.Database.Host

/-
  Requests — what a database asks of the engine, and in which order

  An engine with a log keeps every request and its answer, so that what was sent
  can be told afterwards, whatever the engine made of it. A request says which
  changes it makes: a batch is a conjunction of goals, each of which makes one
  change, and it comes apart into just these goals, for a goal that makes a
  change is no conjunction even when its clause is one.

  What is proved:
    1. `operations_of_request?` — the request that sends a queue makes the
       changes queued, in their order; `operations_query` — a query makes none.
    2. `flush_sent` — a queue is sent in one request, and an empty one in none.
    3. `query_asked` — a query sends the queue first and asks for its goal behind
       it, unless the queue is refused.
    4. `flush_unlogged`, `query_unlogged` — the log makes no difference.
-/

namespace Clausal

/-- A request and what the engine answered. -/
structure Exchange where
  request : Request
  answer : Except EngineError (List Substitution)

/-- The engine with a log of every request and its answer. -/
def Engine.logged {σ : Type} (engine : Engine σ) : Engine (σ × List Exchange) :=
  fun request state =>
    let (answer, next) := engine request state.1
    (answer, next, state.2 ++ [⟨request, answer⟩])

/-! ## The changes that a request makes -/

/-- The clause that a change inserts or deletes. -/
def Operation.clause : Operation → Term
  | .insert clause => clause
  | .delete clause => clause

/-- The change that a goal makes. -/
def Operation.ofGoal? : Term → Option Operation
  | .compound "assertz" [clause] => some (.insert clause)
  | .compound "retract" [clause] => some (.delete clause)
  | _ => none

/-- The changes that a request makes, in their order. -/
def Request.operations : Request → List Operation
  | .assert clause => [.insert clause]
  | .retract clause => [.delete clause]
  | .solve goal => goal.conjuncts.filterMap Operation.ofGoal?

/-- The changes that the requests of a log make, in their order. -/
def operationsOf (log : List Exchange) : List Operation :=
  log.flatMap fun exchange => exchange.request.operations

@[simp] theorem operationsOf_append (log more : List Exchange) :
    operationsOf (log ++ more) = operationsOf log ++ operationsOf more :=
  List.flatMap_append

theorem ofGoal?_goal (o : Operation) : Operation.ofGoal? o.goal = some o := by
  cases o <;> rfl

theorem conjuncts_goal (o : Operation) : o.goal.conjuncts = [o.goal] := by
  refine Term.conjuncts_of_unconj? ?_
  cases o <;> rfl

theorem operations_batch {os : List Operation} (h : os ≠ []) :
    (Request.solve (.conjunction (os.map Operation.goal))).operations = os := by
  have hgoals : os.map Operation.goal ≠ [] := by simpa using h
  rw [Request.operations, Term.conjuncts_conjunction hgoals, List.flatMap_map]
  simp only [conjuncts_goal]
  rw [← List.map_eq_flatMap, List.filterMap_map]
  simp only [Function.comp_def, ofGoal?_goal, List.filterMap_some]

/-- The request that sends a queue makes the changes queued. -/
theorem operations_of_request? {queue : WriteQueue} {request : Request}
    (h : queue.request? = some request) :
    queue.pending ≠ [] ∧ request.operations = queue.pending := by
  unfold WriteQueue.request? at h
  split at h
  · cases h
  · rename_i o hpending
    obtain rfl := Option.some.inj h
    rw [hpending]
    cases o <;> exact ⟨List.cons_ne_nil _ _, rfl⟩
  · rename_i hempty _
    obtain rfl := Option.some.inj h
    exact ⟨hempty, operations_batch hempty⟩

theorem pending_of_request? {queue : WriteQueue} (h : queue.request? = none) :
    queue.pending = [] := by
  unfold WriteQueue.request? at h
  split at h
  · assumption
  · cases h
  · cases h

/-- A qualified goal makes no change. -/
theorem operations_query (d : Database) (t : Term) :
    (Request.solve (d.qualify t)).operations = [] := by
  rw [Request.operations, Term.conjuncts_of_unconj? rfl]
  rfl

/-! ## Sending a queue -/

/-- Why changes that were sent have failed: the engine refused the request, or it
found no solution for more than one of them. -/
inductive Refused (pending : List Operation) :
    Except EngineError (List Substitution) → EngineError → Prop where
  | rejected (e : EngineError) : Refused pending (.error e) e
  | unsolved : 1 < pending.length → Refused pending (.ok []) (.batchFailed pending.length)

theorem outcome_eq_error_iff {queue : WriteQueue} {answer : Except EngineError (List Substitution)}
    {e : EngineError} : queue.outcome answer = .error e ↔ Refused queue.pending answer e := by
  cases answer with
  | error e' =>
    constructor
    · intro h
      obtain rfl := Except.error.inj h
      exact .rejected e'
    · rintro ⟨⟩
      rfl
  | ok answers =>
    constructor
    · intro h
      rw [WriteQueue.outcome] at h
      split at h
      · rename_i hfailed
        obtain ⟨hsize, hanswers⟩ := Bool.and_eq_true_iff.mp hfailed
        obtain rfl := List.isEmpty_iff.mp hanswers
        obtain rfl := Except.error.inj h
        exact .unsolved (of_decide_eq_true hsize)
      · cases h
    · rintro ⟨⟩
      rename_i hsize
      exact if_pos (Bool.and_eq_true_iff.mpr ⟨decide_eq_true hsize, rfl⟩)

/-- What a database asks of the engine when it sends its queue, and whether that
fails. -/
inductive Sent (d : Database) : List Exchange → Except EngineError Unit → Prop where
  | nothing : d.queue.pending = [] → Sent d [] (.ok ())
  | accepted {exchange : Exchange} : d.queue.pending ≠ [] →
    exchange.request.operations = d.queue.pending →
    (∀ e, ¬ Refused d.queue.pending exchange.answer e) → Sent d [exchange] (.ok ())
  | refused {exchange : Exchange} {e : EngineError} : d.queue.pending ≠ [] →
    exchange.request.operations = d.queue.pending →
    Refused d.queue.pending exchange.answer e → Sent d [exchange] (.error e)

/-- The bindings of an answer that are of the query's own variables, in the order
they have in the answer. -/
def Query.ownBindings (q : Query) (answer : Substitution) : Substitution :=
  ⟨answer.bindings.filter fun b => q.term.freeVars.contains b.1⟩

/-- What a database asks of the engine when it answers a query, and the reply: it
sends its queue, and if that does not fail asks for the qualified goal. -/
inductive Asked (d : Database) (q : Query) :
    List Exchange → Except EngineError (List Substitution) → Prop where
  | refused {sent : List Exchange} {e : EngineError} : Sent d sent (.error e) →
    Asked d q sent (.error e)
  | failed {sent : List Exchange} {e : EngineError} : Sent d sent (.ok ()) →
    Asked d q (sent ++ [⟨.solve (d.qualify q.term), .error e⟩]) (.error e)
  | answered {sent : List Exchange} {answers : List Substitution} : Sent d sent (.ok ()) →
    Asked d q (sent ++ [⟨.solve (d.qualify q.term), .ok answers⟩]) (.ok (answers.map q.ownBindings))

variable {d : Database} {q : Query} {exchanges : List Exchange}

/-- What is sent is what was queued, whether the engine accepts it or not. -/
theorem Sent.operations {result : Except EngineError Unit} (h : Sent d exchanges result) :
    operationsOf exchanges = d.queue.pending := by
  cases h with
  | nothing hpending => exact hpending.symm
  | accepted _ hoperations _ => rw [operationsOf, List.flatMap_singleton, hoperations]
  | refused _ hoperations _ => rw [operationsOf, List.flatMap_singleton, hoperations]

theorem Asked.operations {result : Except EngineError (List Substitution)}
    (h : Asked d q exchanges result) : operationsOf exchanges = d.queue.pending := by
  cases h with
  | refused hsent => exact hsent.operations
  | failed hsent =>
    rw [operationsOf_append, hsent.operations, operationsOf, List.flatMap_singleton,
      operations_query, List.append_nil]
  | answered hsent =>
    rw [operationsOf_append, hsent.operations, operationsOf, List.flatMap_singleton,
      operations_query, List.append_nil]

/-- With the queue sent, the answer to the goal decides on the reply. -/
theorem Sent.asked (h : Sent d exchanges (.ok ()))
    (answer : Except EngineError (List Substitution)) :
    Asked d q (exchanges ++ [⟨.solve (d.qualify q.term), answer⟩])
      (answer.map fun found => found.map (·.restrict q.term.freeVars)) := by
  cases answer with
  | error e => exact .failed h
  | ok answers => exact .answered h

/-- Nothing that is sent asks for a goal. -/
theorem Sent.countP_goal {result : Except EngineError Unit} (h : Sent d exchanges result) :
    exchanges.countP (fun e => e.request = .solve (d.qualify q.term)) = 0 := by
  have hother : ∀ e : Exchange, d.queue.pending ≠ [] → e.request.operations = d.queue.pending →
      [e].countP (fun e => e.request = .solve (d.qualify q.term)) = 0 := by
    intro e hpending hoperations
    have hne : e.request ≠ .solve (d.qualify q.term) := by
      intro heq
      rw [heq, operations_query] at hoperations
      exact hpending hoperations.symm
    simp [hne]
  cases h with
  | nothing _ => rfl
  | accepted hpending hoperations _ => exact hother _ hpending hoperations
  | refused hpending hoperations _ => exact hother _ hpending hoperations

/-- The goal is asked for once at the most. -/
theorem Asked.countP_goal_le {result : Except EngineError (List Substitution)}
    (h : Asked d q exchanges result) :
    exchanges.countP (fun e => e.request = .solve (d.qualify q.term)) ≤ 1 := by
  cases h with
  | refused hsent => rw [hsent.countP_goal]; exact Nat.zero_le 1
  | failed hsent => rw [List.countP_append, hsent.countP_goal]; simp
  | answered hsent => rw [List.countP_append, hsent.countP_goal]; simp

/-! ## What the engine is asked -/

theorem flush_of_request? {σ : Type} {queue : WriteQueue} {request : Request}
    (h : queue.request? = some request) (engine : Engine σ) (state : σ) :
    queue.flush engine state =
      (queue.outcome (engine request state).1, ∅, (engine request state).2) := by
  rw [WriteQueue.flush, h]

theorem flush_sent {σ : Type} (engine : Engine σ) (d : Database) (before : σ × List Exchange) :
    ∃ exchanges, Sent d exchanges (d.flush engine.logged before).1 ∧
      (d.flush engine.logged before).2.1 = { d with queue := ∅ } ∧
      (d.flush engine.logged before).2.2.2 = before.2 ++ exchanges := by
  unfold Database.flush
  cases hrequest : d.queue.request? with
  | none =>
    rw [WriteQueue.flush, hrequest]
    exact ⟨[], .nothing (pending_of_request? hrequest), rfl, (List.append_nil _).symm⟩
  | some request =>
    obtain ⟨hpending, hoperations⟩ := operations_of_request? hrequest
    rw [flush_of_request? hrequest]
    refine ⟨[⟨request, (engine request before.1).1⟩], ?_, rfl, rfl⟩
    show Sent d _ (d.queue.outcome (engine request before.1).1)
    cases houtcome : d.queue.outcome (engine request before.1).1 with
    | error e => exact .refused hpending hoperations (outcome_eq_error_iff.mp houtcome)
    | ok u =>
      refine .accepted hpending hoperations fun e hrefused => ?_
      rw [outcome_eq_error_iff.mpr hrefused] at houtcome
      cases houtcome

theorem query_asked {σ : Type} (engine : Engine σ) (d : Database) (q : Query)
    (before : σ × List Exchange) :
    ∃ exchanges, Asked d q exchanges (d.query q engine.logged before).1 ∧
      (d.query q engine.logged before).2.1 = { d with queue := ∅ } ∧
      (d.query q engine.logged before).2.2.2 = before.2 ++ exchanges := by
  obtain ⟨sent, hsent, hd, hlog⟩ := flush_sent engine d before
  unfold Database.query
  generalize d.flush engine.logged before = flushed at hsent hd hlog ⊢
  obtain ⟨result, d', state, log⟩ := flushed
  obtain rfl : d' = { d with queue := ∅ } := hd
  obtain rfl : log = before.2 ++ sent := hlog
  cases result with
  | error e => exact ⟨sent, .refused hsent, rfl, rfl⟩
  | ok u =>
    refine ⟨_, hsent.asked (engine (.solve (d.qualify q.term)) state).1, rfl, ?_⟩
    exact List.append_assoc _ _ _

/-! ## The log changes nothing -/

theorem flush_unlogged {σ : Type} (engine : Engine σ) (d : Database) (before : σ × List Exchange) :
    d.flush engine before.1 =
      ((d.flush engine.logged before).1, (d.flush engine.logged before).2.1,
        (d.flush engine.logged before).2.2.1) := by
  unfold Database.flush WriteQueue.flush
  cases d.queue.request? <;> rfl

theorem query_unlogged {σ : Type} (engine : Engine σ) (d : Database) (q : Query)
    (before : σ × List Exchange) :
    d.query q engine before.1 =
      ((d.query q engine.logged before).1, (d.query q engine.logged before).2.1,
        (d.query q engine.logged before).2.2.1) := by
  unfold Database.query
  rw [flush_unlogged]
  rcases d.flush engine.logged before with ⟨_ | _, d', after⟩ <;> rfl

end Clausal
