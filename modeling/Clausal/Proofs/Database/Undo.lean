import Clausal.Proofs.Database.Ledger
import Mathlib.Data.Multiset.AddSub

/-
  Undoing — an update and its opposite cancel out

  An engine is taken to hold a multiset of clauses: an insertion adds one occurrence
  of its clause, a deletion takes one away and fails when there is none. On such a
  store a deletion is the insertion of the same clause run backwards. An update
  deletes first and inserts then, and its opposite deletes what was inserted and
  inserts what was deleted; each is the other one run backwards, also where the lists
  overlap or name a clause several times.

  What is proved:
    1. `runAll_deletes`, `runAll_inserts` — deletions split a store into the clauses
       deleted and the rest; insertions put it together.
    2. `flush_stores_iff` — an engine that holds a store accepts a queue exactly when
       its changes can be made, and holds then what they make.
    3. `deleteUpdate_undoes` — an update and its opposite undo each other.
-/

namespace Clausal

/-- The clauses that an engine holds, each as often as it is there. -/
abbrev Store := Multiset Term

/-- The store after a change. Nothing can be deleted that is not there. -/
def Operation.run (o : Operation) (s : Store) : Option Store :=
  match o with
  | .insert clause => some (clause ::ₘ s)
  | .delete clause => if clause ∈ s then some (s.erase clause) else none

/-- The store after changes made one after the other, when all of them can be made. -/
def runAll (os : List Operation) (s : Store) : Option Store := os.foldlM (fun s o => o.run s) s

variable {s s' : Store}

/-! ## Changes to a store -/

theorem run_insert_iff {clause : Term} :
    (Operation.insert clause).run s = some s' ↔ s' = clause ::ₘ s :=
  ⟨fun h => (Option.some.inj h).symm, fun h => congrArg some h.symm⟩

/-- A deletion is an insertion run backwards. -/
theorem run_delete_iff {clause : Term} :
    (Operation.delete clause).run s = some s' ↔ s = clause ::ₘ s' := by
  rw [Operation.run]
  constructor
  · intro h
    split at h
    · rename_i hmem
      rw [← Option.some.inj h, Multiset.cons_erase hmem]
    · cases h
  · rintro rfl
    rw [if_pos (Multiset.mem_cons_self clause s'), Multiset.erase_cons_head]

theorem runAll_cons {o : Operation} {os : List Operation} :
    runAll (o :: os) s = some s' ↔ ∃ m, o.run s = some m ∧ runAll os m = some s' := by
  rw [runAll, List.foldlM_cons]
  exact Option.bind_eq_some_iff

theorem runAll_append {first second : List Operation} :
    runAll (first ++ second) s = some s' ↔
      ∃ m, runAll first s = some m ∧ runAll second m = some s' := by
  rw [runAll, List.foldlM_append]
  exact Option.bind_eq_some_iff

theorem runAll_inserts {clauses : List Term} :
    runAll (clauses.map .insert) s = some s' ↔ s' = ↑clauses + s := by
  induction clauses generalizing s with
  | nil => exact ⟨fun h => by simpa using (Option.some.inj h).symm, fun h => by simp [h, runAll]⟩
  | cons c cs ih =>
    rw [List.map_cons, runAll_cons]
    simp only [run_insert_iff, exists_eq_left, ih]
    rw [← Multiset.cons_coe, Multiset.cons_add, Multiset.add_cons]

theorem runAll_deletes {clauses : List Term} :
    runAll (clauses.map .delete) s = some s' ↔ s = ↑clauses + s' := by
  induction clauses generalizing s with
  | nil => exact ⟨fun h => by simpa using Option.some.inj h, fun h => by simp [h, runAll]⟩
  | cons c cs ih =>
    rw [List.map_cons, runAll_cons]
    simp only [run_delete_iff, ih]
    rw [← Multiset.cons_coe, Multiset.cons_add]
    exact ⟨fun ⟨m, hs, hm⟩ => hm ▸ hs, fun hs => ⟨_, hs, rfl⟩⟩

/-- Deleting some clauses and inserting others is inserting the first and deleting the
others run backwards. -/
theorem runAll_replace_iff {out new : List Term} :
    runAll (out.map .delete ++ new.map .insert) s = some s' ↔
      ∃ rest, s = ↑out + rest ∧ s' = ↑new + rest := by
  simp only [runAll_append, runAll_deletes, runAll_inserts]

/-! ## Engines that hold a store -/

/-- The engine holds a store. A request that sends changes finds a solution when they
can be made one after the other, and leaves the store they make; it is refused when
they cannot. -/
structure Engine.Stores (engine : Engine Store) : Prop where
  accepts : ∀ {queue : WriteQueue} {request : Request} {s s' : Store},
    queue.request? = some request → runAll queue.pending s = some s' →
      ∃ answer answers, engine request s = (.ok (answer :: answers), s')
  refuses : ∀ {queue : WriteQueue} {request : Request} {s : Store},
    queue.request? = some request → runAll queue.pending s = none →
      ∃ e, Refused queue.pending (engine request s).1 e

/-- An engine that carries out the changes a request makes, and none of them when one
cannot be made. -/
def storing : Engine Store := fun request s =>
  match runAll request.operations s with
  | some s' => (.ok [∅], s')
  | none =>
    match request with
    | .solve _ => (.ok [], s)
    | .assert clause | .retract clause => (.error (.rejected clause.text "no such clause"), s)

theorem stores_storing : storing.Stores where
  accepts hrequest hrun := by
    simp only [storing, (operations_of_request? hrequest).2, hrun]
    exact ⟨∅, [], rfl⟩
  refuses {queue request s} hrequest hrun := by
    simp only [storing, (operations_of_request? hrequest).2, hrun]
    unfold WriteQueue.request? at hrequest
    split at hrequest
    · cases hrequest
    · rename_i o _
      obtain rfl := Option.some.inj hrequest
      cases o <;> exact ⟨_, .rejected _⟩
    · rename_i hempty hsingle
      obtain rfl := Option.some.inj hrequest
      refine ⟨_, .unsolved ?_⟩
      match hpending : queue.pending with
      | [] => exact absurd hpending hempty
      | [o] => exact absurd hpending (hsingle o)
      | _ :: _ :: _ => simp

/-- A queue is accepted exactly when its changes can be made. -/
theorem flush_stores_iff {engine : Engine Store} (h : engine.Stores) (queue : WriteQueue) :
    queue.flush engine s = (.ok (), ∅, s') ↔ runAll queue.pending s = some s' := by
  cases hrequest : queue.request? with
  | none =>
    rw [WriteQueue.flush, hrequest, pending_of_request? hrequest]
    simp [runAll]
  | some request =>
    rw [flush_of_request? hrequest]
    cases hrun : runAll queue.pending s with
    | some m =>
      obtain ⟨answer, answers, hengine⟩ := h.accepts hrequest hrun
      simp [hengine, WriteQueue.outcome]
    | none =>
      obtain ⟨e, hrefused⟩ := h.refuses hrequest hrun
      simp [outcome_eq_error_iff.mpr hrefused]

/-! ## Updates -/

/-- Some clauses qualified with a name. -/
def qualifiedAll (name : String) (clauses : List Clause) : List Term :=
  clauses.map fun c => qualified name c.term

theorem changes_insertUpdate (n : Nat) (u : Update) (name : String) :
    (Command.insertUpdate n u).changes name =
      (qualifiedAll name u.deletes).map .delete ++ (qualifiedAll name u.adds).map .insert := by
  simp only [Command.changes, qualifiedAll, List.map_map]
  rfl

theorem changes_deleteUpdate (n : Nat) (u : Update) (name : String) :
    (Command.deleteUpdate n u).changes name =
      (qualifiedAll name u.adds).map .delete ++ (qualifiedAll name u.deletes).map .insert := by
  simp only [Command.changes, qualifiedAll, List.map_map]
  rfl

namespace Database

/-- The changes that an update queues and those that its opposite queues undo each other.
On every store the first can be made and lead to another store exactly when the second
can be made there and lead back. So it is with the requests that send them, for a
database where nothing else waits and an engine that holds a store. -/
theorem deleteUpdate_undoes (d : Database) (u : Update) :
    ∃ made undone : List Operation,
      (d.insertUpdate u).queue.pending = d.queue.pending ++ made ∧
      (d.deleteUpdate u).queue.pending = d.queue.pending ++ undone ∧
      (∀ s s' : Store, runAll made s = some s' ↔ runAll undone s' = some s) ∧
      ∀ engine : Engine Store, engine.Stores → d.queue = ∅ → ∀ s s' : Store,
        (d.insertUpdate u).flush engine s = (.ok (), d, s') ↔
          (d.deleteUpdate u).flush engine s' = (.ok (), d, s) := by
  have hundo : ∀ s s' : Store,
      runAll ((Command.insertUpdate 0 u).changes d.name) s = some s' ↔
        runAll ((Command.deleteUpdate 0 u).changes d.name) s' = some s := by
    intro s s'
    -- Both say that the two stores are the two lists put to one and the same rest.
    rw [changes_insertUpdate, changes_deleteUpdate, runAll_replace_iff, runAll_replace_iff]
    exact exists_congr fun rest => and_comm
  refine ⟨_, _, congrArg (·.queue.pending) (d.insertUpdate_eq 0 u),
    congrArg (·.queue.pending) (d.deleteUpdate_eq 0 u), hundo, ?_⟩
  intro engine hengine hqueue s s'
  have hflush : ∀ (os : List Operation) (s s' : Store),
      (d.push os).flush engine s = (.ok (), d, s') ↔ runAll os s = some s' := by
    intro os s s'
    obtain ⟨name, queue⟩ := d
    obtain rfl : queue = ∅ := hqueue
    refine Iff.trans ?_ (flush_stores_iff hengine ((∅ : WriteQueue).push os))
    simp [Database.flush, push, Prod.ext_iff]
  rw [d.insertUpdate_eq 0 u, d.deleteUpdate_eq 0 u, hflush, hflush]
  exact hundo s s'

/-- An update that deletes `q` and `r` and adds `p` and twice `q`, where `q` is there once and
`p` already is; and its opposite behind it. -/
theorem deleteUpdate_undoes_overlap :
    let clause (name : String) : Clause := ⟨.atom name, .origin⟩
    let owned (name : String) : Term := qualified "db0" (.atom name)
    let d : Database := ⟨"db0", ∅⟩
    let u : Update := ⟨.atom "u", .origin, [clause "p", clause "q", clause "q"],
      [clause "q", clause "r"]⟩
    let s : Store := {owned "p", owned "q", owned "r"}
    let s' : Store := {owned "p", owned "p", owned "q", owned "q"}
    storing.Stores ∧ d.queue = ∅ ∧ (d.insertUpdate u).flush storing s = (.ok (), d, s') ∧
      (d.deleteUpdate u).flush storing s' = (.ok (), d, s) ∧
      ∃ undone, (d.deleteUpdate u).queue.pending = d.queue.pending ++ undone ∧
        runAll undone s' = some s := by
  intro clause owned d u s s'
  obtain ⟨made, undone, hmade, hundone, hundo, hflush⟩ := deleteUpdate_undoes d u
  have hrun : runAll (d.insertUpdate u).queue.pending s = some s' := by decide +kernel
  have hflushed : (d.insertUpdate u).flush storing s = (.ok (), d, s') := by
    simp only [flush, (flush_stores_iff stores_storing _).mpr hrun]
    rfl
  refine ⟨stores_storing, rfl, hflushed, (hflush storing stores_storing rfl s s').mp hflushed,
    undone, hundone, (hundo s s').mp ?_⟩
  rwa [hmade] at hrun

end Database

end Clausal
