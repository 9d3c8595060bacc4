import Clausal.Proofs.Database.Requests
import Clausal.Proofs.Token.Munch
import Mathlib.Data.List.Nodup

/-
  The ledger — every change is sent once, in order and in its own name

  What was queued in a database is told from the commands alone. What has become
  of it is told from the log of the engine and from what still waits. The two
  are compared after any commands, for any engine: it may refuse what it likes
  and answer what it likes.

  What is proved:
    1. `nameOf_injective` — different databases have different names.
    2. `step_run` — all that a command can do to a host.
    3. `Kept.step`, `account_step` — a command keeps every database to its own
       name, and adds to the account of a database what it queues there.
    4. `Kept.after`, `account_after` — so do commands one after another.
    5. `writes_accounted` — no change is lost, sent twice, or sent out of order.
-/

namespace Clausal

/-! ## What is queued -/

/-- A term qualified with a name. -/
def qualified (name : String) (t : Term) : Term := .compound ":" [.atom name, t]

namespace Command

/-- The database that a command is for. -/
def database? : Command → Option Nat
  | .create => none
  | .insert n _ => some n
  | .delete n _ => some n
  | .insertUpdate n _ => some n
  | .deleteUpdate n _ => some n
  | .flush n => some n
  | .query n _ => some n

/-- How many databases a command makes. -/
def makes : Command → Nat
  | .create => 1
  | _ => 0

/-- The changes that a command queues in a database with a name, in their order. -/
def changes (name : String) : Command → List Operation
  | .insert _ c => [.insert (qualified name c.term)]
  | .delete _ c => [.delete (qualified name c.term)]
  | .insertUpdate _ u =>
    u.deletes.map (fun c => .delete (qualified name c.term)) ++
      u.adds.map (fun c => .insert (qualified name c.term))
  | .deleteUpdate _ u =>
    u.adds.map (fun c => .delete (qualified name c.term)) ++
      u.deletes.map (fun c => .insert (qualified name c.term))
  | _ => []

end Command

/-- The changes that some commands queue in the database with the number `n`,
which has a name, when `made` databases have been made before. What is told to a
database before it is made is lost on it. -/
def queuedOn (n : Nat) (name : String) (made : Nat) : List Command → List Operation
  | [] => []
  | c :: rest =>
    (if c.database? = some n ∧ n < made then c.changes name else []) ++
      queuedOn n name (made + c.makes) rest

/-! ## What is sent -/

/-- Whether the change is to a clause qualified with the name. -/
def Operation.isOf (name : String) (o : Operation) : Bool :=
  match o.clause with
  | .compound ":" [.atom owner, _] => owner == name
  | _ => false

/-- The changes to clauses qualified with a name that the requests of a log make. -/
def sentTo (name : String) (log : List Exchange) : List Operation :=
  (operationsOf log).filter (·.isOf name)

namespace Host

variable {σ : Type}

/-- The host after some commands. -/
def after (engine : Engine σ) (h : Host σ) (commands : List Command) : Host σ :=
  commands.foldl (fun h c => (h.run engine c).2) h

/-- What the engine of a host was asked and what it answered. -/
def log (h : Host (σ × List Exchange)) : List Exchange := h.state.2

/-- What waits in the database with a number. -/
def waiting (h : Host σ) (n : Nat) : List Operation :=
  ((h.databases[n]?).map (·.queue.pending)).getD []

/-- What was sent of the database with a number, and then what waits there. -/
def account (h : Host (σ × List Exchange)) (n : Nat) : List Operation :=
  sentTo (nameOf n) h.log ++ h.waiting n

end Host

/-! ## Names -/

theorem nameOf_injective : Function.Injective Host.nameOf := by
  intro m n h
  have hchars := congrArg String.toList h
  simp only [Host.nameOf, String.toList_append, String.toList_ofList] at hchars
  have hdigits := List.append_cancel_left hchars
  rw [← Text.valueOf_natChars m, hdigits, Text.valueOf_natChars]

theorem isOf_insert (owner name : String) (t : Term) :
    (Operation.insert (qualified owner t)).isOf name = (owner == name) := rfl

theorem isOf_delete (owner name : String) (t : Term) :
    (Operation.delete (qualified owner t)).isOf name = (owner == name) := rfl

/-- A command queues changes to clauses of the database's own name. -/
theorem isOf_changes (name : String) (c : Command) : ∀ o ∈ c.changes name, o.isOf name = true := by
  cases c with
  | create => simp [Command.changes]
  | insert n c => simp [Command.changes, isOf_insert]
  | delete n c => simp [Command.changes, isOf_delete]
  | insertUpdate n u | deleteUpdate n u =>
    simp only [Command.changes, List.forall_mem_append, List.forall_mem_map, isOf_insert,
      isOf_delete, beq_self_eq_true, implies_true, and_self]
  | flush n => simp [Command.changes]
  | query n q => simp [Command.changes]

theorem eq_of_isOf {o : Operation} {a b : String} (ha : o.isOf a = true) (hb : o.isOf b = true) :
    a = b := by
  unfold Operation.isOf at ha hb
  split at ha
  · rename_i owner t hclause
    rw [hclause] at hb
    rw [← beq_iff_eq.mp ha, ← beq_iff_eq.mp hb]
  · cases ha

/-! ## What a command does -/

namespace Database

theorem push_push (d : Database) (first second : List Operation) :
    (d.push first).push second = d.push (first ++ second) :=
  congrArg (fun pending => { d with queue := ⟨pending⟩ }) (List.append_assoc _ _ _)

/-- Changes that are queued clause by clause are queued together. -/
theorem foldl_push {change : Database → Clause → Database} (operation : Term → Operation)
    (hchange : ∀ d c, change d c = d.push [operation (qualified d.name c.term)])
    (clauses : List Clause) (d : Database) :
    clauses.foldl change d = d.push (clauses.map fun c => operation (qualified d.name c.term)) := by
  induction clauses generalizing d with
  | nil => simp [push, WriteQueue.push]
  | cons c clauses ih =>
    rw [List.foldl_cons, ih, hchange]
    exact push_push d [operation (qualified d.name c.term)] _

theorem foldl_insert (clauses : List Clause) (d : Database) :
    clauses.foldl insert d = d.push (clauses.map fun c => .insert (qualified d.name c.term)) :=
  foldl_push .insert (fun _ _ => rfl) clauses d

theorem foldl_delete (clauses : List Clause) (d : Database) :
    clauses.foldl delete d = d.push (clauses.map fun c => .delete (qualified d.name c.term)) :=
  foldl_push .delete (fun _ _ => rfl) clauses d

theorem insertUpdate_eq (n : Nat) (d : Database) (u : Update) :
    d.insertUpdate u = d.push ((Command.insertUpdate n u).changes d.name) := by
  rw [insertUpdate, foldl_delete, foldl_insert]
  exact push_push d _ _

theorem deleteUpdate_eq (n : Nat) (d : Database) (u : Update) :
    d.deleteUpdate u = d.push ((Command.deleteUpdate n u).changes d.name) := by
  rw [deleteUpdate, foldl_delete, foldl_insert]
  exact push_push d _ _

end Database

namespace Host

variable {σ : Type}

/-- All that a command can do to a host with a log: make a database, queue
changes in one, send what is queued in one, or nothing when the database is not
there. -/
inductive Step (h : Host (σ × List Exchange)) : Command → Host (σ × List Exchange) → Prop where
  | created : Step h .create { h with databases := h.databases ++ [⟨nameOf h.databases.length, ∅⟩] }
  | queued {c : Command} {n : Nat} {d : Database} : c.database? = some n → c.makes = 0 →
    h.databases[n]? = some d → Step h c (h.replace n (d.push (c.changes d.name)) h.state)
  | sent {c : Command} {n : Nat} {d : Database} {state : σ × List Exchange}
    {exchanges : List Exchange} :
    c.database? = some n → c.makes = 0 → (∀ name, c.changes name = []) →
    h.databases[n]? = some d → operationsOf exchanges = d.queue.pending →
    state.2 = h.log ++ exchanges → Step h c (h.replace n { d with queue := ∅ } state)
  | unknown {c : Command} {n : Nat} : c.database? = some n → c.makes = 0 →
    h.databases[n]? = none → Step h c h

theorem enqueue_step {h : Host (σ × List Exchange)} {c : Command} {n : Nat}
    {change : Database → Database} (hn : c.database? = some n) (hmakes : c.makes = 0)
    (hchange : ∀ d, change d = d.push (c.changes d.name)) :
    h.Step c (h.enqueue n change).2 := by
  unfold enqueue
  split
  · rename_i d hd
    rw [hchange d]
    exact .queued hn hmakes hd
  · rename_i hd
    exact .unknown hn hmakes hd

/-- The host without its log. -/
def unlogged (h : Host (σ × List Exchange)) : Host σ := ⟨h.state.1, h.databases⟩

/-- What a host replies to a query. -/
def replyTo : Except EngineError (List Substitution) → Reply
  | .ok found => .answers found
  | .error e => .failed e

theorem run_flush {h : Host σ} {n : Nat} {d : Database} (hd : h.databases[n]? = some d)
    (engine : Engine σ) :
    (h.run engine (.flush n)).2 =
      h.replace n (d.flush engine h.state).2.1 (d.flush engine h.state).2.2 := by
  simp only [run, hd]
  rcases d.flush engine h.state with ⟨_ | _, d', state⟩ <;> rfl

theorem run_query {h : Host σ} {n : Nat} {d : Database} (hd : h.databases[n]? = some d)
    (engine : Engine σ) (q : Query) :
    h.run engine (.query n q) =
      (replyTo (d.query q engine h.state).1,
        h.replace n (d.query q engine h.state).2.1 (d.query q engine h.state).2.2) := by
  simp only [run, hd]
  rcases d.query q engine h.state with ⟨_ | _, d', state⟩ <;> rfl

/-- The step that a host takes is one of those listed. -/
theorem step_run (engine : Engine σ) (h : Host (σ × List Exchange)) (c : Command) :
    h.Step c (h.run engine.logged c).2 := by
  cases c with
  | create => exact .created
  | insert n c => exact enqueue_step rfl rfl fun d => rfl
  | delete n c => exact enqueue_step rfl rfl fun d => rfl
  | insertUpdate n u => exact enqueue_step rfl rfl fun d => d.insertUpdate_eq n u
  | deleteUpdate n u => exact enqueue_step rfl rfl fun d => d.deleteUpdate_eq n u
  | flush n =>
    cases hd : h.databases[n]? with
    | none =>
      simp only [run, hd]
      exact .unknown rfl rfl hd
    | some d =>
      obtain ⟨exchanges, hsent, hqueue, hlog⟩ := flush_sent engine d h.state
      rw [run_flush hd, hqueue]
      exact .sent rfl rfl (fun _ => rfl) hd hsent.operations hlog
  | query n q =>
    cases hd : h.databases[n]? with
    | none =>
      simp only [run, hd]
      exact .unknown rfl rfl hd
    | some d =>
      obtain ⟨exchanges, hasked, hqueue, hlog⟩ := query_asked engine d q h.state
      rw [run_query hd, hqueue]
      exact .sent rfl rfl (fun _ => rfl) hd hasked.operations hlog

/-- The log makes no difference to what a command does. -/
theorem run_unlogged (engine : Engine σ) (h : Host (σ × List Exchange)) (c : Command) :
    h.unlogged.run engine c = ((h.run engine.logged c).1, (h.run engine.logged c).2.unlogged) := by
  have henqueue : ∀ (n : Nat) (change : Database → Database),
      h.unlogged.enqueue n change = ((h.enqueue n change).1, (h.enqueue n change).2.unlogged) := by
    intro n change
    simp only [enqueue, unlogged]
    split <;> rfl
  cases c with
  | create => rfl
  | insert n c => exact henqueue n _
  | delete n c => exact henqueue n _
  | insertUpdate n u => exact henqueue n _
  | deleteUpdate n u => exact henqueue n _
  | flush n =>
    simp only [run, unlogged]
    cases h.databases[n]? with
    | none => rfl
    | some d =>
      simp only [flush_unlogged engine d h.state]
      rcases d.flush engine.logged h.state with ⟨_ | _, d', state⟩ <;> rfl
  | query n q =>
    simp only [run, unlogged]
    cases h.databases[n]? with
    | none => rfl
    | some d =>
      simp only [query_unlogged engine d q h.state]
      rcases d.query q engine.logged h.state with ⟨_ | _, d', state⟩ <;> rfl

/-! ## What every command keeps -/

/-- Every database has the name of its number, what waits in it is its own, and
what was sent is of some database. -/
structure Kept (h : Host (σ × List Exchange)) : Prop where
  named : ∀ (n : Nat) (d : Database), h.databases[n]? = some d → d.name = nameOf n
  own : ∀ (n : Nat) (d : Database), h.databases[n]? = some d →
    ∀ o ∈ d.queue.pending, o.isOf (nameOf n) = true
  sent : ∀ o ∈ operationsOf h.log, ∃ n < h.databases.length, o.isOf (nameOf n) = true

theorem kept_new (state : σ) : (new (state, ([] : List Exchange))).Kept where
  named _ _ hd := by cases hd
  own _ _ hd := by cases hd
  sent _ ho := by cases ho

variable {h next : Host (σ × List Exchange)} {c : Command}

theorem length_step (hstep : h.Step c next) :
    next.databases.length = h.databases.length + c.makes := by
  cases hstep with
  | created => simp [Command.makes]
  | queued _ hmakes _ => rw [hmakes]; simp [replace]
  | sent _ hmakes _ _ _ _ => rw [hmakes]; simp [replace]
  | unknown _ hmakes _ => rw [hmakes]; rfl

/-- The database that is put in a place, or the one that was there. -/
theorem of_replace {n m : Nat} {d d' : Database} {state : σ × List Exchange}
    (hm : (h.replace n d state).databases[m]? = some d') :
    m = n ∧ d' = d ∨ m ≠ n ∧ h.databases[m]? = some d' := by
  rw [replace, List.getElem?_set] at hm
  split at hm
  · rename_i hnm
    split at hm
    · exact Or.inl ⟨hnm.symm, (Option.some.inj hm).symm⟩
    · cases hm
  · rename_i hnm
    exact Or.inr ⟨fun heq => hnm heq.symm, hm⟩

theorem of_create {n : Nat} {d d' : Database} (hd : (h.databases ++ [d'])[n]? = some d) :
    n = h.databases.length ∧ d = d' ∨ h.databases[n]? = some d := by
  rcases Nat.lt_or_ge n h.databases.length with hn | hn
  · rw [List.getElem?_append_left hn] at hd
    exact Or.inr hd
  · rw [List.getElem?_append_right hn] at hd
    obtain ⟨hlt, heq⟩ := List.getElem?_eq_some_iff.mp hd
    rw [List.length_singleton] at hlt
    exact Or.inl ⟨by omega, by rw [← heq, List.getElem_singleton]⟩

theorem lt_of_database {n : Nat} {d : Database} (hd : h.databases[n]? = some d) :
    n < h.databases.length :=
  (List.getElem?_eq_some_iff.mp hd).1

theorem Kept.replace (hk : h.Kept) {n : Nat} {d d' : Database} {state : σ × List Exchange}
    (hd : h.databases[n]? = some d) (hname : d'.name = d.name)
    (hown : ∀ o ∈ d'.queue.pending, o.isOf (nameOf n) = true)
    (hsent : ∀ o ∈ operationsOf state.2, ∃ m < h.databases.length, o.isOf (nameOf m) = true) :
    (h.replace n d' state).Kept where
  named m b hb := by
    rcases of_replace hb with ⟨rfl, rfl⟩ | ⟨_, hb⟩
    · rw [hname, hk.named m d hd]
    · exact hk.named m b hb
  own m b hb := by
    rcases of_replace hb with ⟨rfl, rfl⟩ | ⟨_, hb⟩
    · exact hown
    · exact hk.own m b hb
  sent o ho := by
    rw [Host.replace, List.length_set]
    exact hsent o ho

theorem Kept.step (hk : h.Kept) (hstep : h.Step c next) : next.Kept := by
  cases hstep with
  | created =>
    refine ⟨fun n d hd => ?_, fun n d hd => ?_, fun o ho => ?_⟩
    · rcases of_create hd with ⟨rfl, rfl⟩ | hd
      · rfl
      · exact hk.named n d hd
    · rcases of_create hd with ⟨rfl, rfl⟩ | hd
      · exact fun o ho => absurd ho List.not_mem_nil
      · exact hk.own n d hd
    · obtain ⟨n, hn, hof⟩ := hk.sent o ho
      exact ⟨n, by rw [List.length_append]; exact Nat.lt_add_right _ hn, hof⟩
  | @queued _ n d _ _ hd =>
    refine hk.replace hd rfl ?_ hk.sent
    show ∀ o ∈ d.queue.pending ++ c.changes d.name, o.isOf (nameOf n) = true
    rw [List.forall_mem_append, ← hk.named n d hd]
    refine ⟨?_, isOf_changes d.name c⟩
    rw [hk.named n d hd]
    exact hk.own n d hd
  | @sent _ n d state exchanges _ _ _ hd hexchanges hlog =>
    refine hk.replace hd rfl (fun o ho => absurd ho List.not_mem_nil) ?_
    rw [hlog, operationsOf_append, hexchanges, List.forall_mem_append]
    exact ⟨hk.sent, fun o ho => ⟨n, lt_of_database hd, hk.own n d hd o ho⟩⟩
  | unknown _ _ _ => exact hk

/-! ## Accounts -/

theorem waiting_eq {n : Nat} {d : Database} (hd : h.databases[n]? = some d) :
    h.waiting n = d.queue.pending := by
  rw [waiting, hd]
  rfl

theorem waiting_replace {n : Nat} {d d' : Database} {state : σ × List Exchange}
    (hd : h.databases[n]? = some d) (m : Nat) :
    (h.replace n d' state).waiting m = if m = n then d'.queue.pending else h.waiting m := by
  unfold waiting
  rw [replace, List.getElem?_set]
  by_cases hnm : n = m
  · rw [if_pos hnm, if_pos (lt_of_database hd), if_pos hnm.symm]
    rfl
  · rw [if_neg hnm, if_neg fun heq => hnm heq.symm]

/-- In a database that was just made nothing waits. -/
theorem waiting_create (h : Host (σ × List Exchange)) (name : String) (m : Nat) :
    ({ h with databases := h.databases ++ [⟨name, ∅⟩] } : Host _).waiting m = h.waiting m := by
  unfold waiting
  rcases Nat.lt_or_ge m h.databases.length with hm | hm
  · rw [List.getElem?_append_left hm]
  · rw [List.getElem?_append_right hm, List.getElem?_eq_none hm]
    cases m - h.databases.length <;> rfl

/-- What waits in a database is all of it sent in its name and in no other. -/
theorem Kept.sentTo_append (hk : h.Kept) {n : Nat} {d : Database} {exchanges : List Exchange}
    (hd : h.databases[n]? = some d) (hexchanges : operationsOf exchanges = d.queue.pending)
    (m : Nat) :
    sentTo (nameOf m) (h.log ++ exchanges) =
      sentTo (nameOf m) h.log ++ if m = n then d.queue.pending else [] := by
  rw [sentTo, operationsOf_append, List.filter_append, hexchanges]
  congr 1
  split
  · rename_i hmn
    rw [hmn]
    exact List.filter_eq_self.mpr (hk.own n d hd)
  · rename_i hmn
    rw [List.filter_eq_nil_iff]
    intro o ho hof
    exact hmn (nameOf_injective (eq_of_isOf hof (hk.own n d hd o ho)))

/-- A command adds to the account of a database what it queues there. -/
theorem account_step (hk : h.Kept) (hstep : h.Step c next) (m : Nat) :
    next.account m = h.account m ++
      if c.database? = some m ∧ m < h.databases.length then c.changes (nameOf m) else [] := by
  cases hstep with
  | created =>
    rw [if_neg (fun ⟨hm, _⟩ => by cases hm), List.append_nil]
    exact congrArg (sentTo (nameOf m) h.log ++ ·) (waiting_create h _ m)
  | @queued _ n d hn _ hd =>
    show sentTo (nameOf m) h.log ++ _ = _
    rw [waiting_replace hd, account, List.append_assoc]
    congr 1
    by_cases hmn : m = n
    · subst hmn
      rw [if_pos rfl, if_pos ⟨hn, lt_of_database hd⟩, waiting_eq hd, ← hk.named m d hd]
      rfl
    · rw [if_neg hmn, if_neg, List.append_nil]
      rintro ⟨hm, _⟩
      rw [hn] at hm
      exact hmn (Option.some.inj hm).symm
  | @sent _ n d state exchanges _ _ hnone hd hexchanges hlog =>
    rw [hnone, ite_self, List.append_nil]
    show sentTo (nameOf m) state.2 ++ _ = _
    rw [hlog, hk.sentTo_append hd hexchanges, waiting_replace hd, account, List.append_assoc]
    congr 1
    by_cases hmn : m = n
    · subst hmn
      rw [if_pos rfl, if_pos rfl, waiting_eq hd]
      exact List.append_nil _
    · rw [if_neg hmn, if_neg hmn, List.nil_append]
  | @unknown _ n hn _ hd =>
    rw [if_neg, List.append_nil]
    rintro ⟨hm, hlt⟩
    rw [hn] at hm
    obtain rfl := Option.some.inj hm
    exact absurd hlt (Nat.not_lt.mpr (List.getElem?_eq_none_iff.mp hd))

/-! ## Runs -/

variable (engine : Engine σ)

theorem Kept.after (hk : h.Kept) (commands : List Command) :
    (h.after engine.logged commands).Kept := by
  induction commands generalizing h with
  | nil => exact hk
  | cons c rest ih => exact ih (hk.step (step_run engine h c))

/-- The account of a database grows by what the commands queue there. -/
theorem account_after (hk : h.Kept) (commands : List Command) (n : Nat) :
    (h.after engine.logged commands).account n =
      h.account n ++ queuedOn n (nameOf n) h.databases.length commands := by
  induction commands generalizing h with
  | nil => exact (List.append_nil _).symm
  | cons c rest ih =>
    have hstep := step_run engine h c
    show ((h.run engine.logged c).2.after engine.logged rest).account n = _
    rw [ih (hk.step hstep), account_step hk hstep, length_step hstep, queuedOn, List.append_assoc]

/-- What was sent of a database and what waits there, after commands to a host
that was new. -/
theorem account_of_new (state : σ) (commands : List Command) (n : Nat) :
    ((new (state, [])).after engine.logged commands).account n =
      queuedOn n (nameOf n) 0 commands :=
  account_after engine (kept_new state) commands n

theorem after_unlogged (h : Host (σ × List Exchange)) (commands : List Command) :
    h.unlogged.after engine commands = (h.after engine.logged commands).unlogged := by
  induction commands generalizing h with
  | nil => rfl
  | cons c rest ih =>
    show (h.unlogged.run engine c).2.after engine rest = _
    rw [run_unlogged]
    exact ih _

theorem Kept.nodup_names (hk : h.Kept) : (h.databases.map (·.name)).Nodup := by
  have hnames : h.databases.map (·.name) = (List.range h.databases.length).map nameOf := by
    refine List.ext_getElem (by simp) fun n hn _ => ?_
    rw [List.getElem_map, List.getElem_map, List.getElem_range]
    exact hk.named n _ (List.getElem?_eq_getElem (by simpa using hn))
  rw [hnames]
  exact List.Nodup.map nameOf_injective List.nodup_range

/-- After any commands to a new host, with any engine: what was sent in the name
of a database, accepted or not, followed by what still waits there, is what the
commands queued there, in that order and in that name. Nothing was sent in any
other name, and no two databases have the same one. The host is the one that
there is without a log. -/
theorem writes_accounted (state : σ) (commands : List Command) :
    let h := (new (state, [])).after engine.logged commands
    (new state).after engine commands = h.unlogged ∧
    (∀ (n : Nat) (d : Database), h.databases[n]? = some d →
      sentTo d.name h.log ++ d.queue.pending = queuedOn n d.name 0 commands) ∧
    (∀ o ∈ operationsOf h.log, ∃ d ∈ h.databases, o.isOf d.name = true) ∧
    (h.databases.map (·.name)).Nodup := by
  intro h
  have hk : h.Kept := (kept_new state).after engine commands
  refine ⟨after_unlogged engine (new (state, [])) commands, ?_, ?_, hk.nodup_names⟩
  · intro n d hd
    rw [hk.named n d hd, ← waiting_eq hd]
    exact account_of_new engine state commands n
  · intro o ho
    obtain ⟨n, hn, hof⟩ := hk.sent o ho
    refine ⟨h.databases[n], List.getElem_mem hn, ?_⟩
    rwa [hk.named n _ (List.getElem?_eq_getElem hn)]

/-- An engine that refuses everything: two databases, an update and a query that
sends it together with an insertion, and a deletion that still waits. -/
theorem writes_accounted_refused :
    let p : Clause := ⟨.compound "p" [.var "X"], .origin⟩
    let q : Clause := ⟨.atom "q", .origin⟩
    let update : Update := ⟨.conj p.term (.compound "not" [q.term]), .origin, [p], [q]⟩
    let commands : List Command := [.create, .create, .insert 0 q, .insert 1 p,
      .insertUpdate 0 update, .query 0 ⟨p.term, .origin⟩, .delete 0 p]
    let engine : Engine Unit := fun _ _ => (.error (.rejected "goal" "refused"), ())
    let h := (new ((), [])).after engine.logged commands
    let d : Database := ⟨"db0", ⟨[.delete (qualified "db0" p.term)]⟩⟩
    h.databases[0]? = some d ∧
      sentTo d.name h.log ++ d.queue.pending =
        [.insert (qualified "db0" q.term), .delete (qualified "db0" q.term),
          .insert (qualified "db0" p.term), .delete (qualified "db0" p.term)] := by
  intro p q update commands engine h d
  have hd : h.databases[0]? = some d := by decide +kernel
  exact ⟨hd, (writes_accounted engine () commands).2.1 0 d hd⟩

end Host

end Clausal
