import Clausal.Proofs.Database.Ledger

/-
  Reads — a query sees what was written before it and touches one database only

  A query sends what waits in its database and asks for its goal behind it. By
  the ledger all that was ever queued there has then been sent. Whatever the
  engine makes of either request, nothing waits there afterwards, and the other
  databases are left as they are.

  What is proved:
    1. `run_query_asked` — what a query asks of the engine, what the host replies,
       and which databases it changes.
    2. `query_reads` — in every host that commands lead to, a query comes after
       all writes of its database.
-/

namespace Clausal.Host

variable {σ : Type}

theorem run_query_asked (engine : Engine σ) {h : Host (σ × List Exchange)} {n : Nat} {d : Database}
    (hd : h.databases[n]? = some d) (q : Query) :
    ∃ exchanges result, Asked d q exchanges result ∧
      (h.run engine.logged (.query n q)).1 = replyTo result ∧
      (h.run engine.logged (.query n q)).2.log = h.log ++ exchanges ∧
      (h.run engine.logged (.query n q)).2.databases = h.databases.set n { d with queue := ∅ } := by
  obtain ⟨exchanges, hasked, hqueue, hlog⟩ := query_asked engine d q h.state
  rw [run_query hd, hqueue]
  exact ⟨exchanges, _, hasked, rfl, hlog, rfl⟩

/-- In a host that any commands have led to, with any engine, a database answers a
query by sending what waits in it and then asking, at most once, for the goal
qualified with its name. So everything that was ever queued there has been sent
before. Nothing waits there any more, and all other databases are as they were. The
reply is the one that there is without a log. -/
theorem query_reads (engine : Engine σ) (state : σ) (commands : List Command) (q : Query) :
    let h := (new (state, [])).after engine.logged commands
    ∀ (n : Nat) (d : Database), h.databases[n]? = some d →
      ∃ exchanges result, Asked d q exchanges result ∧
        h.unlogged.run engine (.query n q) =
          (replyTo result, (h.run engine.logged (.query n q)).2.unlogged) ∧
        (h.run engine.logged (.query n q)).2.log = h.log ++ exchanges ∧
        exchanges.countP (fun e => e.request = .solve (d.qualify q.term)) ≤ 1 ∧
        sentTo d.name (h.log ++ exchanges) = queuedOn n d.name 0 commands ∧
        (∃ d', (h.run engine.logged (.query n q)).2.databases[n]? = some d' ∧
          d'.name = d.name ∧ d'.pending = 0) ∧
        ∀ m, m ≠ n → (h.run engine.logged (.query n q)).2.databases[m]? = h.databases[m]? := by
  intro h n d hd
  have hk : h.Kept := (kept_new state).after engine commands
  obtain ⟨exchanges, result, hasked, hreply, hlog, hdatabases⟩ := run_query_asked engine hd q
  refine ⟨exchanges, result, hasked, by rw [run_unlogged, hreply], hlog,
    hasked.countP_goal_le, ?_, ?_, ?_⟩
  · calc sentTo d.name (h.log ++ exchanges)
        = sentTo (nameOf n) h.log ++ d.queue.pending := by
          rw [hk.named n d hd, hk.sentTo_append hd hasked.operations, if_pos rfl]
      _ = h.account n := by rw [account, waiting_eq hd]
      _ = queuedOn n d.name 0 commands := by
          rw [hk.named n d hd]
          exact account_of_new engine state commands n
  · refine ⟨{ d with queue := ∅ }, ?_, rfl, rfl⟩
    rw [hdatabases, List.getElem?_set_self (lt_of_database hd)]
  · intro m hm
    rw [hdatabases, List.getElem?_set_ne fun heq => hm heq.symm]

/-- An engine that finds one solution to everything: a query sends the two
insertions that wait in its database, and is answered with its own variable. The
insertion that waits in the other database stays. -/
theorem query_reads_batch :
    let fact : String → Clause := fun name => ⟨.compound "p" [.atom name], .origin⟩
    let q : Query := ⟨.compound "p" [.var "X"], .origin⟩
    let commands : List Command := [.create, .create, .insert 0 (fact "a"), .insert 1 (fact "c"),
      .insert 0 (fact "b")]
    let engine : Engine Unit := fun _ _ => (.ok [⟨[("G", .atom "b"), ("X", .atom "a")]⟩], ())
    let h := (new ((), [])).after engine.logged commands
    let inserted : String → String → Operation := fun name arg =>
      .insert (qualified name (fact arg).term)
    let d : Database := ⟨"db0", ⟨[inserted "db0" "a", inserted "db0" "b"]⟩⟩
    let other : Database := ⟨"db1", ⟨[inserted "db1" "c"]⟩⟩
    h.databases[0]? = some d ∧
      (h.run engine.logged (.query 0 q)).1 = .answers [⟨[("X", .atom "a")]⟩] ∧
      (h.run engine.logged (.query 0 q)).2.databases[1]? = some other ∧
      ∃ exchanges result, Asked d q exchanges result ∧
        sentTo d.name (h.log ++ exchanges) = [inserted "db0" "a", inserted "db0" "b"] := by
  intro fact q commands engine h inserted d other
  have hd : h.databases[0]? = some d := by decide +kernel
  have hother : h.databases[1]? = some other := by decide +kernel
  obtain ⟨exchanges, result, hasked, _, _, _, hsent, _, hframe⟩ :=
    query_reads engine () commands q 0 d hd
  refine ⟨hd, rfl, ?_, exchanges, result, hasked, hsent⟩
  exact (hframe 1 (by decide)).trans hother

end Clausal.Host
