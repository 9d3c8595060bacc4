import Clausal.Proofs.Database.Requests
import Clausal.Proofs.Writing.Forms
import Mathlib.Data.List.Basic
import Mathlib.Data.List.Induction

/-
  Chains — conjunctions and lists, put together and taken apart

  A conjunction may be nested to either side, and taking it apart loses how: the left
  sides are taken apart by recursion while a loop follows the right ones. Putting the
  conjuncts together again nests to the right, so a term comes back as it was exactly if
  no left side along its right ones is a conjunction. A list has one shape only. It ends
  where a term is no cell of two arguments, whatever that term is, and always comes back.

  What is proved:
    1. `gather_eq`, `gatherElements_eq`, `conjunctionFromEnd_eq`, `listFromEnd_eq` — the
       loops that take apart, and those that put together from the last member on.
    2. `conjuncts_conjunction_of_leaves` — what is no conjunction stays whole; so a batch
       of changes comes apart into the goals of the changes.
    3. `conjunction_conjuncts_iff` — the terms that come back as they were.
    4. `elements_listWithTail`, `listWithTail_elements` — lists, both ways.
    5. `chains_inverse` — all of these for every term.
-/

namespace Clausal.Term

variable {t left right : Term} {ts : List Term}

/-! ## Loops -/

/-- Puts the conjuncts of a term behind those that were found. The left side of a
conjunction is taken apart on its own, and the loop goes on with the right one. -/
def gather (found : List Term) (t : Term) : List Term :=
  match _h : t.unconj? with
  | some (left, right) => gather (gather found left) right
  | none => found ++ [t]
termination_by sizeOf t
decreasing_by
  · exact (sizeOf_unconj _h).1
  · exact (sizeOf_unconj _h).2

/-- Puts the elements of a chain behind those that were found, until the term is no
cell. -/
def gatherElements (found : List Term) (t : Term) : List Term × Term :=
  match _h : t.uncons? with
  | some (head, tail) => gatherElements (found ++ [head]) tail
  | none => (found, t)
termination_by sizeOf t
decreasing_by exact (sizeOf_uncons _h).2

/-- The conjunction of the terms, put together from the last one on. -/
def conjunctionFromEnd (ts : List Term) : Term :=
  match ts.reverse with
  | [] => .atom "true"
  | last :: before => before.foldl (fun made t => application "," [t, made]) last

/-- The list of `heads` that ends in `tail`, put together from the last one on. -/
def listFromEnd (heads : List Term) (tail : Term) : Term :=
  heads.reverse.foldl (fun made head => cons head made) tail

theorem gather_eq (found : List Term) (t : Term) : gather found t = found ++ t.conjuncts := by
  fun_induction gather found t with
  | case1 found t left right h ihl ihr =>
    rw [ihr, ihl, unconj_eq h, conjuncts_conj, List.append_assoc]
  | case2 found t h => rw [conjuncts_of_unconj? h]

theorem elements_cons (head tail : Term) :
    (cons head tail).elements = (head :: tail.elements.1, tail.elements.2) := by
  rw [elements]
  rfl

theorem elements_of_uncons? (h : t.uncons? = none) : t.elements = ([], t) := by
  rw [elements]
  split
  · rename_i hsome
    rw [h] at hsome
    cases hsome
  · rfl

theorem gatherElements_eq (found : List Term) (t : Term) :
    gatherElements found t = (found ++ t.elements.1, t.elements.2) := by
  fun_induction gatherElements found t with
  | case1 found t head tail h ih =>
    rw [ih, uncons?_eq_some h, elements_cons, List.append_assoc]
    rfl
  | case2 found t h => rw [elements_of_uncons? h, List.append_nil]

theorem conjunction_cons (t : Term) (h : ts ≠ []) :
    conjunction (t :: ts) = conj t (conjunction ts) := by
  cases ts with
  | nil => exact absurd rfl h
  | cons u ts => rfl

theorem conjunction_concat (ts : List Term) (last : Term) :
    conjunction (ts ++ [last]) = ts.foldr conj last := by
  induction ts with
  | nil => rfl
  | cons t ts ih =>
    rw [List.cons_append, conjunction_cons t (by simp), ih]
    rfl

theorem conjunctionFromEnd_eq (ts : List Term) : conjunctionFromEnd ts = conjunction ts := by
  cases ts using List.reverseRecOn with
  | nil => rfl
  | append_singleton ts last =>
    rw [conjunctionFromEnd, List.reverse_concat, conjunction_concat]
    exact List.foldl_reverse

theorem listFromEnd_eq (heads : List Term) (tail : Term) :
    listFromEnd heads tail = listWithTail heads tail :=
  List.foldl_reverse

/-! ## Conjunctions -/

theorem conj_inj {l r : Term} : conj left right = conj l r ↔ left = l ∧ right = r := by
  simp [conj]

theorem unconj?_eq_none_iff : t.unconj? = none ↔ ∀ a b, t ≠ conj a b := by
  constructor
  · rintro h a b rfl
    cases h
  · intro h
    cases hsides : t.unconj? with
    | none => rfl
    | some sides => exact absurd (unconj_eq hsides) (h sides.1 sides.2)

theorem conjuncts_conjunction_of_leaves (h : ts ≠ []) (hleaves : ∀ t ∈ ts, t.conjuncts = [t]) :
    (conjunction ts).conjuncts = ts := by
  rw [conjuncts_conjunction h, List.flatMap_congr hleaves]
  exact List.flatMap_singleton' ts

theorem conjuncts_conjunction_conjuncts (t : Term) :
    (conjunction t.conjuncts).conjuncts = t.conjuncts :=
  conjuncts_conjunction_of_leaves (conjuncts_ne_nil t) fun _ => conjuncts_of_mem

/-- A batch comes apart into the goals of the changes, and it is what is sent of more
than one. -/
theorem conjuncts_batch {q : WriteQueue} (h : q.pending ≠ []) : ∃ batch, q.batch? = some batch ∧
    batch.conjuncts = q.pending.map Operation.goal ∧
    (1 < q.pending.length → q.request? = some (.solve batch)) := by
  obtain ⟨pending⟩ := q
  refine ⟨conjunction (pending.map Operation.goal), ?_, ?_, fun hmany => ?_⟩
  · rw [WriteQueue.batch?, if_neg]
    simpa [WriteQueue.isEmpty] using h
  · refine conjuncts_conjunction_of_leaves (by simpa using h) fun t ht => ?_
    obtain ⟨o, _, rfl⟩ := List.mem_map.mp ht
    exact conjuncts_goal o
  · cases pending with
    | nil => exact absurd rfl h
    | cons o others =>
      cases others with
      | nil => exact absurd hmany (Nat.lt_irrefl 1)
      | cons next others => rfl

/-! ## Terms that come back as they were -/

/-- A term is on the right spine of itself, and on that of a conjunction if it is on that
of its right side. -/
inductive OnRightSpine (u : Term) : Term → Prop where
  | here : OnRightSpine u u
  | right {left right : Term} : OnRightSpine u right → OnRightSpine u (conj left right)

/-- No left side along the right spine is a conjunction. -/
def RightNested (t : Term) : Prop :=
  ∀ left right, (conj left right).OnRightSpine t → ∀ a b, left ≠ conj a b

theorem OnRightSpine.cases {u : Term} (h : u.OnRightSpine t) :
    u = t ∨ ∃ left right, t = conj left right ∧ u.OnRightSpine right := by
  cases h with
  | here => exact Or.inl rfl
  | right h => exact Or.inr ⟨_, _, rfl, h⟩

theorem rightNested_of_unconj? (h : t.unconj? = none) : t.RightNested := by
  intro left right hspine
  rcases hspine.cases with rfl | ⟨l, r, rfl, _⟩
  · cases h
  · cases h

theorem rightNested_conj :
    (conj left right).RightNested ↔ left.unconj? = none ∧ right.RightNested := by
  rw [unconj?_eq_none_iff]
  constructor
  · intro h
    exact ⟨h left right .here, fun l r hspine => h l r hspine.right⟩
  · rintro ⟨hleft, hright⟩ l r hspine
    rcases hspine.cases with heq | ⟨l', r', heq, hspine⟩
    · obtain ⟨rfl, rfl⟩ := conj_inj.mp heq
      exact hleft
    · obtain ⟨rfl, rfl⟩ := conj_inj.mp heq
      exact hright l r hspine

theorem conjunction_conjuncts_iff (t : Term) : conjunction t.conjuncts = t ↔ t.RightNested := by
  fun_induction conjuncts t with
  | case1 t left right h _ ihr =>
    obtain rfl := unconj_eq h
    rw [rightNested_conj, ← ihr]
    constructor
    · intro heq
      -- Put together again, the first conjunct of the left side takes the place of the
      -- left side, so the left side has no other and is no conjunction.
      obtain ⟨first, others, hfirst⟩ := List.exists_cons_of_ne_nil (conjuncts_ne_nil left)
      have hbehind : others ++ right.conjuncts ≠ [] := by simp [conjuncts_ne_nil]
      rw [hfirst, List.cons_append, conjunction_cons first hbehind, conj_inj] at heq
      obtain ⟨rfl, hright⟩ := heq
      have hleaf : first.unconj? = none :=
        unconj?_of_mem_conjuncts (hfirst ▸ List.mem_cons_self)
      rw [conjuncts_of_unconj? hleaf] at hfirst
      obtain rfl := (List.cons.inj hfirst).2
      exact ⟨hleaf, hright⟩
    · rintro ⟨hleaf, hright⟩
      rw [conjuncts_of_unconj? hleaf, List.singleton_append,
        conjunction_cons left (conjuncts_ne_nil right), hright]
  | case2 t h => exact iff_of_true rfl (rightNested_of_unconj? h)

/-! ## Lists -/

theorem elements_listWithTail (heads : List Term) (tail : Term) :
    (listWithTail heads tail).elements = (heads ++ tail.elements.1, tail.elements.2) := by
  induction heads with
  | nil => rfl
  | cons head heads ih =>
    rw [listWithTail_cons, elements_cons, ih]
    rfl

theorem listWithTail_elements (t : Term) : listWithTail t.elements.1 t.elements.2 = t := by
  fun_induction elements t with
  | case1 t head tail h heads last heq ih =>
    rw [heq] at ih
    rw [uncons?_eq_some h, listWithTail_cons, ih]
  | case2 t h => rfl

/-- What is put together from conjuncts comes apart into them again, in any nesting, and
a batch of changes into the goals of the changes. What is put together from the conjuncts
of a term has the same conjuncts, and is the term itself if and only if no left side along
its right spine is a conjunction. A list comes apart into the elements it was made of, and
every term, list or not, is made of what it comes apart into. The loops that work with
what they have found, or from the last member on, come to the same. -/
theorem chains_inverse :
    (∀ ts : List Term, ts ≠ [] → (conjunction ts).conjuncts = ts.flatMap conjuncts) ∧
    (∀ q : WriteQueue, q.pending ≠ [] → ∃ batch, q.batch? = some batch ∧
      batch.conjuncts = q.pending.map Operation.goal ∧
      (1 < q.pending.length → q.request? = some (.solve batch))) ∧
    (∀ t : Term, (conjunction t.conjuncts).conjuncts = t.conjuncts ∧
      (conjunction t.conjuncts = t ↔
        ∀ left right, (conj left right).OnRightSpine t → ∀ a b, left ≠ conj a b)) ∧
    (∀ heads tail, (listWithTail heads tail).elements =
      (heads ++ tail.elements.1, tail.elements.2)) ∧
    (∀ t : Term, listWithTail t.elements.1 t.elements.2 = t) ∧
    (∀ t : Term, gather [] t = t.conjuncts ∧ gatherElements [] t = t.elements) ∧
    (∀ ts, conjunctionFromEnd ts = conjunction ts) ∧
    (∀ heads tail, listFromEnd heads tail = listWithTail heads tail) := by
  refine ⟨fun ts => conjuncts_conjunction, fun q => conjuncts_batch,
    fun t => ⟨conjuncts_conjunction_conjuncts t, conjunction_conjuncts_iff t⟩,
    elements_listWithTail, listWithTail_elements, fun t => ⟨?_, ?_⟩,
    conjunctionFromEnd_eq, listFromEnd_eq⟩
  · rw [gather_eq, List.nil_append]
  · rw [gatherElements_eq, List.nil_append]

/-- `((p, q), r)` and `(p, q, r)` have the same conjuncts, which make the second one. Two
changes, one of them about a conjunction, are sent as two goals. The cell `'.'(p, q, r)`
of three arguments is no list, and ends one. -/
theorem chains_inverse_nested :
    let p : Term := .atom "p"
    let q : Term := .atom "q"
    let r : Term := .atom "r"
    let queue : WriteQueue := ⟨[.insert (conj p q), .delete r]⟩
    let odd : Term := .compound consName [p, q, r]
    [conj p q, r] ≠ [] ∧ (conjunction [conj p q, r]).conjuncts = [p, q, r] ∧
      conjunction (conj (conj p q) r).conjuncts ≠ conj (conj p q) r ∧
      conjunction (conj p (conj q r)).conjuncts = conj p (conj q r) ∧
      queue.pending ≠ [] ∧ (∃ batch, queue.request? = some (.solve batch) ∧
        batch.conjuncts = [.compound "assertz" [conj p q], .compound "retract" [r]]) ∧
      (listWithTail [p, q] odd).elements = ([p, q], odd) := by
  intro p q r queue odd
  obtain ⟨hconjunction, hbatch, hterm, hlist, _⟩ := chains_inverse
  have hp : p.conjuncts = [p] := conjuncts_of_unconj? rfl
  have hq : q.conjuncts = [q] := conjuncts_of_unconj? rfl
  have hr : r.conjuncts = [r] := conjuncts_of_unconj? rfl
  have hne : [conj p q, r] ≠ [] := List.cons_ne_nil _ _
  have hpending : queue.pending ≠ [] := List.cons_ne_nil _ _
  obtain ⟨batch, -, hgoals, hsent⟩ := hbatch queue hpending
  refine ⟨hne, ?_, ?_, ?_, hpending, ⟨batch, hsent (by decide), hgoals⟩, ?_⟩
  · rw [hconjunction _ hne]
    simp [hp, hq, hr]
  · intro heq
    exact (hterm _).2.mp heq (conj p q) r .here p q rfl
  · simp [hp, hq, hr, conjunction]
  · rw [hlist, elements_of_uncons? (t := odd) rfl]
    rfl

end Clausal.Term
