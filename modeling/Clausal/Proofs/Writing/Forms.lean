import Clausal.Term.Text
import Clausal.Proofs.Operator
import Clausal.Proofs.Term.Nodes
import Clausal.Proofs.Token.Munch

/-
  Written forms — the shapes in which terms are written

  A chain of list cells is written as one list, so the written form of a cell
  does not follow the arguments of the cell but the elements of the whole chain.

  What is proved:
    1. `Term.indChains` — to prove a property of all terms, prove it of a chain
       of cells from its elements and its end, and of any other compound from
       its arguments.
    2. `chars_chain`, `chars_curly`, `chars_before`, `chars_between`,
       `chars_functional` — the text of every form of compound.
    3. `form_cases` — every compound that can be read back has one of these
       forms.
-/

namespace Clausal.Term

/-! ## Chains of list cells -/

@[simp] theorem listWithTail_nil (last : Term) : listWithTail [] last = last := rfl

@[simp] theorem listWithTail_cons (head : Term) (heads : List Term) (last : Term) :
    listWithTail (head :: heads) last = cons head (listWithTail heads last) := rfl

theorem uncons?_eq_some {t head tail : Term} (h : t.uncons? = some (head, tail)) :
    t = cons head tail := by
  unfold uncons? at h
  split at h
  · split at h
    · rename_i hf
      obtain ⟨rfl, rfl⟩ := Prod.mk.inj (Option.some.inj h)
      rw [hf]
      rfl
    · cases h
  · cases h

/-- A term of which the property holds, seen as the end of a chain whose
elements have the property as well. -/
def ChainOf (P : Term → Prop) (t : Term) : Prop :=
  ∃ heads last, t = listWithTail heads last ∧ last.uncons? = none ∧ (∀ h ∈ heads, P h) ∧ P last

/-- To prove a property of all terms, prove it of every leaf, of a chain of
cells from its elements and its end, and of another compound from its
arguments. -/
theorem indChains {P : Term → Prop} (atom : ∀ n, P (.atom n)) (var : ∀ n, P (.var n))
    (integer : ∀ i, P (.integer i)) (float : ∀ x, P (.float x))
    (chain : ∀ head heads last, last.uncons? = none → (∀ t ∈ head :: heads, P t) → P last →
      P (listWithTail (head :: heads) last))
    (compound : ∀ f args, (compound f args).uncons? = none → (∀ t ∈ args, P t) →
      P (.compound f args)) : ∀ t, P t := by
  -- The chain that a term begins is carried along, since the tail of a cell is
  -- a term of its own but not one of the elements.
  have leaf : ∀ t : Term, t.uncons? = none → P t → P t ∧ ChainOf P t :=
    fun t hnone h => ⟨h, [], t, rfl, hnone, fun _ hmem => absurd hmem List.not_mem_nil, h⟩
  have both : ∀ t, P t ∧ ChainOf P t := by
    intro t
    induction t using ind with
    | atom n => exact leaf _ rfl (atom n)
    | var n => exact leaf _ rfl (var n)
    | integer i => exact leaf _ rfl (integer i)
    | float x => exact leaf _ rfl (float x)
    | compound f args ih =>
      cases hcell : (Term.compound f args).uncons? with
      | none => exact leaf _ hcell (compound f args hcell fun t ht => (ih t ht).1)
      | some cell =>
        obtain ⟨head, tail⟩ := cell
        obtain ⟨rfl, rfl⟩ := Term.compound.inj (uncons?_eq_some hcell)
        obtain ⟨heads, last, htail, hlast, hheads, hend⟩ := (ih tail (by simp)).2
        have hall : ∀ t ∈ head :: heads, P t := by
          intro t ht
          rcases List.mem_cons.mp ht with rfl | ht
          · exact (ih t (by simp)).1
          · exact hheads t ht
        have heq : Term.compound consName [head, tail] = listWithTail (head :: heads) last := by
          rw [listWithTail_cons, ← htail]
          rfl
        rw [heq]
        exact ⟨chain head heads last hlast hall hend, head :: heads, last, rfl, hlast, hall, hend⟩
  exact fun t => (both t).1

/-- What goes from a compound over to its arguments goes from a chain over to its
elements and its end. -/
theorem chain_of_args {P : Term → Prop} (hargs : ∀ f us, P (.compound f us) → ∀ t ∈ us, P t)
    {head : Term} {heads : List Term} {last : Term} (h : P (listWithTail (head :: heads) last)) :
    P last ∧ ∀ t ∈ head :: heads, P t := by
  induction heads generalizing head with
  | nil =>
    refine ⟨hargs _ _ h last (by simp), fun t ht => ?_⟩
    rw [List.mem_singleton.mp ht]
    exact hargs _ _ h head (by simp)
  | cons next heads ih =>
    have htail : P (listWithTail (next :: heads) last) :=
      hargs _ _ h _ (List.mem_cons_of_mem head List.mem_cons_self)
    obtain ⟨hlast, hall⟩ := ih htail
    refine ⟨hlast, fun t ht => ?_⟩
    rcases List.mem_cons.mp ht with rfl | ht
    · exact hargs _ _ h t (by simp)
    · exact hall t ht

/-! ## Nodes of a chain -/

theorem nodes_cons (head tail : Term) : (cons head tail).nodes = head.nodes + tail.nodes + 1 := by
  simp [cons, nodes, nodesAll]

/-- Every element of a chain and its end have fewer nodes than the chain. -/
theorem nodes_chain (head : Term) (heads : List Term) (last : Term) :
    last.nodes < (listWithTail (head :: heads) last).nodes ∧
      ∀ t ∈ head :: heads, t.nodes < (listWithTail (head :: heads) last).nodes := by
  induction heads generalizing head with
  | nil =>
    rw [listWithTail_cons, listWithTail_nil, nodes_cons]
    refine ⟨by omega, fun t ht => ?_⟩
    rw [List.mem_singleton.mp ht]
    omega
  | cons next heads ih =>
    rw [listWithTail_cons, nodes_cons]
    obtain ⟨hlast, hall⟩ := ih next
    refine ⟨by omega, fun t ht => ?_⟩
    rcases List.mem_cons.mp ht with rfl | ht
    · omega
    · have := hall t ht
      omega

/-! ## Terms that can be read back -/

/-- The term has no float, no number and no name of a variable that cannot be
read, and no compound that is written like another term. -/
inductive Writable : Term → Prop where
  | atom (name : String) : Writable (.atom name)
  | var {name : String} : Text.IsVariableName name → Writable (.var name)
  | integer {i : Int} : -(Text.maxInteger : Int) ≤ i → i ≤ Text.maxInteger → Writable (.integer i)
  | compound {f : String} {args : List Term} : args ≠ [] → f ≠ "[]" →
    (f = "\x7b\x7d" → args.length = 1) → (∀ t ∈ args, Writable t) → Writable (.compound f args)

theorem Writable.args {f : String} {args : List Term} (h : Writable (.compound f args)) :
    ∀ t ∈ args, Writable t := by
  cases h with
  | compound _ _ _ hargs => exact hargs

theorem Writable.chain {head : Term} {heads : List Term} {last : Term}
    (h : Writable (listWithTail (head :: heads) last)) :
    Writable last ∧ ∀ t ∈ head :: heads, Writable t :=
  chain_of_args (fun _ _ => Writable.args) h

/-! ## The text of a compound -/

/-- How a list ends behind its last element. -/
def endChars (last : Term) : List Char :=
  if last.isNil then [']'] else '|' :: chars argumentPriority last ++ [']']

theorem argumentChars_cons (arg next : Term) (args : List Term) :
    argumentChars (arg :: next :: args) =
      chars argumentPriority arg ++ ',' :: ' ' :: argumentChars (next :: args) := by
  rw [argumentChars]
  exact List.cons_ne_nil next args

theorem tailChars_cons (head tail : Term) :
    tailChars (cons head tail) = ',' :: ' ' :: chars argumentPriority head ++ tailChars tail := by
  rw [cons, consName, tailChars]

theorem tailChars_end {last : Term} (h : last.uncons? = none) : tailChars last = endChars last := by
  rw [tailChars, endChars]
  rintro head tail rfl
  cases h

theorem tailChars_chain (head : Term) (heads : List Term) {last : Term} (h : last.uncons? = none) :
    tailChars (listWithTail (head :: heads) last) =
      ',' :: ' ' :: argumentChars (head :: heads) ++ endChars last := by
  induction heads generalizing head with
  | nil => rw [listWithTail_cons, listWithTail_nil, tailChars_cons, tailChars_end h, argumentChars]
  | cons next heads ih =>
    rw [listWithTail_cons, tailChars_cons, ih next, argumentChars_cons]
    simp

/-- A chain of cells is written as one list. -/
theorem chars_chain (max : Nat) (head : Term) (heads : List Term) {last : Term}
    (h : last.uncons? = none) :
    chars max (listWithTail (head :: heads) last) =
      '[' :: argumentChars (head :: heads) ++ endChars last := by
  rw [listWithTail_cons, cons, chars, if_pos rfl]
  cases heads with
  | nil => rw [listWithTail_nil, tailChars_end h, argumentChars]
  | cons next heads =>
    rw [tailChars_chain next heads h, argumentChars_cons]
    simp

theorem chars_curly (max : Nat) (arg : Term) :
    chars max (.compound "\x7b\x7d" [arg]) = '{' :: chars maxPriority arg ++ ['}'] := by
  rw [chars, if_pos rfl]

theorem chars_before (max : Nat) {f : String} {op : Operator} (arg : Term) (hf : f ≠ "\x7b\x7d")
    (h : Operator.before? f = some op) :
    chars max (.compound f [arg]) =
      bracketed (max < op.priority) (Text.atomChars f ++ ' ' :: operandChars op.rightMax arg) := by
  rw [chars, if_neg hf, h]

theorem chars_between (max : Nat) {f : String} {op : Operator} (left right : Term)
    (hf : f ≠ consName) (h : Operator.between? f = some op) :
    chars max (.compound f [left, right]) = bracketed (max < op.priority)
      (operandChars op.leftMax left ++ betweenChars f ++ operandChars op.rightMax right) := by
  rw [chars, if_neg hf, h]

/-- The number of arguments makes the compound no operator and no list cell. -/
def IsFunctional (f : String) (args : List Term) : Prop :=
  f ≠ "\x7b\x7d" ∧ (compound f args).uncons? = none ∧ Operator.ofArity? f args.length = none

theorem chars_functional (max : Nat) {f : String} {args : List Term} (hne : args ≠ [])
    (h : IsFunctional f args) :
    chars max (.compound f args) = Text.atomChars f ++ '(' :: argumentChars args ++ [')'] := by
  obtain ⟨hf, hcell, hop⟩ := h
  match args with
  | [] => exact absurd rfl hne
  | [arg] =>
    obtain ⟨hbefore, hafter⟩ := Option.or_eq_none_iff.mp hop
    rw [chars, if_neg hf, hbefore, hafter]
  | [left, right] =>
    have hcons : f ≠ consName := by
      rintro rfl
      cases hcell
    rw [chars, if_neg hcons, show Operator.between? f = none from hop]
  | _ :: _ :: _ :: _ => simp [chars]

/-- The forms of a compound that is no list cell: in curly brackets, as an
operator before or between its arguments, or with its arguments in brackets. -/
inductive Form : String → List Term → Prop where
  | curly (arg : Term) : Form "\x7b\x7d" [arg]
  | before {f : String} {op : Operator} (arg : Term) : f ≠ "\x7b\x7d" →
    Operator.before? f = some op → Form f [arg]
  | between {f : String} {op : Operator} (left right : Term) : f ≠ consName →
    Operator.between? f = some op → Form f [left, right]
  | functional {f : String} {args : List Term} : args ≠ [] → IsFunctional f args → Form f args

theorem form_cases {f : String} {args : List Term} (hne : args ≠ [])
    (hcurly : f = "\x7b\x7d" → args.length = 1) (hcell : (Term.compound f args).uncons? = none) :
    Form f args := by
  by_cases hf : f = "\x7b\x7d"
  · subst hf
    obtain ⟨arg, rfl⟩ := List.length_eq_one_iff.mp (hcurly rfl)
    exact .curly arg
  · cases hop : Operator.ofArity? f args.length with
    | none => exact .functional hne ⟨hf, hcell, hop⟩
    | some op =>
      match args with
      | [] => cases hop
      | [arg] =>
        rw [List.length_singleton, Operator.ofArity?, Operator.after?_eq_none,
          Option.or_none] at hop
        exact .before arg hf hop
      | [left, right] =>
        refine .between left right ?_ hop
        rintro rfl
        cases hcell
      | _ :: _ :: _ :: _ => cases hop

/-- With another number of arguments than one, `{}` is a functor before brackets. -/
theorem chars_curlyFunctional (max : Nat) {args : List Term} (hne : args ≠ [])
    (hlength : args.length ≠ 1) :
    chars max (.compound "\x7b\x7d" args) =
      Text.atomChars "\x7b\x7d" ++ '(' :: argumentChars args ++ [')'] := by
  match args with
  | [] => exact absurd rfl hne
  | [arg] => exact absurd rfl hlength
  | [left, right] =>
    rw [chars, if_neg (by decide), show Operator.between? "\x7b\x7d" = none by decide]
  | _ :: _ :: _ :: _ => simp [chars]

end Clausal.Term
