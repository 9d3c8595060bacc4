import Clausal.Diagnostic.Expected
import Clausal.Term.Basic

/-
  Outcomes of reading — a value and what is left, a miss, or too deep a nesting

  A reader takes lexemes from the front of a list. It hands back a value and
  the lexemes left, or says where it stopped and what would have done there.
  A reader that gives up one way of reading for another remembers where the
  first one stopped; of all such places the furthest is kept, and of equally
  far ones the first.

  What is proved:
    1. `Outcome.inside_after`, `inside_map`, `inside_andThen` — every place an
       outcome speaks of lies in the lexemes it was read from.
    2. `Outcome.shortens_andThen` — a reading followed by one that takes no
       lexeme back still takes at least one.
-/

namespace Clausal

/-- A place where reading stopped, by the lexemes left there, and what would
have done. -/
structure Miss where
  rest : List Lexeme
  expected : Expected
  deriving DecidableEq

/-- The miss further into the text, the first of two equally far. -/
def Miss.furthest : Option Miss → Option Miss → Option Miss
  | none, b => b
  | some a, none => some a
  | some a, some b => if b.rest.length < a.rest.length then some b else some a

/-- What reading came to. `abandoned` is the furthest miss of a way of reading
that was given up. -/
inductive Outcome (α : Type) where
  | read (value : α) (rest : List Lexeme) (abandoned : Option Miss)
  | miss (found : Miss) (abandoned : Option Miss)
  | tooDeep (rest : List Lexeme)

namespace Outcome

variable {α β : Type}

/-- The same outcome with a miss abandoned before it. -/
def after (o : Outcome α) (earlier : Option Miss) : Outcome α :=
  match o with
  | .read v rest later => .read v rest (Miss.furthest earlier later)
  | .miss m later => .miss m (Miss.furthest earlier later)
  | .tooDeep rest => .tooDeep rest

/-- The same outcome with another value. -/
def map (f : α → β) : Outcome α → Outcome β
  | .read v rest a => .read (f v) rest a
  | .miss m a => .miss m a
  | .tooDeep rest => .tooDeep rest

/-- Goes on reading what is left. -/
def andThen (o : Outcome α) (next : α → List Lexeme → Outcome β) : Outcome β :=
  match o with
  | .read v rest a => (next v rest).after a
  | .miss m a => .miss m a
  | .tooDeep rest => .tooDeep rest

/-! ## Where an outcome lies -/

/-- Every place the outcome speaks of lies in `toks`. -/
def Inside (toks : List Lexeme) : Outcome α → Prop
  | .read _ rest a => rest <:+ toks ∧ ∀ m ∈ a, m.rest <:+ toks
  | .miss m a => m.rest <:+ toks ∧ ∀ m ∈ a, m.rest <:+ toks
  | .tooDeep rest => rest <:+ toks

/-- A value was read from at least one of the lexemes. -/
def Shortens (toks : List Lexeme) : Outcome α → Prop
  | .read _ rest _ => rest.length < toks.length
  | _ => True

theorem mem_furthest {a b : Option Miss} {m : Miss} (h : m ∈ Miss.furthest a b) :
    m ∈ a ∨ m ∈ b := by
  unfold Miss.furthest at h
  split at h
  · exact Or.inr h
  · exact Or.inl h
  · split at h
    · exact Or.inr h
    · exact Or.inl h

theorem Inside.mono {o : Outcome α} {part toks : List Lexeme} (h : o.Inside part)
    (hp : part <:+ toks) : o.Inside toks := by
  cases o with
  | read v rest a => exact ⟨h.1.trans hp, fun m hm => (h.2 m hm).trans hp⟩
  | miss m a => exact ⟨h.1.trans hp, fun m hm => (h.2 m hm).trans hp⟩
  | tooDeep rest => exact h.trans hp

theorem inside_after {o : Outcome α} {a : Option Miss} {toks : List Lexeme} (h : o.Inside toks)
    (ha : ∀ m ∈ a, m.rest <:+ toks) : (o.after a).Inside toks := by
  cases o with
  | read v rest b => exact ⟨h.1, fun m hm => (mem_furthest hm).elim (ha m) (h.2 m)⟩
  | miss m b => exact ⟨h.1, fun m hm => (mem_furthest hm).elim (ha m) (h.2 m)⟩
  | tooDeep rest => exact h

theorem inside_map {o : Outcome α} {f : α → β} {toks : List Lexeme} (h : o.Inside toks) :
    (o.map f).Inside toks := by
  cases o <;> exact h

theorem inside_andThen {o : Outcome α} {next : α → List Lexeme → Outcome β}
    {toks : List Lexeme} (h : o.Inside toks) (hn : ∀ v rest, (next v rest).Inside rest) :
    (o.andThen next).Inside toks := by
  cases o with
  | read v rest a => exact inside_after ((hn v rest).mono h.1) h.2
  | miss m a => exact h
  | tooDeep rest => exact h

theorem shortens_after {o : Outcome α} {a : Option Miss} {toks : List Lexeme}
    (h : o.Shortens toks) : (o.after a).Shortens toks := by
  cases o <;> exact h

theorem shortens_andThen {o : Outcome α} {next : α → List Lexeme → Outcome β}
    {toks : List Lexeme} (h : o.Shortens toks) (hn : ∀ v rest, (next v rest).Inside rest) :
    (o.andThen next).Shortens toks := by
  cases o with
  | read v rest a =>
    refine shortens_after ?_
    have hin := hn v rest
    cases hr : next v rest with
    | read w more b =>
      rw [hr] at hin
      exact Nat.lt_of_le_of_lt hin.1.length_le h
    | miss m b => trivial
    | tooDeep more => trivial
  | miss m a => trivial
  | tooDeep rest => trivial

end Outcome

/-- The token at the front, the end of the text when there is none. -/
def peek : List Lexeme → Token
  | [] => .endOfText
  | l :: _ => l.token

/-- Reads terms: of a priority up to `max`, as a part of what `rule` names. A
term takes at least one lexeme. -/
structure Reader where
  read : (max : Nat) → (rule : Rule) → (toks : List Lexeme) → Outcome (Term × Nat)
  inside : ∀ max rule toks, (read max rule toks).Inside toks
  shortens : ∀ max rule toks, (read max rule toks).Shortens toks

/-- Takes the token if it is at the front. -/
def expect (token : Token) (expected : Expected) (toks : List Lexeme) : Outcome Unit :=
  if peek toks = token then .read () toks.tail none else .miss ⟨toks, expected⟩ none

theorem expect_inside (token : Token) (expected : Expected) (toks : List Lexeme) :
    (expect token expected toks).Inside toks := by
  unfold expect
  split
  · exact ⟨List.tail_suffix toks, by simp⟩
  · exact ⟨List.suffix_refl toks, by simp⟩

end Clausal
