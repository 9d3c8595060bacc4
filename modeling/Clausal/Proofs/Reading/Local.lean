import Clausal.Proofs.Reading.Alike

/-
  Local reading — no reader looks behind an end token

  Two texts that begin with the same lexemes up to an end token are read alike
  from there: every reader stops at the end token at the latest, so it comes to
  the same value, or to the same miss or nesting at the same distance before the
  end token. Of two misses the same one is further in both texts, so even what
  is reported of abandoned readings does not depend on what follows.

  What is proved:
    1. `SameClause.likeness` — the same clause in two texts is a likeness of
       lexemes, so what holds of alike readings holds of it.
    2. `expect_stop_alike` — behind the end token each text goes on by itself.
-/

namespace Clausal

/-- Both lists begin with the same lexemes up to the first end token, and go on
behind it with `more` and `more'`. -/
def SameClause (more more' toks toks' : List Lexeme) : Prop :=
  ∃ run stop, (∀ l ∈ run, l.token ≠ .stop) ∧ stop.token = .stop ∧
    toks = run ++ stop :: more ∧ toks' = run ++ stop :: more'

variable {more more' toks toks' : List Lexeme}

namespace SameClause

theorem of_run {run : List Lexeme} {stop : Lexeme} (more more' : List Lexeme)
    (hrun : ∀ l ∈ run, l.token ≠ .stop) (hstop : stop.token = .stop) :
    SameClause more more' (run ++ stop :: more) (run ++ stop :: more') :=
  ⟨run, stop, hrun, hstop, rfl, rfl⟩

/-- Both texts begin with the same lexeme. -/
theorem front (h : SameClause more more' toks toks') :
    ∃ l, toks = l :: toks.tail ∧ toks' = l :: toks'.tail := by
  obtain ⟨run, stop, _, _, rfl, rfl⟩ := h
  cases run with
  | nil => exact ⟨stop, rfl, rfl⟩
  | cons l run => exact ⟨l, rfl, rfl⟩

theorem tail (h : SameClause more more' toks toks') (hpeek : peek toks ≠ .stop) :
    SameClause more more' toks.tail toks'.tail := by
  obtain ⟨run, stop, hrun, hstop, rfl, rfl⟩ := h
  cases run with
  | nil => exact absurd hstop hpeek
  | cons l run => exact of_run more more' (List.forall_mem_cons.mp hrun).2 hstop

theorem tail_of_stop (h : SameClause more more' toks toks') (hpeek : peek toks = .stop) :
    toks.tail = more ∧ toks'.tail = more' := by
  obtain ⟨run, stop, hrun, _, rfl, rfl⟩ := h
  cases run with
  | nil => exact ⟨rfl, rfl⟩
  | cons l run => exact absurd hpeek (List.forall_mem_cons.mp hrun).1

/-- Where both texts go on, they are as far from the end token as each other. -/
theorem length_add (h : SameClause more more' toks toks') :
    toks.length + more'.length = toks'.length + more.length := by
  obtain ⟨run, stop, _, _, rfl, rfl⟩ := h
  simp only [List.length_append, List.length_cons]
  omega

instance likeness : Likeness (SameClause more more') where
  word h := by
    obtain ⟨l, htoks, htoks'⟩ := h.front
    rw [htoks, htoks']
    rfl
  tail := tail
  shorter h h' := by
    have := h.length_add
    have := h'.length_add
    omega

end SameClause

/-- Behind the end token each text goes on by itself. -/
theorem expect_stop_alike {cut : Prop} (h : SameClause more more' toks toks')
    (expected : Expected) :
    Outcome.Alike (SameClause more more') cut Eq (fun rest rest' => rest = more ∧ rest' = more')
      (expect .stop expected toks) (expect .stop expected toks') := by
  unfold expect
  rw [← Likeness.peek h]
  split
  · rename_i hpeek
    exact .read rfl (h.tail_of_stop hpeek) .none
  · exact .miss ⟨rfl, h⟩ .none

end Clausal
