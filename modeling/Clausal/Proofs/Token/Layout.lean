import Clausal.Proofs.Token.Spelling
import Mathlib.Data.List.TakeWhile

/-
  Layout — what stands between tokens

  Layout is made of blanks, of line comments, and of block comments with all the
  comments in them closed. The lexer skips as much of it as there is. Where it
  stops, a token begins, or the text ends, or a block comment opens that nothing
  closes.

  What is proved:
    1. `closeComment_eq_some_iff` — a block comment is skipped up to where it is
       closed.
    2. `layout_run` and `layout_skips` — what is skipped is layout, and layout is
       skipped.
    3. `noLayout_behind` — no more layout stands behind it.
    4. `beginsToken_of_layout` and `unclosed_of_layout` — what stands there.
-/

namespace Clausal.Text

/-! ## Block comments -/

/-- The text behind the opening of a block comment, up to what closes it. A comment that
opens in it is closed before. -/
inductive CommentBody : List Char → Prop where
  | close : CommentBody ['*', '/']
  | nested {inner rest : List Char} : CommentBody inner → CommentBody rest →
    CommentBody ('/' :: '*' :: (inner ++ rest))
  | other {c d : Char} {rest : List Char} : ¬ (c = '*' ∧ d = '/') → ¬ (c = '/' ∧ d = '*') →
    CommentBody (d :: rest) → CommentBody (c :: d :: rest)

/-- Texts that close so many comments, one after the other. -/
inductive CommentBodies : Nat → List Char → Prop where
  | nil : CommentBodies 0 []
  | cons {depth : Nat} {body others : List Char} : CommentBody body →
    CommentBodies depth others → CommentBodies (depth + 1) (body ++ others)

section

variable {depth : Nat} {cs text left body : List Char}

theorem CommentBody.ne_nil (h : CommentBody body) : body ≠ [] := by
  rintro rfl
  cases h

theorem commentBodies_of_closeComment (h : closeComment depth cs = some (text, left)) :
    CommentBodies depth text := by
  fun_induction closeComment depth cs generalizing text with
  | case1 cs =>
    obtain ⟨rfl, _⟩ := Prod.mk.inj (Option.some.inj h)
    exact .nil
  | case2 => cases h
  | case3 depth rest ih =>
    obtain ⟨⟨t, l⟩, ht, he⟩ := Option.map_eq_some_iff.mp h
    obtain ⟨rfl, rfl⟩ := Prod.mk.inj he
    exact .cons .close (ih ht)
  | case4 depth rest ih =>
    obtain ⟨⟨t, l⟩, ht, he⟩ := Option.map_eq_some_iff.mp h
    obtain ⟨rfl, rfl⟩ := Prod.mk.inj he
    -- Of the comments closed in what follows, the first is the one that opens here.
    cases ih ht with
    | cons hinner hothers =>
      cases hothers with
      | @cons _ rest others hrest hothers =>
        have hbodies := CommentBodies.cons (.nested hinner hrest) hothers
        simpa using hbodies
  | case5 depth c rest hclose hopen ih =>
    obtain ⟨⟨t, l⟩, ht, he⟩ := Option.map_eq_some_iff.mp h
    obtain ⟨rfl, rfl⟩ := Prod.mk.inj he
    have happend := closeComment_append ht
    cases ih ht with
    | @cons _ body others hbody hothers =>
      cases body with
      | nil => exact absurd rfl hbody.ne_nil
      | cons d body =>
        have hcons : CommentBody (c :: d :: body) := by
          refine .other ?_ ?_ hbody
          · rintro ⟨rfl, rfl⟩
            exact hclose _ rfl happend.symm
          · rintro ⟨rfl, rfl⟩
            exact hopen _ rfl happend.symm
        exact CommentBodies.cons hcons hothers

/-- A comment that is closed is read on to where it is, and then what is behind it. -/
theorem closeComment_of_commentBody (h : CommentBody body) (depth : Nat) (more : List Char) :
    closeComment (depth + 1) (body ++ more) =
      (closeComment depth more).map fun p => (body ++ p.1, p.2) := by
  induction h generalizing depth more with
  | close =>
    rw [List.cons_append, List.cons_append, closeComment]
    rfl
  | @nested inner rest _ _ ihinner ihrest =>
    rw [List.cons_append, List.cons_append, closeComment, List.append_assoc, ihinner, ihrest]
    simp only [Option.map_map]
    congr 1
    funext p
    simp
  | @other c d rest hclose hopen _ ih =>
    rw [List.cons_append, List.cons_append, closeComment, ← List.cons_append, ih]
    · simp only [Option.map_map]
      rfl
    · intro others hc hd
      exact hclose ⟨hc, (List.cons.inj hd).1⟩
    · intro others hc hd
      exact hopen ⟨hc, (List.cons.inj hd).1⟩

/-- A block comment is skipped up to where it is closed. -/
theorem closeComment_eq_some_iff :
    closeComment 1 cs = some (text, left) ↔ CommentBody text ∧ cs = text ++ left := by
  constructor
  · intro h
    refine ⟨?_, (closeComment_append h).symm⟩
    cases commentBodies_of_closeComment h with
    | cons hbody hothers =>
      cases hothers
      rwa [List.append_nil]
  · rintro ⟨hbody, rfl⟩
    rw [closeComment_of_commentBody hbody 0 left, closeComment]
    simp

end

/-! ## Runs of layout -/

/-- Blanks and comments in front of a text. A line comment goes up to a line end or up to
the end of the text. -/
inductive LayoutRun : List Char → List Char → Prop where
  | nil {more : List Char} : LayoutRun [] more
  | blank {c : Char} {run more : List Char} : isBlank c = true → LayoutRun run more →
    LayoutRun (c :: run) more
  | line {comment run more : List Char} : '\n' ∉ comment → (∀ c ∈ (run ++ more).head?, c = '\n') →
    LayoutRun run more → LayoutRun ('%' :: (comment ++ run)) more
  | block {body run more : List Char} : CommentBody body → LayoutRun run more →
    LayoutRun ('/' :: '*' :: (body ++ run)) more

/-- What the lexer skips is layout. -/
theorem layout_run (cs : List Char) :
    LayoutRun (layout cs).skipped ((layout cs).unclosed ++ (layout cs).rest) := by
  fun_induction layout cs with
  | case1 => exact .nil
  | case2 c rest hblank ih => exact .blank hblank ih
  | case3 rest hblank ih =>
    refine .line ?_ ?_ ih
    · intro hmem
      simpa using List.mem_takeWhile_imp hmem
    · intro c hc
      have hdrop : (rest.dropWhile (· != '\n')).head? = some c := by
        rw [← layout_append (rest.dropWhile (· != '\n')), List.append_assoc]
        exact hc
      have hnot := List.head?_dropWhile_not (· != '\n') rest
      rw [hdrop] at hnot
      simpa using hnot
  | case4 c rest hblank hpercent hc text left hclosed ih =>
    obtain ⟨rfl, hstar⟩ := hc
    exact .block (closeComment_eq_some_iff.mp hclosed).1 ih
  | case5 => exact .nil
  | case6 => exact .nil

/-- Layout is skipped, and then what layout there is behind it. -/
theorem layout_skips {run more : List Char} (h : LayoutRun run more) :
    layout (run ++ more) = (layout more).behind run := by
  induction h with
  | nil => rfl
  | @blank c run more hblank _ ih =>
    rw [List.cons_append, layout, if_pos hblank, ih]
    rfl
  | @line comment run more hcomment hends _ ih =>
    have hin : ∀ c ∈ comment, (c != '\n') = true := by
      intro c hc
      simpa using fun heq : c = '\n' => hcomment (heq ▸ hc)
    have hout : (run ++ more).takeWhile (· != '\n') = [] ∧
        (run ++ more).dropWhile (· != '\n') = run ++ more := by
      cases hrest : run ++ more with
      | nil => exact ⟨rfl, rfl⟩
      | cons c rest =>
        have hc : c = '\n' := hends c (by rw [hrest]; rfl)
        simp [hc]
    rw [List.cons_append, layout, if_neg (by decide), if_pos rfl, List.append_assoc,
      List.takeWhile_append_of_pos hin, List.dropWhile_append_of_pos hin, hout.1, hout.2, ih]
    simp [Layout.behind]
  | @block body run more hbody _ ih =>
    have hclosed : closeComment 1 (body ++ (run ++ more)) = some (body, run ++ more) :=
      closeComment_eq_some_iff.mpr ⟨hbody, rfl⟩
    rw [List.cons_append, List.cons_append, List.append_assoc, layout, if_neg (by decide),
      if_neg (by decide), if_pos ⟨rfl, rfl⟩]
    split
    · rename_i text left hfound
      rw [List.tail_cons, hclosed] at hfound
      obtain ⟨rfl, rfl⟩ := Prod.mk.inj (Option.some.inj hfound)
      rw [ih]
      simp [Layout.behind]
    · rename_i hfound
      rw [List.tail_cons, hclosed] at hfound
      cases hfound

/-- No layout stands in front of the text. -/
def NoLayout (cs : List Char) : Prop :=
  ∀ run more, cs = run ++ more → LayoutRun run more → run = []

theorem noLayout_of_skipped {cs : List Char} (h : (layout cs).skipped = []) : NoLayout cs := by
  rintro run more rfl hrun
  rw [layout_skips hrun] at h
  exact (List.append_eq_nil_iff.mp h).1

/-- The lexer skips all the layout there is. -/
theorem noLayout_behind (cs : List Char) :
    NoLayout ((layout cs).unclosed ++ (layout cs).rest) := by
  have hskips := layout_skips (layout_run cs)
  rw [← List.append_assoc, layout_append] at hskips
  have hagain : (layout cs).skipped =
      (layout cs).skipped ++ (layout ((layout cs).unclosed ++ (layout cs).rest)).skipped :=
    congrArg Layout.skipped hskips
  exact noLayout_of_skipped (List.self_eq_append_right.mp hagain)

/-! ## Behind layout -/

/-- A token begins the text, or a character that is none. -/
def TokenAhead (cs : List Char) : Prop := ∃ c rest, cs = c :: rest ∧ BeginsToken c rest

/-- Behind layout a token begins, if anything does. -/
theorem beginsToken_of_layout {cs rest : List Char} {c : Char} (h : (layout cs).rest = c :: rest) :
    BeginsToken c rest := by
  fun_induction layout cs with
  | case1 => cases h
  | case2 c' rest' _ ih => exact ih h
  | case3 rest' _ ih => exact ih h
  | case4 c' rest' _ _ _ text left _ ih => exact ih h
  | case5 => cases h
  | case6 c' rest' hblank hpercent hcomment =>
    obtain ⟨rfl, rfl⟩ := List.cons.inj h
    exact ⟨eq_false_of_ne_true hblank, hpercent, hcomment⟩

/-- A comment that is left open: no front of what is behind its opening closes it. -/
def Unclosed (cs : List Char) : Prop :=
  ∃ body, cs = '/' :: '*' :: body ∧ ∀ front rest, body = front ++ rest → ¬ CommentBody front

theorem unclosed_of_layout {cs : List Char} (h : (layout cs).unclosed ≠ []) :
    Unclosed (layout cs).unclosed := by
  fun_induction layout cs with
  | case1 => exact absurd rfl h
  | case2 c rest _ ih => exact ih h
  | case3 rest _ ih => exact ih h
  | case4 c rest _ _ _ text left _ ih => exact ih h
  | case5 c rest _ _ hc hnone =>
    obtain ⟨rfl, hstar⟩ := hc
    obtain ⟨body, rfl⟩ := List.head?_eq_some_iff.mp hstar
    refine ⟨body, rfl, ?_⟩
    rintro front rest rfl hfront
    have hsome : closeComment 1 (front ++ rest) = some (front, rest) :=
      closeComment_eq_some_iff.mpr ⟨hfront, rfl⟩
    rw [List.tail_cons, hsome] at hnone
    cases hnone
  | case6 => exact absurd rfl h

end Clausal.Text
