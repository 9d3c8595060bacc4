import Clausal.Proofs.Reading.Resume
import Clausal.Proofs.Token.Spelling

/-
  Alike readings — what no reader can tell apart

  A reader sees the word at the front of the lexemes and, moving on, the words
  behind it; it never sees where they stand, and it goes nowhere behind an end
  token. So two lists of lexemes that are alike in this are read as the same
  term, with what is left alike again. Of two misses the furthest counts, which
  is the same one in both lists when of two pairs the same list is shorter.

  Two readers with different limits come to the same as long as the lower limit is
  not met; whether it may be is a parameter here.

  What is proved:
    1. `alike_andThen` — readings one after the other.
    2. `primary_alike` — a term without an operator between its parts.
    3. `resume_alike` — the loop of one level.
    4. `terms_alike` — terms, on any level and on any one above it.
-/

namespace Clausal

/-- Related lists begin with the same word, and behind it they are related again
unless a clause ends there. Of two related pairs the same list is the shorter one. -/
class Likeness (R : List Lexeme → List Lexeme → Prop) : Prop where
  word : ∀ {toks toks'}, R toks toks' → toks.head?.map Lexeme.word = toks'.head?.map Lexeme.word
  tail : ∀ {toks toks'}, R toks toks' → peek toks ≠ .stop → R toks.tail toks'.tail
  shorter : ∀ {toks toks' rest rest'}, R toks toks' → R rest rest' →
    (rest.length < toks.length ↔ rest'.length < toks'.length)

/-- The misses are the same, and what is left at them is related. -/
def Miss.Alike (R : List Lexeme → List Lexeme → Prop) (m m' : Miss) : Prop :=
  m.expected = m'.expected ∧ R m.rest m'.rest

/-- The outcomes are the same, up to related values. A value was read before lexemes
that `before` relates. If the first outcome may be cut off, the second one is anything
where the first one is a nesting too deep. -/
inductive Outcome.Alike {α β : Type} (R : List Lexeme → List Lexeme → Prop) (cut : Prop)
    (V : α → β → Prop) (before : List Lexeme → List Lexeme → Prop) :
    Outcome α → Outcome β → Prop where
  | read {v : α} {v' : β} {rest rest' : List Lexeme} {a a' : Option Miss} : V v v' →
    before rest rest' → Option.Rel (Miss.Alike R) a a' →
    Alike R cut V before (.read v rest a) (.read v' rest' a')
  | miss {m m' : Miss} {a a' : Option Miss} : Miss.Alike R m m' →
    Option.Rel (Miss.Alike R) a a' → Alike R cut V before (.miss m a) (.miss m' a')
  | tooDeep {rest rest' : List Lexeme} : R rest rest' →
    Alike R cut V before (.tooDeep rest) (.tooDeep rest')
  | cut {rest : List Lexeme} {o' : Outcome β} : cut → Alike R cut V before (.tooDeep rest) o'

section

variable {R before after : List Lexeme → List Lexeme → Prop} {cut : Prop} {toks toks' : List Lexeme}

/-! ## The front of alike lists -/

namespace Likeness

variable [Likeness R]

theorem peek (h : R toks toks') : peek toks = peek toks' := by
  have hword := Likeness.word h
  cases toks <;> cases toks' <;> simp_all [Clausal.peek, Lexeme.word]

theorem opensArguments (h : R toks toks') :
    Reading.opensArguments toks = Reading.opensArguments toks' := by
  have hword := Likeness.word h
  cases toks <;> cases toks' <;> simp_all [Reading.opensArguments, Lexeme.word]

theorem negativeLiteral (h : R toks toks') :
    Reading.negativeLiteral toks = Reading.negativeLiteral toks' := by
  have hword := Likeness.word h
  cases toks <;> cases toks' <;> simp_all [Reading.negativeLiteral, Lexeme.word]

theorem tail_of_peek {token : Token} (h : R toks toks') (hpeek : Clausal.peek toks = token)
    (hne : token ≠ .stop) : R toks.tail toks'.tail :=
  Likeness.tail h (hpeek ▸ hne)

end Likeness

/-! ## Outcomes -/

theorem Miss.furthest_alike [Likeness R] {a a' b b' : Option Miss}
    (ha : Option.Rel (Miss.Alike R) a a') (hb : Option.Rel (Miss.Alike R) b b') :
    Option.Rel (Miss.Alike R) (Miss.furthest a b) (Miss.furthest a' b') := by
  cases ha with
  | none => exact hb
  | some ha =>
    cases hb with
    | none => exact .some ha
    | some hb =>
      have hshorter := Likeness.shorter ha.2 hb.2
      simp only [Miss.furthest, hshorter]
      split
      · exact .some hb
      · exact .some ha

/-- Of two misses that are alike and the furthest one abandoned, the same is told. -/
theorem Miss.told_alike [Likeness R] {m m' : Miss} {a a' : Option Miss} (hm : Miss.Alike R m m')
    (ha : Option.Rel (Miss.Alike R) a a') :
    Miss.Alike R ((Miss.furthest (some m) a).getD m) ((Miss.furthest (some m') a').getD m') := by
  have hfurthest := Miss.furthest_alike (.some hm) ha
  generalize Miss.furthest _ a = b, Miss.furthest _ a' = b' at hfurthest ⊢
  cases hfurthest with
  | none => exact hm
  | some h => exact h

namespace Outcome

variable [Likeness R] {α β γ δ : Type} {V : α → β → Prop} {W : γ → δ → Prop}
  {o : Outcome α} {o' : Outcome β}

theorem alike_after {a a' : Option Miss} (h : Alike R cut V before o o')
    (ha : Option.Rel (Miss.Alike R) a a') : Alike R cut V before (o.after a) (o'.after a') := by
  cases h with
  | read hv hrest hlater => exact .read hv hrest (Miss.furthest_alike ha hlater)
  | miss hm hlater => exact .miss hm (Miss.furthest_alike ha hlater)
  | tooDeep hrest => exact .tooDeep hrest
  | cut hcut => exact .cut hcut

omit [Likeness R] in
theorem alike_map {f : α → γ} {f' : β → δ} (h : Alike R cut V before o o')
    (hf : ∀ v v', V v v' → W (f v) (f' v')) : Alike R cut W before (o.map f) (o'.map f') := by
  cases h with
  | read hv hrest ha => exact .read (hf _ _ hv) hrest ha
  | miss hm ha => exact .miss hm ha
  | tooDeep hrest => exact .tooDeep hrest
  | cut hcut => exact .cut hcut

omit [Likeness R] in
theorem alike_map_same {o' : Outcome α} (f : α → γ) (h : Alike R cut Eq before o o') :
    Alike R cut Eq before (o.map f) (o'.map f) :=
  alike_map h fun _ _ => congrArg f

theorem alike_andThen {next : α → List Lexeme → Outcome γ} {next' : β → List Lexeme → Outcome δ}
    (h : Alike R cut V before o o')
    (hnext : ∀ v v' rest rest', (∃ a, o = .read v rest a) → V v v' → before rest rest' →
      Alike R cut W after (next v rest) (next' v' rest')) :
    Alike R cut W after (o.andThen next) (o'.andThen next') := by
  cases h with
  | read hv hrest ha => exact alike_after (hnext _ _ _ _ ⟨_, rfl⟩ hv hrest) ha
  | miss hm ha => exact .miss hm ha
  | tooDeep hrest => exact .tooDeep hrest
  | cut hcut => exact .cut hcut

end Outcome

open Outcome (alike_map_same alike_andThen)

/-- A token other than the end token is taken from both lists or missed in both. -/
theorem expect_alike [Likeness R] (h : R toks toks') {token : Token} (expected : Expected)
    (hne : token ≠ .stop) :
    Outcome.Alike R cut Eq R (expect token expected toks) (expect token expected toks') := by
  unfold expect
  rw [← Likeness.peek h]
  split
  · rename_i hpeek
    exact .read rfl (Likeness.tail_of_peek h hpeek hne) .none
  · exact .miss ⟨rfl, h⟩ .none

/-! ## Readers -/

namespace Reading

/-- The readers come to the same on related lists. -/
def ReadAlike (R : List Lexeme → List Lexeme → Prop) (cut : Prop) (sub sub' : Reader) : Prop :=
  ∀ max rule ⦃toks toks' : List Lexeme⦄, R toks toks' →
    Outcome.Alike R cut Eq R (sub.read max rule toks) (sub'.read max rule toks')

variable [Likeness R] {sub sub' : Reader} {style : Style}

theorem enclosed_alike (hsub : ReadAlike R cut sub sub') (h : R toks toks') (rule : Rule)
    {close : Token} (shown : String) (hne : close ≠ .stop) :
    Outcome.Alike R cut Eq R (enclosed sub rule close shown toks)
      (enclosed sub' rule close shown toks') := by
  refine alike_andThen (hsub _ _ h) ?_
  rintro v _ rest rest' _ rfl hrest
  exact alike_map_same _ (expect_alike hrest _ hne)

theorem arguments_alike (hsub : ReadAlike R cut sub sub') (toks toks' : List Lexeme)
    (h : R toks toks') :
    Outcome.Alike R cut Eq R (arguments sub toks) (arguments sub' toks') := by
  rw [arguments_eq, arguments_eq]
  refine alike_andThen (hsub _ _ h) ?_
  rintro ⟨t, priority⟩ _ rest rest' ⟨a, hread⟩ rfl hrest
  have := sub.pred_length_lt hread
  simp only [← Likeness.peek hrest]
  cases hpeek : peek rest with
  | comma =>
    have htail := Likeness.tail_of_peek hrest hpeek (by simp)
    exact alike_map_same _ (arguments_alike hsub rest.tail rest'.tail htail)
  | closeRound => exact .read rfl (Likeness.tail_of_peek hrest hpeek (by simp)) .none
  | _ => exact .miss ⟨rfl, hrest⟩ .none
termination_by toks.length

theorem elements_alike (hsub : ReadAlike R cut sub sub') (toks toks' : List Lexeme)
    (h : R toks toks') :
    Outcome.Alike R cut Eq R (elements sub toks) (elements sub' toks') := by
  rw [elements_eq, elements_eq]
  refine alike_andThen (hsub _ _ h) ?_
  rintro ⟨t, priority⟩ _ rest rest' ⟨a, hread⟩ rfl hrest
  have := sub.pred_length_lt hread
  simp only [← Likeness.peek hrest]
  cases hpeek : peek rest with
  | comma =>
    have htail := Likeness.tail_of_peek hrest hpeek (by simp)
    exact alike_map_same _ (elements_alike hsub rest.tail rest'.tail htail)
  | bar =>
    refine alike_andThen (hsub _ _ (Likeness.tail_of_peek hrest hpeek (by simp))) ?_
    rintro v _ last last' _ rfl hlast
    exact alike_map_same _ (expect_alike hlast _ (by simp))
  | closeSquare => exact .read rfl (Likeness.tail_of_peek hrest hpeek (by simp)) .none
  | _ => exact .miss ⟨rfl, hrest⟩ .none
termination_by toks.length

theorem listTerm_alike (hsub : ReadAlike R cut sub sub') (h : R toks toks') :
    Outcome.Alike R cut Eq R (listTerm sub toks) (listTerm sub' toks') := by
  unfold listTerm
  rw [← Likeness.peek h]
  split
  · rename_i hpeek
    exact .read rfl (Likeness.tail_of_peek h hpeek (by simp)) .none
  · exact elements_alike hsub toks toks' h

theorem curlyTerm_alike (hsub : ReadAlike R cut sub sub') (h : R toks toks') :
    Outcome.Alike R cut Eq R (curlyTerm sub toks) (curlyTerm sub' toks') := by
  unfold curlyTerm
  rw [← Likeness.peek h]
  split
  · rename_i hpeek
    exact .read rfl (Likeness.tail_of_peek h hpeek (by simp)) .none
  · exact alike_map_same _ (enclosed_alike hsub h _ _ (by simp))

theorem compoundTerm_alike (hsub : ReadAlike R cut sub sub') (h : R toks toks')
    (functor : String) (hopens : opensArguments toks = true) :
    Outcome.Alike R cut Eq R (compoundTerm sub functor toks) (compoundTerm sub' functor toks') := by
  obtain ⟨opening, htoks, hopening, _⟩ := opening_of_opensArguments hopens
  have hpeek : peek toks = .openRound := by
    rw [htoks]
    exact hopening
  have htail := Likeness.tail_of_peek h hpeek (by simp)
  exact alike_map_same _ (arguments_alike hsub _ _ htail)

/-! ## Names -/

omit [Likeness R] in
theorem simple_alike (h : R toks toks') (t : Term) :
    Outcome.Alike R cut Eq R (simple t toks) (simple t toks') :=
  .read rfl h .none

theorem application_alike (hsub : ReadAlike R cut sub sub') (h : R toks toks') (name : String)
    (op : Operator) (max : Nat) :
    Outcome.Alike R cut Eq R (application style sub name op max toks)
      (application style sub' name op max toks') := by
  unfold application
  have hargument := hsub (min op.rightMax (min op.priority max)) .operand h
  generalize sub.read _ _ toks = o, sub'.read _ _ toks' = o' at hargument ⊢
  cases hargument with
  | read hv hlast ha =>
    subst hv
    simp only [applied, ← Likeness.peek hlast]
    split
    · exact .read rfl hlast ha
    · exact .read rfl h ha
  | miss hm ha =>
    simp only [applied]
    split
    · exact .miss hm ha
    · exact .read rfl h (Miss.furthest_alike ha (.some hm))
  | tooDeep hlast => exact .tooDeep hlast
  | cut hcut => exact .cut hcut

theorem peek_ne_stop_of_negativeLiteral {t : Term} (h : negativeLiteral toks = some t) :
    peek toks ≠ .stop := by
  cases toks with
  | nil => cases h
  | cons l rest =>
    intro hl
    have hl : l.token = .stop := hl
    simp [negativeLiteral, hl] at h

theorem nameTerm_alike (hsub : ReadAlike R cut sub sub') (h : R toks toks') (name : String)
    (max : Nat) :
    Outcome.Alike R cut Eq R (nameTerm style sub name max toks)
      (nameTerm style sub' name max toks') := by
  unfold nameTerm
  rw [← Likeness.opensArguments h, ← Likeness.negativeLiteral h, ← Likeness.peek h]
  split
  · rename_i hopens
    exact compoundTerm_alike hsub h name hopens
  · split
    · rename_i t hliteral
      split at hliteral
      · exact simple_alike (Likeness.tail h (peek_ne_stop_of_negativeLiteral hliteral)) t
      · cases hliteral
    · split
      · exact simple_alike h _
      · split
        · exact application_alike hsub h name _ max
        · exact simple_alike h _

theorem primary_alike (hsub : ReadAlike R cut sub sub') (h : R toks toks') (max : Nat)
    (rule : Rule) :
    Outcome.Alike R cut Eq R (primary style sub max rule toks)
      (primary style sub' max rule toks') := by
  unfold primary
  simp only [← Likeness.peek h]
  by_cases hstop : peek toks = .stop
  · rw [hstop]
    exact .miss ⟨rfl, h⟩ .none
  · have htail := Likeness.tail h hstop
    cases peek toks with
    | openRound => exact alike_map_same _ (enclosed_alike hsub htail _ _ (by simp))
    | openSquare => exact alike_map_same _ (listTerm_alike hsub htail)
    | openCurly => exact alike_map_same _ (curlyTerm_alike hsub htail)
    | quotedName name =>
      simp only [← Likeness.opensArguments htail]
      split
      · rename_i hopens
        exact compoundTerm_alike hsub htail name hopens
      · exact simple_alike htail _
    | name name => exact nameTerm_alike hsub htail name max
    | integer | float | var | string | backQuoted => exact simple_alike htail _
    | _ => exact .miss ⟨rfl, h⟩ .none

/-! ## Operators between terms -/

theorem peek_ne_stop_of_continuation {left max : Nat} {c : Continuation}
    (h : continuation left max (peek toks) = some c) : peek toks ≠ .stop := by
  intro hstop
  rw [hstop] at h
  cases h

theorem resume_alike (hsub : ReadAlike R cut sub sub') (pending : List Pending) (max : Nat)
    (left : Term) (priority : Nat) (toks toks' : List Lexeme) (h : R toks toks') :
    Outcome.Alike R cut Eq R (resume style sub pending max left priority toks)
      (resume style sub' pending max left priority toks') := by
  -- The induction is along the loop over the first list; the steps over the second
  -- one are the same, for they are decided by the token at the front.
  induction pending, max, left, priority, toks using resume.induct style sub
    generalizing toks' with
  | case1 pending max left priority toks functor op hc right rightPriority rest a hp ih =>
    have htail := Likeness.tail h (peek_ne_stop_of_continuation hc)
    rw [resume_between pending hc, resume_between pending (Likeness.peek h ▸ hc)]
    refine alike_andThen (primary_alike hsub htail op.rightMax .operand) ?_
    rintro v _ last last' ⟨b, hread⟩ rfl hlast
    cases hp.symm.trans hread
    exact ih last' hlast
  | case2 pending max left priority toks functor op hc m a hp =>
    have htail := Likeness.tail h (peek_ne_stop_of_continuation hc)
    rw [resume_between pending hc, resume_between pending (Likeness.peek h ▸ hc)]
    refine alike_andThen (primary_alike hsub htail op.rightMax .operand) ?_
    rintro v _ last last' ⟨b, hread⟩ _ _
    cases hp.symm.trans hread
  | case3 pending max left priority toks functor op hc rest hp =>
    have htail := Likeness.tail h (peek_ne_stop_of_continuation hc)
    rw [resume_between pending hc, resume_between pending (Likeness.peek h ▸ hc)]
    refine alike_andThen (primary_alike hsub htail op.rightMax .operand) ?_
    rintro v _ last last' ⟨b, hread⟩ _ _
    cases hp.symm.trans hread
  | case4 pending max left priority toks functor op hc ih =>
    have hc' : continuation priority max (peek toks') = some (.after functor op) :=
      Likeness.peek h ▸ hc
    rw [resume_after pending hc, resume_after pending hc']
    exact ih _ (Likeness.tail h (peek_ne_stop_of_continuation hc))
  | case5 max left priority toks hc =>
    rw [resume_nil hc, resume_nil (Likeness.peek h ▸ hc)]
    exact .read rfl h .none
  | case6 max left priority toks hc outer others ih =>
    rw [resume_pop outer others hc, resume_pop outer others (Likeness.peek h ▸ hc)]
    exact ih _ h

theorem operators_alike (hsub : ReadAlike R cut sub sub') :
    ReadAlike R cut (deeper style sub) (deeper style sub') := by
  intro max rule toks toks' h
  refine alike_andThen (primary_alike hsub h max rule) ?_
  rintro ⟨t, priority⟩ _ rest rest' _ rfl hrest
  exact resume_alike hsub [] max t priority rest rest' hrest

/-! ## Levels -/

/-- Related lists are read as the same, on any level, and on a level above it unless the
lower one is too deep. -/
theorem terms_alike (style : Style) {levels levels' : Nat} (hle : levels ≤ levels')
    (hcut : levels < levels' → cut) :
    ReadAlike R cut (terms style levels) (terms style levels') := by
  induction levels generalizing levels' with
  | zero =>
    intro max rule toks toks' h
    cases levels' with
    | zero => exact .tooDeep h
    | succ levels' => exact .cut (hcut (Nat.succ_pos levels'))
  | succ levels ih =>
    obtain ⟨levels', rfl⟩ : ∃ n, levels' = n + 1 := ⟨levels' - 1, by omega⟩
    have hsub := ih (Nat.le_of_succ_le_succ hle) fun hlt => hcut (Nat.succ_lt_succ hlt)
    exact operators_alike hsub

end Reading

end

end Clausal
