import Clausal.Proofs.Reading.Grammar
import Clausal.Proofs.Reading.Resume

/-
  Soundness of reading — what is read is a term of the grammar

  A reader takes more than the grammar says: it keeps operators waiting on a stack
  with the terms before them, lowers bounds on the way, and gives up one reading
  for another. Whatever it comes to, the lexemes it took are a run from which the
  grammar derives the term it hands back.

  What is proved:
    1. `took_andThen` — what two readings took one after the other.
    2. `primary_took` — a term without an operator between its parts.
    3. `resume_took` — the loop of one level, with the runs that wait on its stack.
    4. `terms_sound` — what is read on any level is derived by the grammar.
-/

namespace Clausal

/-! ## What an outcome took -/

/-- The lexemes that a value was read from are a run that bears it out. -/
def Outcome.Took {α : Type} (P : α → List Lexeme → Prop) (toks : List Lexeme) : Outcome α → Prop
  | .read v rest _ => ∃ run, toks = run ++ rest ∧ P v run
  | _ => True

namespace Outcome

variable {α β : Type} {P : α → List Lexeme → Prop} {toks : List Lexeme} {o : Outcome α}

@[simp] theorem took_map {Q : β → List Lexeme → Prop} {f : α → β} :
    (o.map f).Took Q toks ↔ o.Took (fun v => Q (f v)) toks := by
  cases o <;> exact Iff.rfl

@[simp] theorem took_after {a : Option Miss} : (o.after a).Took P toks ↔ o.Took P toks := by
  cases o <;> exact Iff.rfl

theorem Took.mono {Q : α → List Lexeme → Prop} (h : o.Took P toks)
    (himp : ∀ v run, P v run → Q v run) : o.Took Q toks := by
  cases o with
  | read v rest a =>
    obtain ⟨run, htoks, hrun⟩ := h
    exact ⟨run, htoks, himp v run hrun⟩
  | _ => trivial

/-- What was taken behind some lexemes was taken with them. -/
theorem took_append (run : List Lexeme) (h : o.Took (fun v more => P v (run ++ more)) toks) :
    o.Took P (run ++ toks) := by
  cases o with
  | read v rest a =>
    obtain ⟨more, htoks, hmore⟩ := h
    exact ⟨run ++ more, by rw [htoks, List.append_assoc], hmore⟩
  | _ => trivial

theorem took_cons {l : Lexeme} (h : o.Took (fun v run => P v (l :: run)) toks) :
    o.Took P (l :: toks) :=
  took_append [l] h

/-- Two readings one after the other took the runs of both. -/
theorem took_andThen {Q : β → List Lexeme → Prop} {next : α → List Lexeme → Outcome β}
    (h : o.Took P toks) (hnext : ∀ v run rest, toks = run ++ rest → P v run →
      (next v rest).Took (fun w more => Q w (run ++ more)) rest) :
    (o.andThen next).Took Q toks := by
  cases o with
  | read v rest a =>
    obtain ⟨run, rfl, hrun⟩ := h
    exact took_after.mpr (took_append run (hnext v run rest rfl hrun))
  | _ => trivial

end Outcome

theorem cons_of_peek {toks : List Lexeme} {token : Token} (h : peek toks = token)
    (hne : token ≠ .endOfText) : ∃ l, toks = l :: toks.tail ∧ l.token = token := by
  cases toks with
  | nil => exact absurd h.symm hne
  | cons l rest => exact ⟨l, rfl, h⟩

theorem expect_took {token : Token} (expected : Expected) (toks : List Lexeme)
    (hne : token ≠ .endOfText) : (expect token expected toks).Took
      (fun _ run => ∃ l, run = [l] ∧ l.token = token) toks := by
  unfold expect
  split
  · rename_i hpeek
    obtain ⟨l, htoks, hl⟩ := cons_of_peek hpeek hne
    exact ⟨[l], htoks, l, rfl, hl⟩
  · trivial

namespace Reading

/-- Every term that the reader hands back is derived from what it took. -/
def Sound (quotes : DoubleQuotes) (sub : Reader) : Prop :=
  ∀ max rule toks, (sub.read max rule toks).Took
    (fun v run => Derives quotes (.term max v.1 v.2) run) toks

section

variable {quotes : DoubleQuotes} {sub : Reader}

/-! ## Brackets -/

/-- The part was derived from all lexemes of a run but the last, which closes it. -/
def ClosedBy (quotes : DoubleQuotes) (close : Token) (part : Part) (run : List Lexeme) : Prop :=
  ∃ inner closing, run = inner ++ [closing] ∧ closing.token = close ∧ Derives quotes part inner

theorem enclosed_took (hsub : Sound quotes sub) (rule : Rule) {close : Token} (shown : String)
    (toks : List Lexeme) (hne : close ≠ .endOfText) : (enclosed sub rule close shown toks).Took
      (fun t run => ∃ priority, ClosedBy quotes close (.term maxPriority t priority) run) toks := by
  refine Outcome.took_andThen (hsub _ _ _) ?_
  rintro ⟨t, priority⟩ run rest _ hrun
  refine Outcome.took_map.mpr ((expect_took _ rest hne).mono ?_)
  rintro _ _ ⟨closing, rfl, hclosing⟩
  exact ⟨priority, run, closing, rfl, hclosing, hrun⟩

theorem pred_length_lt_of_run {part : Part} {toks run rest : List Lexeme}
    (htoks : toks = run ++ rest) (hrun : Derives quotes part run) :
    rest.length - 1 < toks.length := by
  have := List.length_pos_iff.mpr hrun.ne_nil
  rw [htoks, List.length_append]
  omega

theorem arguments_took (hsub : Sound quotes sub) (toks : List Lexeme) :
    (arguments sub toks).Took (fun ts run => ClosedBy quotes .closeRound (.arguments ts) run)
      toks := by
  rw [arguments_eq]
  refine Outcome.took_andThen (hsub _ _ _) ?_
  rintro ⟨t, priority⟩ run rest htoks hrun
  have hlt := pred_length_lt_of_run htoks hrun
  cases hpeek : peek rest with
  | comma =>
    obtain ⟨comma, hrest, hcomma⟩ := cons_of_peek hpeek (by simp)
    rw [hrest]
    refine Outcome.took_map.mpr (Outcome.took_cons ((arguments_took hsub rest.tail).mono ?_))
    rintro ts _ ⟨others, closing, rfl, hclosing, hothers⟩
    exact ⟨run ++ comma :: others, closing, by simp, hclosing, .argument hcomma hrun hothers⟩
  | closeRound =>
    obtain ⟨closing, hrest, hclosing⟩ := cons_of_peek hpeek (by simp)
    exact ⟨[closing], hrest, run, closing, rfl, hclosing, .lastArgument hrun⟩
  | _ => trivial
termination_by toks.length

theorem elements_took (hsub : Sound quotes sub) (toks : List Lexeme) :
    (elements sub toks).Took (fun t run => ClosedBy quotes .closeSquare (.elements t) run)
      toks := by
  rw [elements_eq]
  refine Outcome.took_andThen (hsub _ _ _) ?_
  rintro ⟨t, priority⟩ run rest htoks hrun
  have hlt := pred_length_lt_of_run htoks hrun
  cases hpeek : peek rest with
  | comma =>
    obtain ⟨comma, hrest, hcomma⟩ := cons_of_peek hpeek (by simp)
    rw [hrest]
    refine Outcome.took_map.mpr (Outcome.took_cons ((elements_took hsub rest.tail).mono ?_))
    rintro ts _ ⟨others, closing, rfl, hclosing, hothers⟩
    exact ⟨run ++ comma :: others, closing, by simp, hclosing, .element hcomma hrun hothers⟩
  | bar =>
    obtain ⟨bar, hrest, hbar⟩ := cons_of_peek hpeek (by simp)
    rw [hrest]
    refine Outcome.took_cons (Outcome.took_andThen (hsub _ _ _) ?_)
    rintro ⟨tail, tailPriority⟩ tailRun last _ htail
    refine Outcome.took_map.mpr ((expect_took _ last (by simp)).mono ?_)
    rintro _ _ ⟨closing, rfl, hclosing⟩
    exact ⟨run ++ bar :: tailRun, closing, by simp, hclosing, .elementAndTail hbar hrun htail⟩
  | closeSquare =>
    obtain ⟨closing, hrest, hclosing⟩ := cons_of_peek hpeek (by simp)
    exact ⟨[closing], hrest, run, closing, rfl, hclosing, .lastElement hrun⟩
  | _ => trivial
termination_by toks.length

section

variable {l : Lexeme} {max : Nat}

theorem listTerm_took (hsub : Sound quotes sub) (toks : List Lexeme) (hl : l.token = .openSquare) :
    (listTerm sub toks).Took (fun t run => Derives quotes (.term max t 0) (l :: run)) toks := by
  unfold listTerm
  split
  · rename_i hpeek
    obtain ⟨closing, htoks, hclosing⟩ := cons_of_peek hpeek (by simp)
    exact ⟨[closing], htoks, .emptyList hl hclosing⟩
  · refine (elements_took hsub toks).mono ?_
    rintro t _ ⟨inner, closing, rfl, hclosing, hinner⟩
    exact .list hl hclosing hinner

theorem curlyTerm_took (hsub : Sound quotes sub) (toks : List Lexeme) (hl : l.token = .openCurly) :
    (curlyTerm sub toks).Took (fun t run => Derives quotes (.term max t 0) (l :: run)) toks := by
  unfold curlyTerm
  split
  · rename_i hpeek
    obtain ⟨closing, htoks, hclosing⟩ := cons_of_peek hpeek (by simp)
    exact ⟨[closing], htoks, .emptyCurly hl hclosing⟩
  · refine Outcome.took_map.mpr ((enclosed_took hsub _ _ toks (by simp)).mono ?_)
    rintro t _ ⟨priority, inner, closing, rfl, hclosing, hinner⟩
    exact .curly hl hclosing hinner

theorem compoundTerm_took (hsub : Sound quotes sub) {functor : String} {toks : List Lexeme}
    (hl : l.token = .name functor ∨ l.token = .quotedName functor)
    (hopens : opensArguments toks = true) : (compoundTerm sub functor toks).Took
      (fun v run => Derives quotes (.term max v.1 v.2) (l :: run)) toks := by
  obtain ⟨opening, htoks, hopening, hlayout⟩ := opening_of_opensArguments hopens
  rw [htoks]
  refine Outcome.took_map.mpr (Outcome.took_cons ((arguments_took hsub toks.tail).mono ?_))
  rintro ts _ ⟨inner, closing, rfl, hclosing, hinner⟩
  exact .compound hl hopening hlayout hclosing hinner

/-! ## Names -/

/-- An operator before its argument, or the atom that it becomes. -/
theorem application_took (hsub : Sound quotes sub) (style : Style) {name : String} {op : Operator}
    (hl : l.token = .name name) (hop : Operator.before? name = some op) (rest : List Lexeme) :
    (application style sub name op max rest).Took
      (fun v run => Derives quotes (.term max v.1 v.2) (l :: run)) rest := by
  have hargument := hsub (min op.rightMax (min op.priority max)) .operand rest
  have hatom : ∀ a, Outcome.Took (fun v run => Derives quotes (.term max v.1 v.2) (l :: run)) rest
      (.read (.atom name, 0) rest a) := fun a => ⟨[], rfl, .atom (Or.inl hl)⟩
  unfold application
  cases hread : sub.read (min op.rightMax (min op.priority max)) .operand rest with
  | read v last a =>
    obtain ⟨t, priority⟩ := v
    rw [hread] at hargument
    obtain ⟨run, hrest, hrun⟩ := hargument
    rw [applied]
    split
    · exact ⟨run, hrest, .before hl hop hrun⟩
    · exact hatom a
  | miss m a =>
    rw [applied]
    split
    · trivial
    · exact hatom _
  | tooDeep last => trivial

theorem negativeLiteral_derives (max : Nat) {minus : Lexeme} {t : Term} {rest : List Lexeme}
    (hminus : minus.token = .name "-") (h : negativeLiteral rest = some t) :
    ∃ l, rest = l :: rest.tail ∧ Derives quotes (.term max t 0) [minus, l] := by
  cases rest with
  | nil => cases h
  | cons l rest =>
    simp only [negativeLiteral] at h
    split at h
    · rename_i hlayout htoken
      obtain rfl := Option.some.inj h
      exact ⟨l, rfl, .negativeInteger hminus htoken hlayout⟩
    · rename_i hlayout htoken
      obtain rfl := Option.some.inj h
      exact ⟨l, rfl, .negativeFloat hminus htoken hlayout⟩
    · cases h

theorem nameTerm_took (hsub : Sound quotes sub) (style : Style) {name : String}
    (hl : l.token = .name name) (rest : List Lexeme) : (nameTerm style sub name max rest).Took
      (fun v run => Derives quotes (.term max v.1 v.2) (l :: run)) rest := by
  unfold nameTerm
  split
  · rename_i hopens
    exact compoundTerm_took hsub (Or.inl hl) hopens
  · split
    · rename_i t hliteral
      split at hliteral
      · rename_i hname
        subst hname
        obtain ⟨number, hrest, ht⟩ := negativeLiteral_derives max hl hliteral
        exact ⟨[number], hrest, ht⟩
      · cases hliteral
    · split
      · exact ⟨[], rfl, .atom (Or.inl hl)⟩
      · rename_i op hop
        split
        · exact application_took hsub style hl hop rest
        · exact ⟨[], rfl, .atom (Or.inl hl)⟩

end

/-- A term without an operator between its parts is derived from what it took. -/
theorem primary_took (hsub : Sound quotes sub) (mode : Mode) (max : Nat) (rule : Rule)
    (toks : List Lexeme) : (primary ⟨quotes, mode⟩ sub max rule toks).Took
      (fun v run => Derives quotes (.term max v.1 v.2) run) toks := by
  cases toks with
  | nil => trivial
  | cons l rest =>
    unfold primary
    simp only [peek, List.tail_cons]
    cases hl : l.token with
    | integer n => exact Outcome.took_cons ⟨[], rfl, .integer hl⟩
    | float x => exact Outcome.took_cons ⟨[], rfl, .float hl⟩
    | var name => exact Outcome.took_cons ⟨[], rfl, .var hl⟩
    | string text => exact Outcome.took_cons ⟨[], rfl, .string hl⟩
    | backQuoted text => exact Outcome.took_cons ⟨[], rfl, .backQuoted hl⟩
    | openRound =>
      refine Outcome.took_cons (Outcome.took_map.mpr ?_)
      refine (enclosed_took hsub _ _ rest (by simp)).mono ?_
      rintro t _ ⟨priority, inner, closing, rfl, hclosing, hinner⟩
      exact .bracketed hl hclosing hinner
    | openSquare => exact Outcome.took_cons (Outcome.took_map.mpr (listTerm_took hsub rest hl))
    | openCurly => exact Outcome.took_cons (Outcome.took_map.mpr (curlyTerm_took hsub rest hl))
    | quotedName name =>
      refine Outcome.took_cons ?_
      by_cases hopens : opensArguments rest = true
      · simp only [hopens, if_true]
        exact compoundTerm_took hsub (Or.inr hl) hopens
      · simp only [hopens, if_false, Bool.false_eq_true]
        exact ⟨[], rfl, .atom (Or.inr hl)⟩
    | name name => exact Outcome.took_cons (nameTerm_took hsub _ hl rest)
    | _ => trivial

/-! ## Operators between terms -/

/-- What goes on with a term is an operator between terms that fits. -/
theorem joining_of_continuation {left max : Nat} {token : Token} {c : Continuation}
    (h : continuation left max token = some c) :
    ∃ functor op, c = .between functor op ∧ joining token = some (functor, op) ∧
      op.priority ≤ max ∧ left ≤ op.leftMax := by
  have hfits : ∀ {op : Operator}, fits left max op = true → op.priority ≤ max ∧ left ≤ op.leftMax :=
    fun h => by simpa [fits] using h
  cases token with
  | name name =>
    rw [continuation, continuationOfName_eq, Option.map_eq_some_iff] at h
    obtain ⟨op, hop, rfl⟩ := h
    obtain ⟨hfind, hfit⟩ := Option.filter_eq_some_iff.mp hop
    exact ⟨name, op, rfl, by rw [joining, hfind]; rfl, hfits hfit⟩
  | comma =>
    rw [continuation, Option.map_eq_some_iff] at h
    obtain ⟨op, hop, rfl⟩ := h
    obtain ⟨hfind, hfit⟩ := Option.filter_eq_some_iff.mp hop
    exact ⟨",", op, rfl, by rw [joining, hfind]; rfl, hfits hfit⟩
  | bar =>
    rw [continuation] at h
    split at h
    · rename_i hfit
      obtain rfl := Option.some.inj h
      exact ⟨";", barOperator, rfl, rfl, hfits hfit⟩
    · cases h
  | _ => cases h

/-- The operators that wait on the stack took the run, each with the term before
it: the lowest one in a term under `bound`, the next argument to be read under
`max`. -/
inductive Awaits (quotes : DoubleQuotes) (bound : Nat) : List Pending → (max : Nat) →
    List Lexeme → Prop where
  | nil : Awaits quotes bound [] bound []
  | cons {p : Pending} {others : List Pending} {op : Operator} {l : Lexeme} {leftPriority : Nat}
    {before run : List Lexeme} : Awaits quotes bound others p.max before →
    Derives quotes (.term p.max p.left leftPriority) run →
    joining l.token = some (p.functor, op) → p.priority = op.priority →
    op.priority ≤ p.max → leftPriority ≤ op.leftMax →
    Awaits quotes bound (p :: others) op.rightMax (before ++ run ++ [l])

/-- The loop hands back a term derived from the runs that waited, the run of the
term before it and what it took itself. -/
theorem resume_took (hsub : Sound quotes sub) (mode : Mode) {bound : Nat} (pending : List Pending)
    (max : Nat) (left : Term) (priority : Nat) (toks : List Lexeme) {before run : List Lexeme}
    (hwaits : Awaits quotes bound pending max before)
    (hleft : Derives quotes (.term max left priority) run) :
    (resume ⟨quotes, mode⟩ sub pending max left priority toks).Took
      (fun v more => Derives quotes (.term bound v.1 v.2) (before ++ run ++ more)) toks := by
  -- The induction is along the loop; an operator goes onto the stack with the run
  -- before it, and comes off it with the run of its right argument.
  fun_induction resume ⟨quotes, mode⟩ sub pending max left priority toks
    generalizing before run with
  | case1 pending max left priority toks functor op hc right rightPriority rest a hp ih =>
    obtain ⟨_, _, hsame, hjoining, hfits, hle⟩ := joining_of_continuation hc
    obtain ⟨rfl, rfl⟩ := Continuation.between.inj hsame
    have hpeek : peek toks ≠ .endOfText := by
      intro h
      rw [h] at hjoining
      cases hjoining
    obtain ⟨l, htoks, hl⟩ := cons_of_peek rfl hpeek
    have hright := primary_took hsub mode op.rightMax .operand toks.tail
    rw [hp] at hright
    obtain ⟨rightRun, htail, hright⟩ := hright
    rw [← hl] at hjoining
    have hmore := ih (.cons (p := ⟨left, functor, op.priority, max⟩) hwaits hleft hjoining rfl
      hfits hle) hright
    rw [htoks, htail]
    refine Outcome.took_after.mpr (Outcome.took_append (l :: rightRun) (hmore.mono ?_))
    intro v more hv
    simpa using hv
  | case2 pending max left priority toks functor op hc m a hp => trivial
  | case3 pending max left priority toks functor op hc rest hp => trivial
  | case4 pending max left priority toks functor op hc ih =>
    obtain ⟨_, _, hsame, _⟩ := joining_of_continuation hc
    cases hsame
  | case5 max left priority toks hc =>
    cases hwaits
    exact ⟨[], rfl, by simpa using hleft⟩
  | case6 max left priority toks hc outer others ih =>
    cases hwaits with
    | cons hothers houter hjoining hpriority hfits hle =>
      have hboth := Derives.between hjoining hfits houter hle hleft
      rw [← hpriority] at hboth
      simpa using ih hothers hboth

theorem operators_took (hsub : Sound quotes sub) (mode : Mode) :
    Sound quotes (deeper ⟨quotes, mode⟩ sub) := by
  intro max rule toks
  refine Outcome.took_andThen (primary_took hsub mode max rule toks) ?_
  rintro ⟨t, priority⟩ run rest _ hrun
  exact resume_took hsub mode [] max t priority rest .nil hrun

/-! ## Levels -/

theorem terms_took (quotes : DoubleQuotes) (mode : Mode) (levels : Nat) :
    Sound quotes (terms ⟨quotes, mode⟩ levels) := by
  induction levels with
  | zero => exact fun _ _ _ => trivial
  | succ levels ih => exact operators_took ih mode

end

/-- A term that is read under a bound, in any mode and on any level, took a run of
lexemes in which no clause and no text ends, and the grammar derives the term
from that run, with the priority it was read at, which is within the bound. -/
theorem terms_sound {style : Style} {levels max priority : Nat} {rule : Rule}
    {toks rest : List Lexeme} {t : Term} {a : Option Miss}
    (h : (terms style levels).read max rule toks = .read (t, priority) rest a) :
    ∃ run, toks = run ++ rest ∧ run ≠ [] ∧ (∀ l ∈ run, InClause l) ∧
      Derives style.quotes (.term max t priority) run ∧ priority ≤ max := by
  have htook := terms_took style.quotes style.mode levels max rule toks
  rw [h] at htook
  obtain ⟨run, htoks, hrun⟩ := htook
  exact ⟨run, htoks, hrun.ne_nil, hrun.inside_clause, hrun, hrun.priority_le⟩

/-- `- a + X .` is read as the sum of `-(a)` and `X`, from the four lexemes before
the end token. -/
theorem terms_sound_chain :
    let lexeme := fun token => (⟨token, ⟨1, 1, 0, 0⟩, false⟩ : Lexeme)
    let toks := [.name "-", .name "a", .name "+", .var "X", .stop].map lexeme
    let t : Term := .compound "+" [.compound "-" [.atom "a"], .var "X"]
    (terms ⟨.codes, .thorough⟩ 2).read maxPriority .term toks =
        .read (t, 500) [lexeme .stop] none ∧
      ∃ run, toks = run ++ [lexeme .stop] ∧ run ≠ [] ∧ (∀ l ∈ run, InClause l) ∧
        Derives .codes (.term maxPriority t 500) run ∧ 500 ≤ maxPriority := by
  intro lexeme toks t
  let style : Style := ⟨.codes, .thorough⟩
  have hargument : (terms style 1).read 200 .operand (toks.drop 1) =
      .read (.atom "a", 0) (toks.drop 2) none :=
    terms_read (start_of_primary [] rfl) rfl
  have hfirst : primary style (terms style 1) maxPriority .term toks =
      .read (.compound "-" [.atom "a"], 200) (toks.drop 2) none := by
    show applied _ _ _ _ ((terms style 1).read 200 .operand (toks.drop 1)) = _
    rw [hargument]
    rfl
  have hread : (terms style 2).read maxPriority .term toks =
      .read (t, 500) [lexeme .stop] none := by
    rw [terms_eq_start, start_of_primary [] hfirst, resume_between [] rfl,
      start_of_primary _ rfl, resume_pop _ _ rfl, resume_nil rfl]
    rfl
  exact ⟨hread, terms_sound hread⟩

end Reading

end Clausal
