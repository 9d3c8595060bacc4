import Clausal.Proofs.Reading.Resume
import Clausal.Proofs.Token.Phrase

/-
  Reading back — phrases that are read as given terms, wherever they stand

  A phrase reads as a term of some priority when the loop of a level, put
  before its lexemes, comes out behind them with that term. The bound of the
  place must allow the priority, and what stands behind the phrase must be
  something that may follow a term and that the phrase's last operator cannot
  take in. The bound of that last operator is the edge of the phrase.

  What is proved:
    1. `ReadsAs.term` and `ReadsAs.whole` — on one level more the phrase is read as a
       term of its own, to its end when nothing stands behind it.
    2. `readsAs_bracketed`, `readsAs_curly`, `readsAs_before`, `readsAs_between`,
       `readsAs_compound`, `readsAs_list` — phrases put together read as terms
       put together.
-/

namespace Clausal.Reading

/-- What may stand behind a phrase with an edge. Behind an operator that stands
alone for an atom only a token that ends terms may. -/
structure Follows (edge : Nat) (alone : Bool) (token : Token) : Prop where
  operand : followsOperand token = true
  stops : continuation 0 edge token = none
  terminator : alone = true → token.isTerminator = true

theorem Follows.of_le {edge low : Nat} {alone : Bool} {token : Token}
    (h : Follows edge alone token) (hle : low ≤ edge) : Follows low alone token :=
  ⟨h.operand, continuation_of_le hle h.stops, h.terminator⟩

/-- The phrase is read as the term with this priority, in a loop of a level that
so many levels lie below. -/
def ReadsAs (p : Phrase) (t : Term) (priority edge : Nat) (alone : Bool) (levels : Nat) : Prop :=
  ∀ ⦃style : Style⦄ ⦃below : Nat⦄ (pending : List Pending) ⦃max : Nat⦄ (rule : Rule) ⦃gap : Bool⦄
    ⦃front more : List Lexeme⦄, levels ≤ below → priority ≤ max →
    front.map Lexeme.word = p.words gap → Follows edge alone (peek more) →
    start style (terms style below) pending max rule (front ++ more) =
      resume style (terms style below) pending max t priority more

section

variable {p q : Phrase} {t u : Term} {priority edge levels : Nat} {alone : Bool}

theorem ReadsAs.mono (h : ReadsAs p t priority edge alone levels) {more : Nat}
    (hle : levels ≤ more) : ReadsAs p t priority edge alone more := by
  intro style below pending max rule gap front rest hlevels
  exact h pending rule (Nat.le_trans hle hlevels)

/-- One level up a phrase is a term of its own. -/
theorem ReadsAs.term (h : ReadsAs p t priority edge alone levels) {style : Style} {below max : Nat}
    (rule : Rule) {gap : Bool} {front more : List Lexeme} (hlevels : levels < below)
    (hedge : edge ≤ priority) (hmax : priority ≤ max) (hfront : front.map Lexeme.word = p.words gap)
    (hmore : Follows max alone (peek more)) :
    (terms style below).read max rule (front ++ more) = .read (t, priority) more none := by
  obtain ⟨below, rfl⟩ : ∃ n, below = n + 1 := ⟨below - 1, by omega⟩
  refine terms_read ?_ hmore.stops
  exact h [] rule (Nat.le_of_lt_succ hlevels) hmax hfront (hmore.of_le (Nat.le_trans hedge hmax))

/-! ## Lexemes of a phrase -/

/-- The lexemes of one word and some more. -/
theorem lexemes_cons {front : List Lexeme} {w : Word} {ws : List Word}
    (h : front.map Lexeme.word = w :: ws) :
    ∃ l rest, front = l :: rest ∧ l.token = w.token ∧ l.layoutBefore = w.gap ∧
      rest.map Lexeme.word = ws := by
  obtain ⟨l, rest, rfl, hl, hrest⟩ := List.map_eq_cons_iff.mp h
  exact ⟨l, rest, rfl, by rw [← hl]; rfl, by rw [← hl]; rfl, hrest⟩

theorem lexemes_nil {front : List Lexeme} (h : front.map Lexeme.word = []) : front = [] :=
  List.map_eq_nil_iff.mp h

theorem lexemes_append {front : List Lexeme} {ws vs : List Word}
    (h : front.map Lexeme.word = ws ++ vs) :
    ∃ a b, front = a ++ b ∧ a.map Lexeme.word = ws ∧ b.map Lexeme.word = vs :=
  List.map_eq_append_iff.mp h

/-- The lexeme of a single token. -/
theorem lexemes_single {front : List Lexeme} {token : Token} {gap : Bool}
    (h : front.map Lexeme.word = (Phrase.single token).words gap) :
    ∃ l, front = [l] ∧ l.token = token ∧ l.layoutBefore = gap := by
  obtain ⟨l, rest, rfl, htoken, hgap, hrest⟩ := lexemes_cons h
  obtain rfl := lexemes_nil hrest
  exact ⟨l, rfl, htoken, hgap⟩

/-- The lexeme of a token and the lexemes of the phrase behind it. -/
theorem lexemes_single_before {front : List Lexeme} {token : Token} {gap inner : Bool}
    (h : front.map Lexeme.word = ((Phrase.single token).before inner p).words gap) :
    ∃ l rest, front = l :: rest ∧ l.token = token ∧ l.layoutBefore = gap ∧
      rest.map Lexeme.word = p.words inner := by
  obtain ⟨l, rest, rfl, htoken, hgap, hrest⟩ := lexemes_cons h
  exact ⟨l, rest, rfl, htoken, hgap, hrest⟩

theorem lexemes_before {front : List Lexeme} {gap inner : Bool}
    (h : front.map Lexeme.word = (p.before inner q).words gap) :
    ∃ a b, front = a ++ b ∧ a.map Lexeme.word = p.words gap ∧
      b.map Lexeme.word = q.words inner := by
  rw [Phrase.words_before] at h
  exact lexemes_append h

/-- The lexemes of a phrase between two tokens. -/
theorem lexemes_enclosed {front : List Lexeme} {opening closing : Token} {gap : Bool}
    (h : front.map Lexeme.word = ((Phrase.single opening).before false
      (p.before false (.single closing))).words gap) :
    ∃ l inner k, front = l :: (inner ++ [k]) ∧ l.token = opening ∧ l.layoutBefore = gap ∧
      inner.map Lexeme.word = p.words false ∧ k.token = closing := by
  obtain ⟨l, rest, rfl, htoken, hgap, hrest⟩ := lexemes_single_before h
  obtain ⟨inner, last, rfl, hinner, hlast⟩ := lexemes_before hrest
  obtain ⟨k, rfl, hk, _⟩ := lexemes_single hlast
  exact ⟨l, inner, k, rfl, htoken, hgap, hinner, hk⟩

/-- A phrase whose first token begins a term stands before no closing token. -/
theorem peek_ne_of_startsTerm {front more : List Lexeme} {gap : Bool} {token : Token}
    (h : front.map Lexeme.word = p.words gap) (hstart : p.first.startsTerm = true)
    (htoken : token.startsTerm = false) : peek (front ++ more) ≠ token := by
  obtain ⟨l, rest, rfl, hl, _, _⟩ := lexemes_cons h
  rw [List.cons_append, peek, hl]
  rintro rfl
  exact Bool.false_ne_true (htoken.symm.trans hstart)

/-! ## Terms without parts -/

/-- A token that is a term by itself. -/
theorem readsAs_of_primary
    (h : ∀ (style : Style) (sub : Reader) (max : Nat) (rule : Rule) (gap : Bool)
      (front more : List Lexeme), front.map Lexeme.word = p.words gap →
      followsOperand (peek more) = true → (alone = true → (peek more).isTerminator = true) →
      primary style sub max rule (front ++ more) = simple t more) :
    ReadsAs p t 0 0 alone levels := by
  intro style below pending max rule gap front more _ _ hfront hmore
  exact start_of_primary pending
    (h style _ max rule gap front more hfront hmore.operand hmore.terminator)

theorem readsAs_variable (name : String) :
    ReadsAs (.single (.var name)) (.var name) 0 0 false levels := by
  apply readsAs_of_primary
  intro style sub max rule gap front more hfront _ _
  obtain ⟨l, rfl, htoken, _⟩ := lexemes_single hfront
  simp [primary, peek, htoken]

theorem not_opensArguments {more : List Lexeme} (h : followsOperand (peek more) = true) :
    opensArguments more = false := by
  cases more with
  | nil => rfl
  | cons l rest =>
    rw [peek] at h
    cases ht : l.token <;> simp_all [opensArguments, followsOperand, Token.isTerminator]

theorem not_negativeLiteral {more : List Lexeme} (h : followsOperand (peek more) = true) :
    negativeLiteral more = none := by
  cases more with
  | nil => rfl
  | cons l rest =>
    rw [peek] at h
    unfold negativeLiteral
    cases ht : l.token <;> simp_all [followsOperand, Token.isTerminator]

/-- A name that nothing goes on with is an atom. An operator before its argument
is one only where no term can begin. -/
theorem nameTerm_atom (style : Style) (sub : Reader) (name : String) (max : Nat)
    {more : List Lexeme} (h : followsOperand (peek more) = true)
    (halone : Operator.isName name = true → (peek more).isTerminator = true) :
    nameTerm style sub name max more = simple (.atom name) more := by
  unfold nameTerm
  rw [not_opensArguments h, if_neg Bool.false_ne_true]
  have hliteral : (if name = "-" then negativeLiteral more else none) = none := by
    split
    · exact not_negativeLiteral h
    · rfl
  rw [hliteral]
  cases hop : Operator.before? name with
  | none => rfl
  | some op =>
    have hstart := Token.not_startsTerm_of_isTerminator (halone (Operator.isName_of_find? hop))
    simp [hstart]

theorem readsAs_quotedName (name : String) (alone : Bool) :
    ReadsAs (.single (.quotedName name)) (.atom name) 0 0 alone levels := by
  apply readsAs_of_primary
  intro style sub max rule gap front more hfront hmore _
  obtain ⟨l, rfl, htoken, _⟩ := lexemes_single hfront
  simp [primary, peek, htoken, not_opensArguments hmore]

theorem readsAs_bareName (name : String) :
    ReadsAs (.single (.name name)) (.atom name) 0 0 (Operator.isName name) levels := by
  apply readsAs_of_primary
  intro style sub max rule gap front more hfront hmore halone
  obtain ⟨l, rfl, htoken, _⟩ := lexemes_single hfront
  simp only [primary, List.singleton_append, peek, htoken, List.tail_cons]
  exact nameTerm_atom style sub name max hmore halone

theorem readsAs_name (name : String) :
    ReadsAs (.single (Text.nameToken name)) (.atom name) 0 0 (Operator.isName name) levels := by
  unfold Text.nameToken
  split
  · exact readsAs_quotedName name _
  · exact readsAs_bareName name

theorem readsAs_int (i : Int) : ReadsAs (Text.intPhrase i) (.integer i) 0 0 false levels := by
  apply readsAs_of_primary
  intro style sub max rule gap front more hfront _ _
  cases i with
  | ofNat n =>
    obtain ⟨l, rfl, htoken, _⟩ := lexemes_single hfront
    simp [primary, peek, htoken]
  | negSucc n =>
    obtain ⟨l, rest, rfl, htoken, _, hrest⟩ := lexemes_single_before hfront
    obtain ⟨k, rfl, hk, hgap⟩ := lexemes_single hrest
    simp only [primary, List.cons_append, peek, htoken, List.tail_cons, List.nil_append]
    simp only [nameTerm, opensArguments, hk, hgap, negativeLiteral]
    rfl

/-- The empty list and the empty curly brackets are atoms. -/
theorem readsAs_emptyList :
    ReadsAs ((Phrase.single .openSquare).before false (.single .closeSquare)) (.atom "[]")
      0 0 false levels := by
  apply readsAs_of_primary
  intro style sub max rule gap front more hfront _ _
  obtain ⟨l, rest, rfl, htoken, _, hrest⟩ := lexemes_single_before hfront
  obtain ⟨k, rfl, hk, _⟩ := lexemes_single hrest
  simp [primary, peek, htoken, hk, listTerm, Outcome.map_read, Term.nil, simple]

theorem readsAs_emptyCurly :
    ReadsAs ((Phrase.single .openCurly).before false (.single .closeCurly))
      (.atom "\x7b\x7d") 0 0 false levels := by
  apply readsAs_of_primary
  intro style sub max rule gap front more hfront _ _
  obtain ⟨l, rest, rfl, htoken, _, hrest⟩ := lexemes_single_before hfront
  obtain ⟨k, rfl, hk, _⟩ := lexemes_single hrest
  simp [primary, peek, htoken, hk, curlyTerm, Outcome.map_read, simple]

/-! ## What may follow -/

theorem follows_terminator {token : Token} (h : token.isTerminator = true)
    (hstops : continuation 0 edge token = none) : Follows edge alone token := by
  refine ⟨?_, hstops, fun _ => h⟩
  cases token <;> simp_all [followsOperand, Token.isTerminator]

/-- With nothing behind it the phrase is read to its end. -/
theorem ReadsAs.whole (h : ReadsAs p t priority edge alone levels) {style : Style} {below max : Nat}
    (rule : Rule) {gap : Bool} {toks : List Lexeme} (hlevels : levels < below)
    (hedge : edge ≤ priority) (hmax : priority ≤ max) (htoks : toks.map Lexeme.word = p.words gap) :
    (terms style below).read max rule toks = .read (t, priority) [] none := by
  have hfollows : Follows max alone (peek []) := follows_terminator rfl rfl
  have hread : (terms style below).read max rule (toks ++ []) = .read (t, priority) [] none :=
    h.term rule hlevels hedge hmax htoks hfollows
  rwa [List.append_nil] at hread

/-- The token that an operator between its arguments is written as. -/
def operatorToken (name : String) : Token := if name = "," then .comma else .name name

theorem continuation_operatorToken {name : String} {op : Operator} {left max : Nat}
    (h : Operator.between? name = some op) (hmax : op.priority ≤ max) (hleft : left ≤ op.leftMax) :
    continuation left max (operatorToken name) = some (.between name op) := by
  have hfits : fits left max op = true := by simp [fits, hmax, hleft]
  unfold operatorToken
  split
  · rename_i hname
    subst hname
    simp [continuation, h, hfits]
  · simp [continuation, continuationOfName_eq, h, hfits]

theorem follows_operatorToken {name : String} {op : Operator}
    (h : Operator.between? name = some op) (hedge : edge < op.priority) :
    Follows edge false (operatorToken name) := by
  have hfits : fits 0 edge op = false := by simp [fits, hedge]
  unfold operatorToken
  split
  · rename_i hname
    subst hname
    refine ⟨rfl, ?_, fun h => Bool.noConfusion h⟩
    simp [continuation, h, hfits]
  · refine ⟨?_, ?_, fun h => Bool.noConfusion h⟩
    · simp [followsOperand, h]
    · simp [continuation, continuationOfName_eq, h, hfits]

/-! ## Brackets -/

theorem enclosed_read {sub : Reader} {rule : Rule} {close : Token} (shown : String)
    {toks rest : List Lexeme} (h : sub.read maxPriority rule toks = .read (t, priority) rest none)
    (hclose : peek rest = close) : enclosed sub rule close shown toks = .read t rest.tail none := by
  rw [enclosed, h, Outcome.andThen_read, expect_read _ hclose]
  rfl

theorem readsAs_bracketed (h : ReadsAs p t priority edge alone levels) (hedge : edge ≤ priority)
    (hpriority : priority ≤ maxPriority) :
    ReadsAs ((Phrase.single .openRound).before false (p.before false (.single .closeRound))) t
      0 0 false (levels + 1) := by
  intro style below pending max rule gap front more hlevels _ hfront _
  obtain ⟨l, inner, k, rfl, htoken, _, hinner, hk⟩ := lexemes_enclosed hfront
  have hread : (terms style below).read maxPriority .parenthesized (inner ++ k :: more) =
      .read (t, priority) (k :: more) none :=
    h.term .parenthesized hlevels hedge hpriority hinner
      (by rw [peek, hk]; exact follows_terminator rfl rfl)
  apply start_of_primary
  simp only [primary, List.cons_append, peek, htoken, List.tail_cons, List.append_assoc,
    List.nil_append]
  rw [enclosed_read "')'" hread hk]
  rfl

theorem readsAs_curly (h : ReadsAs p t priority edge alone levels) (hedge : edge ≤ priority)
    (hpriority : priority ≤ maxPriority) (hstart : p.first.startsTerm = true) :
    ReadsAs ((Phrase.single .openCurly).before false (p.before false (.single .closeCurly)))
      (.compound "\x7b\x7d" [t]) 0 0 false (levels + 1) := by
  intro style below pending max rule gap front more hlevels _ hfront _
  obtain ⟨l, inner, k, rfl, htoken, _, hinner, hk⟩ := lexemes_enclosed hfront
  have hread : (terms style below).read maxPriority .curly (inner ++ k :: more) =
      .read (t, priority) (k :: more) none :=
    h.term .curly hlevels hedge hpriority hinner
      (by rw [peek, hk]; exact follows_terminator rfl rfl)
  have hopen : peek (inner ++ k :: more) ≠ .closeCurly := peek_ne_of_startsTerm hinner hstart rfl
  apply start_of_primary
  simp only [primary, List.cons_append, peek, htoken, List.tail_cons, List.append_assoc,
    List.nil_append]
  rw [curlyTerm, if_neg hopen, enclosed_read "'\x7d'" hread hk]
  rfl

/-! ## Operators -/

theorem readsAs_before {name : String} {op : Operator} (hop : Operator.before? name = some op)
    (h : ReadsAs p t priority edge false levels) (hedge : edge ≤ priority)
    (hpriority : priority ≤ op.rightMax) (hstart : p.first.startsTerm = true) :
    ReadsAs ((Phrase.single (.name name)).before true p) (.compound name [t])
      op.priority op.rightMax false (levels + 1) := by
  intro style below pending max rule gap front more hlevels hmax hfront hmore
  obtain ⟨l, rest, rfl, htoken, _, hrest⟩ := lexemes_single_before hfront
  have hread : (terms style below).read op.rightMax .operand (rest ++ more) =
      .read (t, priority) more none := h.term .operand hlevels hedge hpriority hrest hmore
  obtain ⟨k, others, rfl, hk, hgap, _⟩ := lexemes_cons hrest
  have hbound : min op.rightMax (min op.priority max) = op.rightMax := by
    have := op.rightMax_le
    omega
  have hclamp : min op.priority max = op.priority := by omega
  apply start_of_primary
  simp only [primary, List.cons_append, peek, htoken, List.tail_cons]
  have hopens : opensArguments (k :: (others ++ more)) = false := by
    simp [opensArguments, hgap]
  -- The blank behind the name keeps a bracket from opening arguments and a
  -- minus from going into a number.
  have hliteral :
      (if name = "-" then negativeLiteral (k :: (others ++ more)) else none) = none := by
    simp [negativeLiteral, hgap]
  have hbegins : (peek (k :: (others ++ more))).startsTerm = true := by
    rw [peek, hk]
    exact hstart
  rw [nameTerm, hopens, if_neg Bool.false_ne_true, hliteral, hop]
  simp only [hbegins, if_true]
  rw [application, hbound, hclamp, ← List.cons_append, hread, applied,
    if_pos (Or.inr hmore.operand)]

theorem readsAs_between {name : String} {op : Operator} {leftPriority rightPriority leftEdge
    rightEdge : Nat} {gap right : Bool}
    (hop : Operator.between? name = some op)
    (hp : ReadsAs p t leftPriority leftEdge false levels)
    (hq : ReadsAs q u rightPriority rightEdge false levels)
    (hleft : leftPriority ≤ op.leftMax) (hleftEdge : leftEdge < op.priority)
    (hright : rightPriority ≤ op.rightMax) (hrightEdge : rightEdge ≤ rightPriority) :
    ReadsAs (p.before gap ((Phrase.single (operatorToken name)).before right q))
      (.compound name [t, u]) op.priority op.rightMax false levels := by
  intro style below pending max rule outer front more hlevels hmax hfront hmore
  obtain ⟨first, rest, rfl, hfirst, hrest⟩ := lexemes_before hfront
  obtain ⟨l, second, rfl, htoken, _, hsecond⟩ := lexemes_single_before hrest
  have hle := op.leftMax_le
  rw [List.append_assoc, hp pending rule (by omega) (by omega) hfirst
    (by rw [List.cons_append, peek, htoken]; exact follows_operatorToken hop hleftEdge)]
  -- The left operand ends before the operator, since that lies above its edge; the
  -- operator then waits, and takes up the right operand when the loop is through.
  have hgo : continuation leftPriority max (peek (l :: second ++ more)) =
      some (.between name op) := by
    rw [List.cons_append, peek, htoken]
    exact continuation_operatorToken hop hmax hleft
  rw [resume_between pending hgo, List.cons_append, List.tail_cons,
    hq _ .operand (by omega) hright hsecond (hmore.of_le (by omega)),
    resume_pop _ _ (continuation_of_le (Nat.le_refl _) hmore.stops)]

/-! ## Arguments and elements -/

/-- How a list ends behind its last element: at its closing bracket, or with a
bar and a tail before it. -/
inductive ListEnd (sub : Reader) : List Lexeme → Term → List Lexeme → Prop where
  | closed {more : List Lexeme} : peek more = .closeSquare → ListEnd sub more .nil more.tail
  | tail {more rest : List Lexeme} {last : Term} {priority : Nat} : peek more = .bar →
    sub.read argumentPriority .list more.tail = .read (last, priority) rest none →
    peek rest = .closeSquare → ListEnd sub more last rest.tail

/-- The phrase is read as these arguments before a closing bracket, and as these
elements before the end of a list. -/
structure ReadsAllAs (p : Phrase) (ts : List Term) (levels : Nat) : Prop where
  arguments : ∀ {style : Style} {below : Nat} {gap : Bool} {front more : List Lexeme},
    levels < below → front.map Lexeme.word = p.words gap → peek more = .closeRound →
    Reading.arguments (terms style below) (front ++ more) = .read ts more.tail none
  elements : ∀ {style : Style} {below : Nat} {gap : Bool} {front more rest : List Lexeme}
    {last : Term}, levels < below → front.map Lexeme.word = p.words gap →
    ListEnd (terms style below) more last rest →
    Reading.elements (terms style below) (front ++ more) =
      .read (.listWithTail ts last) rest none

theorem arguments_comma {sub : Reader} {toks rest : List Lexeme}
    (h : sub.read argumentPriority .arguments toks = .read (t, priority) rest none)
    (hcomma : peek rest = .comma) :
    arguments sub toks = (arguments sub rest.tail).map (t :: ·) := by
  rw [arguments_eq, h, Outcome.andThen_read]
  simp only [hcomma]

theorem arguments_closed {sub : Reader} {toks rest : List Lexeme}
    (h : sub.read argumentPriority .arguments toks = .read (t, priority) rest none)
    (hclose : peek rest = .closeRound) : arguments sub toks = .read [t] rest.tail none := by
  rw [arguments_eq, h, Outcome.andThen_read]
  simp only [hclose]

theorem elements_comma {sub : Reader} {toks rest : List Lexeme}
    (h : sub.read argumentPriority .list toks = .read (t, priority) rest none)
    (hcomma : peek rest = .comma) :
    elements sub toks = (elements sub rest.tail).map (.cons t) := by
  rw [elements_eq, h, Outcome.andThen_read]
  simp only [hcomma]

theorem elements_end {sub : Reader} {toks more rest : List Lexeme} {last : Term}
    (h : sub.read argumentPriority .list toks = .read (t, priority) more none)
    (hend : ListEnd sub more last rest) : elements sub toks = .read (.cons t last) rest none := by
  rw [elements_eq, h, Outcome.andThen_read]
  cases hend with
  | closed hclose => simp only [hclose]
  | tail hbar htail hclose =>
    simp only [hbar]
    rw [htail, Outcome.andThen_read, expect_read _ hclose]
    rfl

/-- A comma and a bar may stand behind an argument. -/
theorem follows_argument {token : Token}
    (h : token = .comma ∨ token = .bar ∨ token = .closeRound ∨ token = .closeSquare) :
    Follows argumentPriority alone token := by
  rcases h with rfl | rfl | rfl | rfl
  · exact follows_terminator rfl (by decide)
  · exact follows_terminator rfl (by decide)
  · exact follows_terminator rfl rfl
  · exact follows_terminator rfl rfl

theorem ListEnd.follows {sub : Reader} {more rest : List Lexeme} {last : Term}
    (h : ListEnd sub more last rest) : Follows argumentPriority alone (peek more) := by
  cases h with
  | closed hclose => exact follows_argument (by simp [hclose])
  | tail hbar _ _ => exact follows_argument (by simp [hbar])

theorem readsAllAs_single (h : ReadsAs p t priority edge alone levels) (hedge : edge ≤ priority)
    (hpriority : priority ≤ argumentPriority) : ReadsAllAs p [t] levels where
  arguments hlevels hfront hclose :=
    arguments_closed (h.term .arguments hlevels hedge hpriority hfront
      (follows_argument (by simp [hclose]))) hclose
  elements hlevels hfront hend :=
    elements_end (h.term .list hlevels hedge hpriority hfront hend.follows) hend

theorem readsAllAs_cons {ts : List Term} (h : ReadsAs p t priority edge alone levels)
    (hedge : edge ≤ priority) (hpriority : priority ≤ argumentPriority)
    (hts : ReadsAllAs q ts levels) :
    ReadsAllAs (p.before false ((Phrase.single .comma).before true q)) (t :: ts) levels where
  arguments := by
    intro style below gap front more hlevels hfront hclose
    obtain ⟨first, rest, rfl, hfirst, hrest⟩ := lexemes_before hfront
    obtain ⟨l, second, rfl, htoken, _, hsecond⟩ := lexemes_single_before hrest
    have hcomma : peek (l :: second ++ more) = .comma := by rw [List.cons_append, peek, htoken]
    have hread : (terms style below).read argumentPriority .arguments
        (first ++ (l :: second ++ more)) = .read (t, priority) (l :: second ++ more) none :=
      h.term .arguments hlevels hedge hpriority hfirst (follows_argument (Or.inl hcomma))
    rw [List.append_assoc, arguments_comma hread hcomma, List.cons_append, List.tail_cons,
      hts.arguments hlevels hsecond hclose]
    rfl
  elements := by
    intro style below gap front more rest' last hlevels hfront hend
    obtain ⟨first, rest, rfl, hfirst, hrest⟩ := lexemes_before hfront
    obtain ⟨l, second, rfl, htoken, _, hsecond⟩ := lexemes_single_before hrest
    have hcomma : peek (l :: second ++ more) = .comma := by rw [List.cons_append, peek, htoken]
    have hread : (terms style below).read argumentPriority .list (first ++ (l :: second ++ more)) =
        .read (t, priority) (l :: second ++ more) none :=
      h.term .list hlevels hedge hpriority hfirst (follows_argument (Or.inl hcomma))
    rw [List.append_assoc, elements_comma hread hcomma, List.cons_append, List.tail_cons,
      hts.elements hlevels hsecond hend]
    rfl

/-- A functor is a name before its arguments, between quotes or not. -/
theorem readsAs_functor {functor : Token} {name : String} {args : List Term}
    (hfunctor : functor = .name name ∨ functor = .quotedName name)
    (hargs : ReadsAllAs p args levels) (hne : args ≠ []) :
    ReadsAs ((Phrase.single functor).before false
        ((Phrase.single .openRound).before false (p.before false (.single .closeRound))))
      (.compound name args) 0 0 false (levels + 1) := by
  intro style below pending max rule gap front more hlevels _ hfront _
  obtain ⟨l, rest, rfl, htoken, _, hrest⟩ := lexemes_single_before hfront
  obtain ⟨o, inner, k, rfl, ho, hgap, hinner, hk⟩ := lexemes_enclosed hrest
  have hopens : opensArguments (o :: (inner ++ k :: more)) = true := by
    simp [opensArguments, ho, hgap]
  have hread : compoundTerm (terms style below) name (o :: (inner ++ k :: more)) =
      .read (.compound name args, 0) more none := by
    rw [compoundTerm, List.tail_cons, hargs.arguments hlevels hinner (by rw [peek, hk])]
    cases args with
    | nil => exact absurd rfl hne
    | cons t ts => rfl
  apply start_of_primary
  rcases hfunctor with rfl | rfl
  · simp only [primary, List.cons_append, peek, htoken, List.tail_cons, List.append_assoc,
      List.nil_append, nameTerm, hopens, if_true, hread]
  · simp only [primary, List.cons_append, peek, htoken, List.tail_cons, List.append_assoc,
      List.nil_append, hopens, if_true, hread]

theorem readsAs_compound {name : String} {args : List Term} (hargs : ReadsAllAs p args levels)
    (hne : args ≠ []) :
    ReadsAs ((Phrase.single (Text.nameToken name)).before false
        ((Phrase.single .openRound).before false (p.before false (.single .closeRound))))
      (.compound name args) 0 0 false (levels + 1) := by
  refine readsAs_functor ?_ hargs hne
  unfold Text.nameToken
  split
  · exact .inr rfl
  · exact .inl rfl

theorem readsAs_list {ts : List Term} (hts : ReadsAllAs p ts levels)
    (hstart : p.first.startsTerm = true) :
    ReadsAs ((Phrase.single .openSquare).before false (p.before false (.single .closeSquare)))
      (.listWithTail ts .nil) 0 0 false (levels + 1) := by
  intro style below pending max rule gap front more hlevels _ hfront _
  obtain ⟨l, inner, k, rfl, htoken, _, hinner, hk⟩ := lexemes_enclosed hfront
  have hopen : peek (inner ++ k :: more) ≠ .closeSquare := peek_ne_of_startsTerm hinner hstart rfl
  have hend : ListEnd (terms style below) (k :: more) .nil (k :: more).tail := by
    refine .closed ?_
    rw [peek, hk]
  have hread : elements (terms style below) (inner ++ k :: more) =
      .read (.listWithTail ts .nil) more none := hts.elements hlevels hinner hend
  apply start_of_primary
  simp only [primary, List.cons_append, peek, htoken, List.tail_cons, List.append_assoc,
    List.nil_append]
  rw [listTerm, if_neg hopen, hread]
  rfl

theorem readsAs_listWithTail {ts : List Term} (hts : ReadsAllAs p ts levels)
    (hstart : p.first.startsTerm = true) (h : ReadsAs q t priority edge alone levels)
    (hedge : edge ≤ priority) (hpriority : priority ≤ argumentPriority) :
    ReadsAs ((Phrase.single .openSquare).before false (p.before false
        ((Phrase.single .bar).before false (q.before false (.single .closeSquare)))))
      (.listWithTail ts t) 0 0 false (levels + 1) := by
  intro style below pending max rule gap front more hlevels _ hfront _
  obtain ⟨l, rest, rfl, htoken, _, hrest⟩ := lexemes_single_before hfront
  obtain ⟨inner, rest, rfl, hinner, hrest⟩ := lexemes_before hrest
  obtain ⟨b, rest, rfl, hb, _, hrest⟩ := lexemes_single_before hrest
  obtain ⟨tail, last, rfl, htail, hlast⟩ := lexemes_before hrest
  obtain ⟨k, rfl, hk, _⟩ := lexemes_single hlast
  have hopen : peek (inner ++ b :: (tail ++ k :: more)) ≠ .closeSquare :=
    peek_ne_of_startsTerm hinner hstart rfl
  have hlast : (terms style below).read argumentPriority .list (tail ++ k :: more) =
      .read (t, priority) (k :: more) none :=
    h.term .list hlevels hedge hpriority htail (follows_argument (by simp [peek, hk]))
  have hend : ListEnd (terms style below) (b :: (tail ++ k :: more)) t (k :: more).tail := by
    refine .tail ?_ hlast ?_
    · rw [peek, hb]
    · rw [peek, hk]
  have hread : elements (terms style below) (inner ++ b :: (tail ++ k :: more)) =
      .read (.listWithTail ts t) more none := hts.elements hlevels hinner hend
  apply start_of_primary
  simp only [primary, List.cons_append, peek, htoken, List.tail_cons, List.append_assoc,
    List.nil_append]
  rw [listTerm, if_neg hopen, hread]
  rfl

end

end Clausal.Reading
