import Clausal.Proofs.Reading.Resume

/-
  Counting — the nesting depth as a counter of its own

  The readers are given the levels that are left. Here they are run with a counter
  instead: every term counts it up when it begins, faults when the limit is passed, and
  counts it down when it ends, whether it was read, missed or faulted. In between the
  counter is handed from each part of a term to the next one, operators that give up
  their argument included, so a part that did not put it back would move the limit for
  everything behind it.

  What is proved:
    1. `andThen_eq` — parts that put the counter back make a whole that does.
    2. `primary_eq` and `resume_eq` — the parts of one level put it back, and read what
       they read with the levels that the counter leaves.
    3. `counting` — so do terms, for every limit; with it the readers that count are
       built level by level.
-/

namespace Clausal.Reading

/-- What reading comes to when it begins at a depth, and the depth it leaves. -/
abbrev Counted (α : Type) := Nat → Outcome α × Nat

namespace Counted

variable {α β : Type}

/-- An outcome that the counter has no part in. -/
def plain (o : Outcome α) : Counted α := fun depth => (o, depth)

def map (f : α → β) (o : Counted α) : Counted β := fun depth => ((o depth).1.map f, (o depth).2)

/-- Goes on reading what is left, at the depth that was left. -/
def andThen (o : Counted α) (next : α → List Lexeme → Counted β) : Counted β := fun depth =>
  match o depth with
  | (.read v rest a, behind) => ((next v rest behind).1.after a, (next v rest behind).2)
  | (.miss m a, behind) => (.miss m a, behind)
  | (.tooDeep rest, behind) => (.tooDeep rest, behind)

/-- One level deeper, unless that passes the limit. The counter is put back in any case. -/
def entered (limit : Nat) (toks : List Lexeme) (inner : Counted α) : Counted α := fun depth =>
  let result := if limit < depth + 1 then (.tooDeep toks, depth + 1) else inner (depth + 1)
  (result.1, result.2 - 1)

end Counted

/-- A reader with a counter that reads, at each depth, what a plain one does, and puts the
counter back. -/
structure Counting (plain : Nat → Reader) where
  read : (max : Nat) → (rule : Rule) → (toks : List Lexeme) → Counted (Term × Nat)
  agrees : ∀ max rule toks depth,
    read max rule toks depth = ((plain depth).read max rule toks, depth)

namespace Counting

variable {plain : Nat → Reader} {depth : Nat}

/-- Behind a term less is left. -/
theorem shortens (sub : Counting plain) {max : Nat} {rule : Rule} {toks rest : List Lexeme}
    {v : Term × Nat} {a : Option Miss} {behind : Nat}
    (h : sub.read max rule toks depth = (.read v rest a, behind)) :
    rest.length - 1 < toks.length := by
  rw [sub.agrees] at h
  exact (plain depth).pred_length_lt (Prod.mk.inj h).1

/-! ## Parts of a term -/

/-- Two parts that put the counter back. -/
theorem andThen_eq {α β : Type} {o : Counted α} {o' : Outcome α}
    {next : α → List Lexeme → Counted β} {next' : α → List Lexeme → Outcome β}
    (h : o depth = (o', depth))
    (hnext : ∀ v rest a, o' = .read v rest a → next v rest depth = (next' v rest, depth)) :
    o.andThen next depth = (o'.andThen next', depth) := by
  unfold Counted.andThen
  rw [h]
  cases o' with
  | read v rest a => simp only [hnext v rest a rfl, Outcome.andThen]
  | miss m a => rfl
  | tooDeep rest => rfl

theorem map_eq {α β : Type} {o : Counted α} {o' : Outcome α} (f : α → β)
    (h : o depth = (o', depth)) : o.map f depth = (o'.map f, depth) := by
  rw [Counted.map, h]

section

variable (sub : Counting plain) (style : Style)

def enclosed (rule : Rule) (close : Token) (shown : String) (toks : List Lexeme) : Counted Term :=
  (sub.read maxPriority rule toks).andThen fun (t, _) rest =>
    .plain ((expect close (.closing rule shown) rest).map fun _ => t)

def arguments (toks : List Lexeme) (depth : Nat) : Outcome (List Term) × Nat :=
  match _h : sub.read argumentPriority .arguments toks depth with
  | (.read (t, _) rest a, behind) =>
    match peek rest with
    | .comma =>
      let (others, last) := arguments rest.tail behind
      ((others.map (t :: ·)).after a, last)
    | .closeRound => (.read [t] rest.tail a, behind)
    | _ => (.miss ⟨rest, .tokens .arguments ["','", "')'"]⟩ a, behind)
  | (.miss m a, behind) => (.miss m a, behind)
  | (.tooDeep rest, behind) => (.tooDeep rest, behind)
termination_by toks.length
decreasing_by
  have := sub.shortens _h
  simp only [List.length_tail]
  exact this

def elements (toks : List Lexeme) (depth : Nat) : Outcome Term × Nat :=
  match _h : sub.read argumentPriority .list toks depth with
  | (.read (t, _) rest a, behind) =>
    match peek rest with
    | .comma =>
      let (others, last) := elements rest.tail behind
      ((others.map (.cons t)).after a, last)
    | .bar =>
      let (tail, last) := (sub.read argumentPriority .list rest.tail).andThen (fun (tail, _) last =>
        .plain ((expect .closeSquare (.tokens .list ["']'"]) last).map fun _ => Term.cons t tail))
        behind
      (tail.after a, last)
    | .closeSquare => (.read (.cons t .nil) rest.tail a, behind)
    | _ => (.miss ⟨rest, .tokens .list ["','", "'|'", "']'"]⟩ a, behind)
  | (.miss m a, behind) => (.miss m a, behind)
  | (.tooDeep rest, behind) => (.tooDeep rest, behind)
termination_by toks.length
decreasing_by
  have := sub.shortens _h
  simp only [List.length_tail]
  exact this

def listTerm (toks : List Lexeme) : Counted Term :=
  if peek toks = .closeSquare then .plain (.read .nil toks.tail none) else sub.elements toks

def curlyTerm (toks : List Lexeme) : Counted Term :=
  if peek toks = .closeCurly then .plain (.read (.atom "\x7b\x7d") toks.tail none)
  else (sub.enclosed .curly .closeCurly "'\x7d'" toks).map fun t => .compound "\x7b\x7d" [t]

def compoundTerm (functor : String) (toks : List Lexeme) : Counted (Term × Nat) :=
  Counted.map (fun args => (.application functor args, 0)) (sub.arguments toks.tail)

/-- The argument is given up, if it is, at the depth that reading it left. -/
def application (name : String) (op : Operator) (max : Nat) (rest : List Lexeme) :
    Counted (Term × Nat) := fun depth =>
  let (argument, behind) :=
    sub.read (min op.rightMax (min op.priority max)) .operand rest depth
  (applied style.mode name (min op.priority max) rest argument, behind)

def nameTerm (name : String) (max : Nat) (rest : List Lexeme) : Counted (Term × Nat) :=
  if opensArguments rest then sub.compoundTerm name rest
  else
    match (if name = "-" then negativeLiteral rest else none) with
    | some t => .plain (simple t rest.tail)
    | none =>
      match Operator.before? name with
      | none => .plain (simple (.atom name) rest)
      | some op =>
        if (peek rest).startsTerm then sub.application style name op max rest
        else .plain (simple (.atom name) rest)

def primary (max : Nat) (rule : Rule) (toks : List Lexeme) : Counted (Term × Nat) :=
  let rest := toks.tail
  match peek toks with
  | .integer n => .plain (simple (.integer n) rest)
  | .float x => .plain (simple (.float x) rest)
  | .var name => .plain (simple (.var name) rest)
  | .string text => .plain (simple (stringTerm style.quotes text) rest)
  | .backQuoted text => .plain (simple (codes text) rest)
  | .openRound => (sub.enclosed .parenthesized .closeRound "')'" rest).map (·, 0)
  | .openSquare => (sub.listTerm rest).map (·, 0)
  | .openCurly => (sub.curlyTerm rest).map (·, 0)
  | .quotedName name =>
    if opensArguments rest then sub.compoundTerm name rest else .plain (simple (.atom name) rest)
  | .name name => sub.nameTerm style name max rest
  | _ => .plain (.miss ⟨toks, .termStart rule⟩ none)

end

/-! ## Each part puts the counter back -/

section

variable {sub : Counting plain} {style : Style}

theorem enclosed_eq (rule : Rule) (close : Token) (shown : String) (toks : List Lexeme) :
    sub.enclosed rule close shown toks depth =
      (Reading.enclosed (plain depth) rule close shown toks, depth) :=
  andThen_eq (sub.agrees _ _ _ _) fun _ _ _ _ => rfl

theorem arguments_eq (toks : List Lexeme) :
    sub.arguments toks depth = (Reading.arguments (plain depth) toks, depth) := by
  have hsub := sub.agrees argumentPriority .arguments toks depth
  rw [arguments.eq_def, Reading.arguments_eq]
  split
  · rename_i t priority rest a behind heq
    obtain ⟨hread, rfl⟩ := Prod.mk.inj (hsub.symm.trans heq)
    have := sub.shortens heq
    rw [hread, Outcome.andThen]
    cases hpeek : peek rest <;>
      simp only [arguments_eq rest.tail, Outcome.after, Miss.furthest_none]
  · rename_i heq
    obtain ⟨hread, rfl⟩ := Prod.mk.inj (hsub.symm.trans heq)
    rw [hread, Outcome.andThen]
  · rename_i heq
    obtain ⟨hread, rfl⟩ := Prod.mk.inj (hsub.symm.trans heq)
    rw [hread, Outcome.andThen]
termination_by toks.length

theorem elements_eq (toks : List Lexeme) :
    sub.elements toks depth = (Reading.elements (plain depth) toks, depth) := by
  have hsub := sub.agrees argumentPriority .list toks depth
  rw [elements.eq_def, Reading.elements_eq]
  split
  · rename_i t priority rest a behind heq
    obtain ⟨hread, rfl⟩ := Prod.mk.inj (hsub.symm.trans heq)
    have := sub.shortens heq
    have htail : (sub.read argumentPriority .list rest.tail).andThen (fun (tail, _) last =>
          .plain ((expect .closeSquare (.tokens .list ["']'"]) last).map fun _ => Term.cons t tail))
          depth =
        (((plain depth).read argumentPriority .list rest.tail).andThen fun (tail, _) last =>
          (expect .closeSquare (.tokens .list ["']'"]) last).map fun _ => Term.cons t tail,
          depth) :=
      andThen_eq (sub.agrees argumentPriority .list rest.tail depth) fun _ _ _ _ => rfl
    rw [hread, Outcome.andThen]
    cases hpeek : peek rest <;>
      simp only [elements_eq rest.tail, htail, Outcome.after, Miss.furthest_none]
  · rename_i heq
    obtain ⟨hread, rfl⟩ := Prod.mk.inj (hsub.symm.trans heq)
    rw [hread, Outcome.andThen]
  · rename_i heq
    obtain ⟨hread, rfl⟩ := Prod.mk.inj (hsub.symm.trans heq)
    rw [hread, Outcome.andThen]
termination_by toks.length

theorem listTerm_eq (toks : List Lexeme) :
    sub.listTerm toks depth = (Reading.listTerm (plain depth) toks, depth) := by
  unfold listTerm Reading.listTerm
  split
  · rfl
  · exact elements_eq toks

theorem curlyTerm_eq (toks : List Lexeme) :
    sub.curlyTerm toks depth = (Reading.curlyTerm (plain depth) toks, depth) := by
  unfold curlyTerm Reading.curlyTerm
  split
  · rfl
  · exact map_eq _ (enclosed_eq _ _ _ toks)

theorem compoundTerm_eq (functor : String) (toks : List Lexeme) :
    sub.compoundTerm functor toks depth =
      (Reading.compoundTerm (plain depth) functor toks, depth) :=
  map_eq _ (arguments_eq toks.tail)

theorem application_eq (name : String) (op : Operator) (max : Nat) (rest : List Lexeme) :
    sub.application style name op max rest depth =
      (Reading.application style (plain depth) name op max rest, depth) := by
  unfold application Reading.application
  rw [sub.agrees]

theorem nameTerm_eq (name : String) (max : Nat) (rest : List Lexeme) :
    sub.nameTerm style name max rest depth =
      (Reading.nameTerm style (plain depth) name max rest, depth) := by
  unfold nameTerm Reading.nameTerm
  split
  · exact compoundTerm_eq name rest
  · generalize (if name = "-" then negativeLiteral rest else none) = literal
    cases literal with
    | some t => rfl
    | none =>
      cases Operator.before? name with
      | none => rfl
      | some op =>
        simp only
        split
        · exact application_eq name op max rest
        · rfl

theorem primary_eq (max : Nat) (rule : Rule) (toks : List Lexeme) :
    sub.primary style max rule toks depth =
      (Reading.primary style (plain depth) max rule toks, depth) := by
  unfold primary Reading.primary
  cases peek toks with
  | openRound => exact map_eq _ (enclosed_eq _ _ _ _)
  | openSquare => exact map_eq _ (listTerm_eq _)
  | openCurly => exact map_eq _ (curlyTerm_eq _)
  | quotedName name =>
    simp only
    split
    · exact compoundTerm_eq name _
    · rfl
  | name name => exact nameTerm_eq name max _
  | _ => rfl

end

/-! ## One level -/

section

variable (sub : Counting plain) (style : Style)

/-- Behind a right argument less is left. -/
theorem primary_shortens {max : Nat} {rule : Rule} {toks rest : List Lexeme} {v : Term × Nat}
    {a : Option Miss} {behind : Nat}
    (h : sub.primary style max rule toks depth = (.read v rest a, behind)) :
    rest.length < toks.length := by
  rw [primary_eq] at h
  have hlt := Reading.primary_shortens style (plain depth) max rule toks
  rw [(Prod.mk.inj h).1] at hlt
  exact hlt

def resume (pending : List Pending) (max : Nat) (left : Term) (priority : Nat)
    (toks : List Lexeme) (depth : Nat) : Outcome (Term × Nat) × Nat :=
  match _hc : continuation priority max (peek toks) with
  | some (.between functor op) =>
    match _hp : sub.primary style op.rightMax .operand toks.tail depth with
    | (.read (right, rightPriority) rest a, behind) =>
      let (o, last) := resume (⟨left, functor, op.priority, max⟩ :: pending) op.rightMax right
        rightPriority rest behind
      (o.after a, last)
    | (.miss m a, behind) => (.miss m a, behind)
    | (.tooDeep rest, behind) => (.tooDeep rest, behind)
  | some (.after functor op) =>
    resume pending max (.compound functor [left]) op.priority toks.tail depth
  | none =>
    match pending with
    | [] => (.read (left, priority) toks none, depth)
    | outer :: others =>
      resume others outer.max (.compound outer.functor [outer.left, left]) outer.priority toks depth
termination_by (toks.length, pending.length)
decreasing_by
  · have := sub.primary_shortens style _hp
    simp only [List.length_tail] at this
    exact Prod.Lex.left _ _ (by omega)
  · have := List.length_pos_iff.mpr (continuation_ne_nil _hc)
    exact Prod.Lex.left _ _ (by simp only [List.length_tail]; omega)
  · exact Prod.Lex.right _ (by simp)

def operators (max : Nat) (rule : Rule) (toks : List Lexeme) : Counted (Term × Nat) :=
  (sub.primary style max rule toks).andThen fun (t, priority) rest =>
    sub.resume style [] max t priority rest

theorem resume_eq (pending : List Pending) (max : Nat) (left : Term) (priority : Nat)
    (toks : List Lexeme) :
    sub.resume style pending max left priority toks depth =
      (Reading.resume style (plain depth) pending max left priority toks, depth) := by
  rw [resume.eq_def, Reading.resume_eq]
  cases hc : continuation priority max (peek toks) with
  | none =>
    cases pending with
    | nil => rfl
    | cons outer others => exact resume_eq others outer.max _ outer.priority toks
  | some c =>
    have hpos := List.length_pos_iff.mpr (continuation_ne_nil hc)
    cases c with
    | after functor op =>
      have : toks.tail.length < toks.length := by rw [List.length_tail]; omega
      exact resume_eq pending max _ op.priority toks.tail
    | between functor op =>
      have hprimary : sub.primary style op.rightMax .operand toks.tail depth =
          (Reading.primary style (plain depth) op.rightMax .operand toks.tail, depth) :=
        primary_eq op.rightMax .operand toks.tail
      simp only [start]
      split
      · rename_i right rightPriority rest a behind heq
        obtain ⟨hread, rfl⟩ := Prod.mk.inj (hprimary.symm.trans heq)
        have : rest.length < toks.length := by
          have := sub.primary_shortens style heq
          simp only [List.length_tail] at this
          omega
        rw [hread, resume_eq _ op.rightMax right rightPriority rest]
        rfl
      · rename_i heq
        obtain ⟨hread, rfl⟩ := Prod.mk.inj (hprimary.symm.trans heq)
        rw [hread]
        rfl
      · rename_i heq
        obtain ⟨hread, rfl⟩ := Prod.mk.inj (hprimary.symm.trans heq)
        rw [hread]
        rfl
termination_by (toks.length, pending.length)

theorem operators_eq (max : Nat) (rule : Rule) (toks : List Lexeme) :
    sub.operators style max rule toks depth =
      (Reading.operators style (plain depth) max rule toks, depth) :=
  andThen_eq (primary_eq max rule toks) fun v rest _ _ => sub.resume_eq style [] max v.1 v.2 rest

end

end Counting

/-! ## All levels -/

/-- Reads terms with a counter, on so many levels of calls. At each depth it reads what is
read with the levels that are left below the limit, and puts the counter back. -/
def counting (style : Style) (limit : Nat) :
    (calls : Nat) → Counting fun depth => terms style (min calls (limit - depth))
  | 0 => {
    read := fun _ _ toks => .plain (.tooDeep toks)
    agrees := fun _ _ _ _ => by
      rw [Nat.zero_min]
      rfl }
  | calls + 1 => {
    read := fun max rule toks =>
      .entered limit toks ((counting style limit calls).operators style max rule toks)
    agrees := fun max rule toks depth => by
      unfold Counted.entered
      split
      · have hleft : min (calls + 1) (limit - depth) = 0 := by omega
        rw [hleft]
        rfl
      · have hleft : min (calls + 1) (limit - depth) = min calls (limit - (depth + 1)) + 1 := by
          omega
        rw [Counting.operators_eq, hleft, terms_succ]
        rfl }

/-- With calls enough for the limit, the counter is back after every term, whether it was
read, missed or faulted, and what was read is what the levels below the limit read. -/
theorem counting_read (style : Style) {limit calls depth : Nat} (h : limit ≤ depth + calls)
    (max : Nat) (rule : Rule) (toks : List Lexeme) :
    (counting style limit calls).read max rule toks depth =
      ((terms style (limit - depth)).read max rule toks, depth) := by
  rw [(counting style limit calls).agrees, Nat.min_eq_right (by omega)]

end Clausal.Reading
