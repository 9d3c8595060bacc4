import Clausal.Reading.Document

/-
  A cursor — reading by one index that goes to and fro

  Here a document is read without recursion on what is left. There is one cursor, an
  index of a lexeme, with the number of terms it is in, the furthest miss given up so
  far and the diagnostics so far. Readers move it forward, or back to where they saved
  it, for as long as it takes.

  Nothing says that they ever come to an end. A clock ticks with every term and every
  turn of a loop, and when it has run out there is no result, `none`. A reader ends when
  it has a result that no longer clock changes.

  Cursors, misses and saved cursors are indices of lexemes by their type. The reader that
  would move a cursor behind the last lexeme goes astray instead. So does the one that
  would move it past the end of a clause or of the text within a term, and the one that
  would negate a number of 64 bits whose negation has more.

  Main definitions:
    1. `Cursor`, `Halt`, `Machine` — a cursor, why a reader stops short, and readers.
    2. `Machine.expr` — a term, made of `primary`, `resume` and what they read.
    3. `Machine.turn`, `Machine.clauses` — one turn of the loop over clauses, and the loop.
    4. `Machine.drive` — reading in one pass or two.
-/

namespace Clausal

open Reading (Pending continuation codes stringTerm followsOperand)

namespace Document

/-- All lexemes, the one that ends the text behind the others. -/
def all (d : Document) : List Lexeme := d.lexemes ++ [d.eof]

/-- An index of a lexeme. -/
abbrev Spot (d : Document) := Fin d.all.length

/-- The lexeme with an index. -/
def lexemeAt (d : Document) (i : d.Spot) : Lexeme := d.all[i]

/-- The first index. -/
def firstSpot (d : Document) : d.Spot := ⟨0, by simp [all]⟩

/-- The place of the lexeme with an index. -/
def placeAt (d : Document) (i : d.Spot) : Place := .ofSpan d.file (d.lexemeAt i).span

end Document

/-- A miss by the index of the lexeme where reading stopped. -/
structure Stop (d : Document) where
  spot : d.Spot
  expected : Expected

/-- The first of two misses, unless the second is further. -/
def Stop.furthest {d : Document} (kept : Option (Stop d)) (s : Stop d) : Option (Stop d) :=
  match kept with
  | some earlier => if s.spot ≤ earlier.spot then some earlier else some s
  | none => some s

/-- The miss to report: the furthest one given up if that is further. -/
def Stop.told {d : Document} (s : Stop d) : Option (Stop d) → Stop d
  | some given => if s.spot < given.spot then given else s
  | none => s

/-- What reading changes. -/
structure Cursor (d : Document) where
  pos : d.Spot
  /-- How many terms the cursor is in. -/
  depth : Nat
  /-- The furthest of the misses given up. -/
  furthest : Option (Stop d)
  errors : DiagnosticSet

/-- Why a reader stops short. -/
inductive Halt (d : Document) where
  | miss (stop : Stop d)
  | fault (fault : Fault)
  /-- Recovery from a miss did not move on from this offset. -/
  | stalled (offset : Nat)
  /-- The cursor would have left the lexemes, or the clause within a term, or a number
  the 64 bits it has. -/
  | astray

/-- A reader. It may run forever, and then there is no result. -/
abbrev Machine (d : Document) := ExceptT (Halt d) (StateT (Cursor d) Option)

namespace Machine

variable {d : Document} {α : Type}

/-! ## Moving the cursor -/

/-- The lexeme at the cursor. -/
def here : Machine d Lexeme := do
  return d.lexemeAt (← get).pos

/-- One lexeme on, except at the end of the text. -/
def advance : Machine d Unit := do
  let c ← get
  let token := (d.lexemeAt c.pos).token
  if c.depth ≠ 0 ∧ (token = .stop ∨ token = .endOfText) then throw .astray
  else if token = .endOfText then return ()
  else if h : c.pos.val + 1 < d.all.length then set { c with pos := ⟨c.pos.val + 1, h⟩ }
  else throw .astray

/-- Reading stops at the cursor. -/
def miss (expected : Expected) : Machine d α := do
  throw (.miss ⟨(← get).pos, expected⟩)

/-- Takes the token if it is at the cursor. -/
def expect (token : Token) (expected : Expected) : Machine d Unit := do
  if (← here).token = token then advance else miss expected

/-- Whether an opening bracket stands at the cursor with nothing before it. -/
def opensArguments : Machine d Bool := do
  let next ← here
  return next.token == .openRound && !next.layoutBefore

/-- The negation of a number in 64 bits. -/
def negate (n : Nat) : Machine d Int :=
  if Int64.ofNat n = Int64.minValue then throw .astray else return (-Int64.ofNat n).toInt

/-- What the reader comes to, told as a value. -/
def attempt (f : Machine d α) : Machine d (Except (Halt d) α) := fun c =>
  (f c).map fun (result, last) => (.ok result, last)

/-- The clock has run out. -/
def timeout : Machine d α := fun _ => none

/-! ## Terms -/

section

/-! Every reader here is given the one for the terms within its own. -/

variable (style : Style) (sub : (max : Nat) → (rule : Rule) → Machine d (Term × Nat))

/-- A term up to its closing bracket. -/
def enclosed (rule : Rule) (close : Token) (shown : String) : Machine d Term := do
  let (t, _) ← sub maxPriority rule
  expect close (.closing rule shown)
  return t

/-- The arguments of a compound behind those read so far. -/
def arguments : (clock : Nat) → (args : List Term) → Machine d (List Term)
  | 0, _ => timeout
  | clock + 1, args => do
    let (t, _) ← sub argumentPriority .arguments
    match (← here).token with
    | .comma =>
      advance
      arguments clock (args ++ [t])
    | .closeRound =>
      advance
      return args ++ [t]
    | _ => miss (.tokens .arguments ["','", "')'"])

/-- A compound behind its functor, its opening bracket still to be read. -/
def compoundTerm (clock : Nat) (functor : String) : Machine d (Term × Nat) := do
  advance
  let args ← arguments sub clock []
  return (.application functor args, 0)

/-- The elements of a list behind those read so far, and its tail. -/
def elements : (clock : Nat) → (heads : List Term) → Machine d Term
  | 0, _ => timeout
  | clock + 1, heads => do
    let (t, _) ← sub argumentPriority .list
    match (← here).token with
    | .comma =>
      advance
      elements clock (heads ++ [t])
    | .bar =>
      advance
      let (tail, _) ← sub argumentPriority .list
      expect .closeSquare (.tokens .list ["']'"])
      return .listWithTail (heads ++ [t]) tail
    | .closeSquare =>
      advance
      return .list (heads ++ [t])
    | _ => miss (.tokens .list ["','", "'|'", "']'"])

/-- A list behind its opening bracket. -/
def listTerm (clock : Nat) : Machine d Term := do
  if (← here).token = .closeSquare then
    advance
    return .nil
  else elements sub clock []

/-- A term in curly brackets behind the opening one. -/
def curlyTerm : Machine d Term := do
  if (← here).token = .closeCurly then
    advance
    return .atom "\x7b\x7d"
  else
    let t ← enclosed sub .curly .closeCurly "'\x7d'"
    return .compound "\x7b\x7d" [t]

/-- An operator before its argument. In the thorough mode the cursor is saved and may go
back to where it was. -/
def application (name : String) (op : Operator) (max : Nat) : Machine d (Term × Nat) :=
  fun saved => do
    let priority := min op.priority max
    let (result, last) ← sub (min op.rightMax priority) .operand saved
    match style.mode, result with
    | .fast, .ok (t, _) => return (.ok (.compound name [t], priority), last)
    | .thorough, .ok (t, _) =>
      if followsOperand (d.lexemeAt last.pos).token then
        return (.ok (.compound name [t], priority), last)
      else return (.ok (.atom name, 0), { last with pos := saved.pos })
    | .thorough, .error (.miss s) =>
      let furthest := Stop.furthest last.furthest s
      return (.ok (.atom name, 0), { last with pos := saved.pos, furthest := furthest })
    | _, .error halt => return (.error halt, last)

/-- A term that begins with an unquoted name, which has been read. -/
def nameTerm (clock : Nat) (name : String) (max : Nat) : Machine d (Term × Nat) := do
  if ← opensArguments then compoundTerm sub clock name
  else
    let next ← here
    match name == "-" && !next.layoutBefore, next.token with
    | true, .integer n =>
      advance
      let negated ← negate n
      return (.integer negated, 0)
    | true, .float x =>
      advance
      return (.float (-x), 0)
    | _, _ =>
      match Operator.before? name with
      | none => return (.atom name, 0)
      | some op =>
        if next.token.startsTerm then application style sub name op max
        else return (.atom name, 0)

/-- A term without an operator between its parts. -/
def primary (clock max : Nat) (rule : Rule) : Machine d (Term × Nat) := do
  match (← here).token with
  | .integer n =>
    advance
    return (.integer n, 0)
  | .float x =>
    advance
    return (.float x, 0)
  | .var name =>
    advance
    return (.var name, 0)
  | .string text =>
    advance
    return (stringTerm style.quotes text, 0)
  | .backQuoted text =>
    advance
    return (codes text, 0)
  | .openRound =>
    advance
    let t ← enclosed sub .parenthesized .closeRound "')'"
    return (t, 0)
  | .openSquare =>
    advance
    let t ← listTerm sub clock
    return (t, 0)
  | .openCurly =>
    advance
    let t ← curlyTerm sub
    return (t, 0)
  | .quotedName name =>
    advance
    if ← opensArguments then compoundTerm sub clock name else return (.atom name, 0)
  | .name name =>
    advance
    nameTerm style sub clock name max
  | _ => miss (.termStart rule)

/-- Goes on behind the term `left`, with the operators that wait for it. -/
def resume : (clock : Nat) → (pending : List Pending) → (max : Nat) → (left : Term) →
    (priority : Nat) → Machine d (Term × Nat)
  | 0, _, _, _, _ => timeout
  | clock + 1, pending, max, left, priority => do
    match continuation priority max (← here).token with
    | some (.between functor op) =>
      advance
      let (right, rightPriority) ← primary style sub clock op.rightMax .operand
      resume clock (⟨left, functor, op.priority, max⟩ :: pending) op.rightMax right rightPriority
    | some (.after functor op) =>
      advance
      resume clock pending max (.compound functor [left]) op.priority
    | none =>
      match pending with
      | [] => return (left, priority)
      | outer :: others =>
        resume clock others outer.max (.compound outer.functor [outer.left, left]) outer.priority

/-- A primary term and the operators behind it. -/
def operators (clock max : Nat) (rule : Rule) : Machine d (Term × Nat) := do
  let (left, priority) ← primary style sub clock max rule
  resume style sub clock [] max left priority

end

/-- The fault of a nesting too deep at an index. -/
def tooDeep (i : d.Spot) : Fault :=
  .nestingTooDeep d.options.maxDepth (d.lexemeAt i).span.line (d.lexemeAt i).span.column

/-- A term of priority at most `max`, with the priority it was read at. -/
def expr (style : Style) : (clock : Nat) → (max : Nat) → (rule : Rule) → Machine d (Term × Nat)
  | 0, _, _ => timeout
  | clock + 1, max, rule => fun c => do
    let deeper := { c with depth := c.depth + 1 }
    let (result, last) ←
      if deeper.depth > d.options.maxDepth then some (.error (.fault (tooDeep c.pos)), deeper)
      else operators style (expr style clock) clock max rule deeper
    return (result, { last with depth := last.depth - 1 })

/-! ## Documents -/

/-- Whether the cursor is at the end of the text. -/
def atEnd : Machine d Bool := do
  return (← here).token == .endOfText

/-- Takes an end token if one is there. -/
def skipStop : Machine d Unit := do
  if (← here).token = .stop then advance else return ()

/-- The place from a lexeme to the last one before the cursor. -/
def placeFrom (first : Lexeme) : Machine d Place := do
  let c ← get
  let start := Place.ofSpan d.file first.span
  if c.pos.val = 0 then return start
  else return start.through (d.lexemeAt ⟨c.pos.val - 1, by omega⟩).span

/-- Adds a diagnostic. -/
def tell (e : Diagnostic) : Machine d Unit :=
  modify fun c => { c with errors := c.errors.insert e }

/-- Adds the diagnostic for a miss. -/
def report (s : Stop d) : Machine d Unit := do
  let told := s.told (← get).furthest
  modify fun c => { c with furthest := none }
  tell ⟨told.expected.message (d.lexemeAt told.spot).token, d.placeAt told.spot⟩

/-- Adds the diagnostic for lexemes left over. -/
def reportSpurious : Machine d Unit := do
  if ← atEnd then return ()
  else
    let c ← get
    tell ⟨Document.spuriousInput, (d.placeAt c.pos).through d.eof.span⟩

/-- What a term is read as, if it is legal. -/
def judge (classify : Term → Place → Except ClauseError α) (t : Term) (place : Place) :
    Machine d (Option α) :=
  match classify t place with
  | .ok v => return some v
  | .error e => do
    tell ⟨e.message, place⟩
    return none

/-- A term, an end token behind it or not. -/
def onePass (classify : Term → Place → Except ClauseError α) (mode : Mode) (clock : Nat) :
    Machine d (Option α) := do
  let first ← here
  let (t, _) ← expr ⟨d.options.quotes, mode⟩ clock maxPriority .term
  skipStop
  let place ← placeFrom first
  judge classify t place

/-- Terms with commas between them, behind those read so far. -/
def commaSeparated (mode : Mode) : (clock : Nat) → (found : List (Located Term)) →
    Machine d (List (Located Term))
  | 0, _ => timeout
  | clock + 1, found => do
    let first ← here
    let (t, _) ← expr ⟨d.options.quotes, mode⟩ clock argumentPriority .terms
    let place ← placeFrom first
    if (← here).token = .comma then
      advance
      commaSeparated mode clock (found ++ [⟨t, place⟩])
    else
      skipStop
      return found ++ [⟨t, place⟩]

/-- Terms with commas between them, none at all in an empty document. -/
def termsPass (mode : Mode) (clock : Nat) : Machine d (List (Located Term)) := do
  if ← atEnd then return [] else commaSeparated mode clock []

/-- A single variable. -/
def variablePass (_mode : Mode) (_clock : Nat) : Machine d (Located Term) := do
  let first ← here
  match first.token with
  | .var name =>
    advance
    return ⟨.var name, .ofSpan d.file first.span⟩
  | _ => miss (.tokens .variable ["a variable"])

/-- Moves on to the next end of a clause or of the text. -/
def seekStop : (clock : Nat) → Machine d Unit
  | 0 => timeout
  | clock + 1 => do
    let token := (← here).token
    if token = .stop ∨ token = .endOfText then return ()
    else
      advance
      seekStop clock

/-- Moves behind the end token of the clause that a lexeme is in. -/
def skipClause (clock : Nat) (spot : d.Spot) : Machine d Unit := do
  let before := (← get).pos
  modify fun c => { c with pos := spot }
  seekStop clock
  skipStop
  let c ← get
  if c.pos ≤ spot ∧ (d.lexemeAt c.pos).token ≠ .endOfText then
    throw (.stalled (d.lexemeAt before).span.start)
  else return ()

/-- A term and the end token behind it, with its place. -/
def clause (mode : Mode) (clock : Nat) (rule : Rule) : Machine d (Term × Place) := do
  let first ← here
  let (t, _) ← expr ⟨d.options.quotes, mode⟩ clock maxPriority rule
  expect .stop (.closing rule "'.'")
  let place ← placeFrom first
  return (t, place)

/-- One turn of the loop over clauses. In the thorough mode a clause that cannot be read is
skipped. -/
def turn (rule : Rule) (classify : Term → Place → Except ClauseError α) (mode : Mode)
    (clock : Nat) : Machine d (Option α) := do
  modify fun c => { c with furthest := none }
  match mode, ← attempt (clause mode clock rule) with
  | _, .ok (t, place) => judge classify t place
  | .thorough, .error (.miss s) =>
    report s
    skipClause clock s.spot
    return none
  | _, .error halt => throw halt

/-- Clauses up to the end of the text, behind those read so far. -/
def clauses (rule : Rule) (classify : Term → Place → Except ClauseError α) (mode : Mode) :
    (clock : Nat) → (found : List α) → Machine d (List α)
  | 0, _ => timeout
  | clock + 1, found => do
    if ← atEnd then return found
    else
      let v ← turn rule classify mode clock
      clauses rule classify mode clock (found ++ v.toList)

/-- Back to the first lexeme, with the diagnostics of the characters only. -/
def rewind : Machine d Unit :=
  set (⟨d.firstSpot, 0, none, .ofList d.lexical⟩ : Cursor d)

/-- The thorough pass. -/
def conclude (pass : Mode → Nat → Machine d α) (clock : Nat) : Machine d (Option α) := do
  rewind
  match ← attempt (pass .thorough clock) with
  | .ok v =>
    reportSpurious
    return some v
  | .error (.miss s) =>
    report s
    return none
  | .error halt => throw halt

/-- Reads the document in one pass or two. -/
def drive (pass : Mode → Nat → Machine d α) (clock : Nat) : Machine d (Option α) := do
  if d.options.twoPass then
    rewind
    match ← attempt (pass .fast clock) with
    | .ok v => if ← atEnd then return some v else conclude pass clock
    | .error (.miss _) => conclude pass clock
    | .error halt => throw halt
  else conclude pass clock

end Machine

/-! ## Kinds of documents -/

/-- What a document is read as. -/
inductive Entry where
  | term
  | terms
  | soleVariable
  | query
  | queries
  | update
  | program

namespace Entry

/-- What a pass over such a document finds. -/
def Found : Entry → Type
  | term => Option (Located Term)
  | terms => List (Located Term)
  | soleVariable => Located Term
  | query => Option Query
  | queries => List Query
  | update => Option Update
  | program => List Clause

/-- What reading such a document comes to. -/
def Answer : Entry → Type
  | term => Option (Located Term)
  | terms => List (Located Term)
  | soleVariable => Option (Located Term)
  | query => Option Query
  | queries => List Query
  | update => Option Update
  | program => List Clause

/-- The answer when a pass has found something, or nothing because it missed. -/
def answer : (e : Entry) → Option e.Found → e.Answer
  | term => Option.join
  | terms => (·.getD [])
  | soleVariable => id
  | query => Option.join
  | queries => (·.getD [])
  | update => Option.join
  | program => (·.getD [])

variable {d : Document}

/-- One pass. -/
def pass : (e : Entry) → (mode : Mode) → (clock : Nat) → Machine d e.Found
  | term => .onePass fun t place => .ok ⟨t, place⟩
  | terms => .termsPass
  | soleVariable => .variablePass
  | query => .onePass Document.queryOf
  | queries => fun mode clock => .clauses .queries Document.queryOf mode clock []
  | update => .onePass Update.ofTerm
  | program => fun mode clock => .clauses .program Clause.ofTerm mode clock []

/-- Reads the document. -/
def parse (e : Entry) (clock : Nat) : Machine d e.Answer := do
  let found ← .drive e.pass clock
  return e.answer found

end Entry

end Clausal
