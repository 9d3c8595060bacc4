import Clausal.Clause.Check
import Clausal.Diagnostic.Basic
import Clausal.Reading.Operators
import Clausal.Token.Lexer

/-
  Documents — whole texts read as terms, queries, updates or programs

  A text is read in a fast pass first. When that pass does not come to the end
  of the text, everything it found is dropped and the text is read again by a
  thorough pass, which is the one that reports what is wrong. In a list of
  clauses the thorough pass skips a clause that cannot be read up to its end
  and goes on behind it.

  What is proved:
    1. `skipClause_length_lt` — recovery always moves on, so reading a list of
       clauses is a recursion on the lexemes left.
-/

namespace Clausal

/-- How a document is read. -/
structure Options where
  maxDepth : Nat := 512
  quotes : DoubleQuotes := .codes
  twoPass : Bool := true
  deriving DecidableEq, Repr

/-- Why reading was given up altogether. -/
inductive Fault where
  | nestingTooDeep (limit line column : Nat)
  deriving DecidableEq, Repr

def Fault.message : Fault → String
  | .nestingTooDeep limit line column =>
    "terms nested deeper than " ++ toString limit ++ " levels at " ++ toString line ++ ":" ++
      toString column

/-- A text made ready for reading: its lexemes, the one that ends it, and the
problems that reading characters ran into. -/
structure Document where
  lexemes : List Lexeme
  eof : Lexeme
  lexical : List Diagnostic
  file : Option String
  options : Options
  deriving DecidableEq

/-- What reading a document came to, and the diagnostics it left. -/
structure Reading (α : Type) where
  result : Except Fault α
  diagnostics : DiagnosticSet

/-- The same reading with another value. -/
def Reading.map {α β : Type} (f : α → β) (r : Reading α) : Reading β :=
  ⟨r.result.map f, r.diagnostics⟩

/-- What one pass over a document came to. `found` are the diagnostics it met
on its way. -/
inductive Pass (α : Type) where
  | finished (value : α) (rest : List Lexeme) (found : List Diagnostic)
  | missed (miss : Miss) (abandoned : Option Miss)
  | tooDeep (rest : List Lexeme) (found : List Diagnostic)

/-- The same pass with diagnostics met before it. -/
def Pass.behind {α : Type} (earlier : List Diagnostic) : Pass α → Pass α
  | .finished v rest found => .finished v rest (earlier ++ found)
  | .missed m a => .missed m a
  | .tooDeep rest found => .tooDeep rest (earlier ++ found)

/-- The same pass with a value put before those it read. -/
def Pass.cons {α : Type} (v : α) : Pass (List α) → Pass (List α)
  | .finished vs rest found => .finished (v :: vs) rest found
  | .missed m a => .missed m a
  | .tooDeep rest found => .tooDeep rest found

namespace Document

/-- The text that begins at a place. -/
def ofText (text : String) (origin : Place) (options : Options) : Document :=
  let lexed := tokenize text origin.position
  let lexical := lexed.errors.map fun e => ⟨e.message, .ofSpan origin.file e.span⟩
  ⟨lexed.lexemes, lexed.eof, lexical, origin.file, options⟩

/-- The first of some lexemes, the end of the text when there is none. -/
def front (d : Document) (toks : List Lexeme) : Lexeme := toks.headD d.eof

/-- Where the first of some lexemes stands. -/
def placeOf (d : Document) (toks : List Lexeme) : Place := .ofSpan d.file (d.front toks).span

/-- The place from the first of some lexemes to the last one before `rest`. -/
def stretch (d : Document) (toks rest : List Lexeme) : Place :=
  match (toks.take (toks.length - rest.length)).getLast? with
  | some last => (d.placeOf toks).through last.span
  | none => d.placeOf toks

/-- The diagnostic for a miss: the furthest place where reading stopped. -/
def report (d : Document) (m : Miss) (abandoned : Option Miss) : Diagnostic :=
  let told := (Miss.furthest (some m) abandoned).getD m
  ⟨told.expected.message (d.front told.rest).token, d.placeOf told.rest⟩

/-- The message for lexemes left over. -/
def spuriousInput : String := "unrecognized spurious input"

/-- The diagnostic for lexemes left over, up to the end of the text. -/
def spurious (d : Document) (rest : List Lexeme) : List Diagnostic :=
  if rest.isEmpty then [] else [⟨spuriousInput, (d.placeOf rest).through d.eof.span⟩]

/-- The fault of a nesting too deep. -/
def tooDeepAt (d : Document) (rest : List Lexeme) : Fault :=
  let span := (d.front rest).span
  .nestingTooDeep d.options.maxDepth span.line span.column

/-- The diagnostics of the characters and some more. -/
def diagnosticsWith (d : Document) (found : List Diagnostic) : DiagnosticSet :=
  .ofList (d.lexical ++ found)

/-- What the thorough pass comes to. -/
def conclude {α : Type} (d : Document) : Pass α → Reading (Option α)
  | .finished v rest found => ⟨.ok (some v), d.diagnosticsWith (found ++ d.spurious rest)⟩
  | .missed m a => ⟨.ok none, d.diagnosticsWith [d.report m a]⟩
  | .tooDeep rest found => ⟨.error (d.tooDeepAt rest), d.diagnosticsWith found⟩

/-- Reads the document in one pass or two. -/
def drive {α : Type} (d : Document) (pass : Mode → Pass α) : Reading (Option α) :=
  if d.options.twoPass then
    match pass .fast with
    | .finished v [] found => ⟨.ok (some v), d.diagnosticsWith found⟩
    | .tooDeep rest found => ⟨.error (d.tooDeepAt rest), d.diagnosticsWith found⟩
    | _ => d.conclude (pass .thorough)
  else d.conclude (pass .thorough)

/-! ## Passes -/

/-- The reader of the document's terms in one of the modes. -/
def reader (d : Document) (mode : Mode) : Reader :=
  Reading.terms ⟨d.options.quotes, mode⟩ d.options.maxDepth

/-- What is left behind an end token, if one is there. -/
def skipStop (toks : List Lexeme) : List Lexeme := if peek toks = .stop then toks.tail else toks

/-- One term for the whole document, an end token behind it or not. -/
def onePass {α : Type} (d : Document) (classify : Term → Place → Except ClauseError α)
    (mode : Mode) : Pass (Option α) :=
  match (d.reader mode).read maxPriority .term d.lexemes with
  | .read (t, _) rest _ =>
    let last := skipStop rest
    let place := d.stretch d.lexemes last
    match classify t place with
    | .ok v => .finished (some v) last []
    | .error e => .finished none last [⟨e.message, place⟩]
  | .miss m a => .missed m a
  | .tooDeep rest => .tooDeep rest []

/-- Terms with commas between them; there is at least one. -/
def commaSeparated (d : Document) (mode : Mode) (toks : List Lexeme) :
    Outcome (List (Located Term)) :=
  match _h : (d.reader mode).read argumentPriority .terms toks with
  | .read (t, _) rest a =>
    let found : Located Term := ⟨t, d.stretch toks rest⟩
    if peek rest = .comma then ((commaSeparated d mode rest.tail).map (found :: ·)).after a
    else .read [found] (skipStop rest) a
  | .miss m a => .miss m a
  | .tooDeep rest => .tooDeep rest
termination_by toks.length
decreasing_by
  have := (d.reader mode).shortens argumentPriority .terms toks
  rw [_h] at this
  simp only [Outcome.Shortens] at this
  simp only [List.length_tail]
  omega

/-- Terms with commas between them, none at all in an empty document. -/
def termsPass (d : Document) (mode : Mode) : Pass (List (Located Term)) :=
  if d.lexemes.isEmpty then .finished [] [] []
  else
    match d.commaSeparated mode d.lexemes with
    | .read ts rest _ => .finished ts rest []
    | .miss m a => .missed m a
    | .tooDeep rest => .tooDeep rest []

/-- A single variable. -/
def variablePass (d : Document) (_mode : Mode) : Pass (Located Term) :=
  match peek d.lexemes with
  | .var name => .finished ⟨.var name, d.placeOf d.lexemes⟩ d.lexemes.tail []
  | _ => .missed ⟨d.lexemes, .tokens .variable ["a variable"]⟩ none

/-- A term and the end token behind it. -/
def clause (d : Document) (mode : Mode) (rule : Rule) (toks : List Lexeme) : Outcome Term :=
  ((d.reader mode).read maxPriority rule toks).andThen fun (t, _) rest =>
    (expect .stop (.closing rule "'.'") rest).map fun _ => t

/-- What is left behind the next end token. -/
def skipClause (toks : List Lexeme) : List Lexeme :=
  (toks.dropWhile fun l => l.token != .stop).tail

theorem clause_inside (d : Document) (mode : Mode) (rule : Rule) (toks : List Lexeme) :
    (d.clause mode rule toks).Inside toks :=
  Outcome.inside_andThen (Reader.inside _ _ _ _) fun _ _ =>
    Outcome.inside_map (expect_inside _ _ _)

theorem clause_shortens (d : Document) (mode : Mode) (rule : Rule) (toks : List Lexeme) :
    (d.clause mode rule toks).Shortens toks :=
  Outcome.shortens_andThen (Reader.shortens _ _ _ _) fun _ _ =>
    Outcome.inside_map (expect_inside _ _ _)

theorem skipClause_length_lt {part toks : List Lexeme} (h : part <:+ toks) (hne : toks ≠ []) :
    (skipClause part).length < toks.length := by
  have h₁ := h.length_le
  have h₂ : (part.dropWhile fun l => l.token != .stop).length ≤ part.length :=
    (List.dropWhile_suffix _).length_le
  have := List.length_pos_iff.mpr hne
  simp only [skipClause, List.length_tail]
  omega

/-- A list of clauses, each with its end token. -/
def clausesPass {α : Type} (d : Document) (rule : Rule)
    (classify : Term → Place → Except ClauseError α) (mode : Mode) (toks : List Lexeme) :
    Pass (List α) :=
  if _hne : toks = [] then .finished [] [] []
  else
    match _h : d.clause mode rule toks with
    | .read t rest _ =>
      let place := d.stretch toks rest
      let others := clausesPass d rule classify mode rest
      match classify t place with
      | .ok v => others.cons v
      | .error e => others.behind [⟨e.message, place⟩]
    | .miss m a =>
      match mode with
      | .fast => .missed m a
      | .thorough => (clausesPass d rule classify mode (skipClause m.rest)).behind [d.report m a]
    | .tooDeep rest => .tooDeep rest []
termination_by toks.length
decreasing_by
  · have := d.clause_shortens mode rule toks
    rw [_h] at this
    exact this
  · have := d.clause_inside mode rule toks
    simp only [*] at this
    exact skipClause_length_lt this.1 _hne

/-! ## What a document may hold -/

/-- The goal that a query asks: `?- G` asks `G`. -/
def goalOf : Term → Term
  | .compound f [goal] => if f = "?-" then goal else .compound f [goal]
  | t => t

/-- The query that a term is read as. -/
def queryOf (t : Term) (place : Place) : Except ClauseError Query := Query.ofTerm (goalOf t) place

/-- A single term. -/
def term (d : Document) : Reading (Option (Located Term)) :=
  (d.drive (d.onePass fun t place => .ok ⟨t, place⟩)).map Option.join

/-- Terms with commas between them. -/
def terms (d : Document) : Reading (List (Located Term)) := (d.drive d.termsPass).map (·.getD [])

/-- A single variable. -/
def soleVariable (d : Document) : Reading (Option (Located Term)) := d.drive d.variablePass

/-- A single query. -/
def query (d : Document) : Reading (Option Query) := (d.drive (d.onePass queryOf)).map Option.join

/-- A list of queries. -/
def queries (d : Document) : Reading (List Query) :=
  (d.drive fun mode => d.clausesPass .queries queryOf mode d.lexemes).map (·.getD [])

/-- A single update. -/
def update (d : Document) : Reading (Option Update) :=
  (d.drive (d.onePass Update.ofTerm)).map Option.join

/-- A list of clauses. Those that cannot be read or are not legal are left out. -/
def program (d : Document) : Reading (List Clause) :=
  (d.drive fun mode => d.clausesPass .program Clause.ofTerm mode d.lexemes).map (·.getD [])

end Document

/-- A document and the diagnostics of its last reading. -/
structure Parser where
  document : Document
  diagnostics : DiagnosticSet

namespace Parser

/-- A parser that has not read yet. -/
def ofText (text : String) (origin : Place) (options : Options) : Parser :=
  ⟨.ofText text origin options, ∅⟩

/-- Reads the document; the diagnostics take the place of earlier ones. -/
def read {α : Type} (p : Parser) (entry : Document → Reading α) : Except Fault α × Parser :=
  let reading := entry p.document
  (reading.result, { p with diagnostics := reading.diagnostics })

end Parser

/-- The term that a text is. -/
def readTerm (text : String) : Reading (Option (Located Term)) :=
  (Document.ofText text .origin {}).term

/-- The program that a text is. -/
def readProgram (text : String) : Reading (List Clause) :=
  (Document.ofText text .origin {}).program

end Clausal
