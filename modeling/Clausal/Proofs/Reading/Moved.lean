import Clausal.Proofs.Reading.Alike
import Clausal.Proofs.Reading.TwoPass
import Clausal.Proofs.Token.Moved

/-
  Moved documents — a text is read as the same wherever it begins

  A document is told where its text begins, and from then on a place is only ever
  carried along: into values, into diagnostics and into a fault. Decisions are made
  on words, and on how many lexemes are left. The one thing that does look at places
  is the order of diagnostics, and moved places are in the same order.

  The limit of nesting may be higher in the second document, as long as the first
  one does not come to a fault.

  What is proved:
    1. `ofList_moved` — sets of moved diagnostics are in the same order.
    2. `onePass_moved`, `termsPass_moved`, `variablePass_moved`, `clausesPass_moved`
       — each pass.
    3. `drive_moved` — reading in one pass or two.
    4. `readings_moved` — a text as any kind of document, from two origins.
-/

namespace Clausal

/-! ## Moved values -/

/-- The same message at the same place. -/
structure Diagnostic.Moved (o o' : Place) (e e' : Diagnostic) : Prop where
  message : e.message = e'.message
  place : Place.Moved o o' e.place e'.place

/-- The same limit, met at the same position. -/
inductive Fault.Moved (o o' : Position) : Fault → Fault → Prop where
  | nestingTooDeep {limit : Nat} {p p' : Position} : Position.Moved o o' p p' →
    Moved o o' (.nestingTooDeep limit p.line p.column) (.nestingTooDeep limit p'.line p'.column)

/-- The same term at the same place. -/
structure Located.Moved (o o' : Place) (x x' : Located Term) : Prop where
  value : x.value = x'.value
  place : Place.Moved o o' x.place x'.place

/-- The same clause at the same place. -/
structure Clause.Moved (o o' : Place) (c c' : Clause) : Prop where
  term : c.term = c'.term
  place : Place.Moved o o' c.place c'.place

/-- The same query at the same place. -/
structure Query.Moved (o o' : Place) (q q' : Query) : Prop where
  term : q.term = q'.term
  place : Place.Moved o o' q.place q'.place

/-- The same update at the same place, and so is every clause of it. -/
structure Update.Moved (o o' : Place) (u u' : Update) : Prop where
  term : u.term = u'.term
  place : Place.Moved o o' u.place u'.place
  adds : List.Forall₂ (Clause.Moved o o') u.adds u'.adds
  deletes : List.Forall₂ (Clause.Moved o o') u.deletes u'.deletes

/-- The same value or the same fault, and the same diagnostics in the same order. -/
structure Reading.Moved {α β : Type} (o o' : Place) (V : α → β → Prop) (r : Reading α)
    (r' : Reading β) : Prop where
  result : ExceptRel (Fault.Moved o.position o'.position) V r.result r'.result
  diagnostics : List.Forall₂ (Diagnostic.Moved o o') r.diagnostics.items r'.diagnostics.items

section

variable {o o' : Place}

theorem Reading.Moved.map {α β γ δ : Type} {V : α → β → Prop} {W : γ → δ → Prop} {r : Reading α}
    {r' : Reading β} {f : α → γ} {f' : β → δ} (h : r.Moved o o' V r')
    (hf : ∀ v v', V v v' → W (f v) (f' v')) : (r.map f).Moved o o' W (r'.map f') := by
  obtain ⟨hresult, hdiagnostics⟩ := h
  refine ⟨?_, hdiagnostics⟩
  unfold Reading.map
  generalize r.result = result, r'.result = result' at hresult ⊢
  cases hresult with
  | ok hv => exact .ok (hf _ _ hv)
  | error hfault => exact .error hfault

/-! ## Sets of moved diagnostics -/

theorem Diagnostic.compare_moved {e e' f f' : Diagnostic} (he : e.Moved o o' e')
    (hf : f.Moved o o' f') : compare e f = compare e' f' := by
  show (compare e.place f.place).then (compare e.message f.message) =
    (compare e'.place f'.place).then (compare e'.message f'.message)
  rw [Place.compare_moved he.place hf.place, he.message, hf.message]

theorem insertInto_moved {e e' : Diagnostic} {ds ds' : List Diagnostic} (he : e.Moved o o' e')
    (h : List.Forall₂ (Diagnostic.Moved o o') ds ds') :
    List.Forall₂ (Diagnostic.Moved o o') (insertInto e ds) (insertInto e' ds') := by
  induction h with
  | nil => exact .cons he .nil
  | cons hf hrest ih =>
    simp only [insertInto, ← Diagnostic.compare_moved he hf]
    split
    · exact .cons he (.cons hf hrest)
    · exact .cons hf hrest
    · exact .cons hf ih

theorem DiagnosticSet.ofList_moved {ds ds' : List Diagnostic}
    (h : List.Forall₂ (Diagnostic.Moved o o') ds ds') :
    List.Forall₂ (Diagnostic.Moved o o') (ofList ds).items (ofList ds').items := by
  suffices hall : ∀ s s' : DiagnosticSet, List.Forall₂ (Diagnostic.Moved o o') s.items s'.items →
      List.Forall₂ (Diagnostic.Moved o o') (s.insertAll ds).items (s'.insertAll ds').items from
    hall ∅ ∅ .nil
  induction h with
  | nil => exact fun _ _ hs => hs
  | cons he _ ih => exact fun s s' hs => ih (s.insert _) (s'.insert _) (insertInto_moved he hs)

/-! ## Lexemes of moved texts -/

/-- The same lexemes at the same places. -/
abbrev LexemesMoved (o o' : Place) : List Lexeme → List Lexeme → Prop :=
  List.Forall₂ (Lexeme.Moved o.position o'.position)

namespace LexemesMoved

variable {toks toks' rest rest' : List Lexeme}

theorem tail (h : LexemesMoved o o' toks toks') : LexemesMoved o o' toks.tail toks'.tail := by
  cases h with
  | nil => exact .nil
  | cons _ hrest => exact hrest

theorem isEmpty (h : LexemesMoved o o' toks toks') : toks.isEmpty = toks'.isEmpty := by
  cases h <;> rfl

instance likeness : Likeness (LexemesMoved o o') where
  word h := by
    cases h with
    | nil => rfl
    | cons hl _ => simp [Lexeme.word, hl.token, hl.layoutBefore]
  tail h _ := tail h
  shorter h hrest := by rw [h.length_eq, hrest.length_eq]

/-- Here the end token is taken like any other. -/
theorem expect {cut : Prop} (h : LexemesMoved o o' toks toks') (token : Token)
    (expected : Expected) : Outcome.Alike (LexemesMoved o o') cut Eq (LexemesMoved o o')
      (expect token expected toks) (Clausal.expect token expected toks') := by
  unfold Clausal.expect
  rw [← Likeness.peek h]
  split
  · exact .read rfl h.tail .none
  · exact .miss ⟨rfl, h⟩ .none

theorem skipStop (h : LexemesMoved o o' toks toks') :
    LexemesMoved o o' (Document.skipStop toks) (Document.skipStop toks') := by
  unfold Document.skipStop
  rw [← Likeness.peek h]
  split
  · exact h.tail
  · exact h

theorem skipClause (h : LexemesMoved o o' toks toks') :
    LexemesMoved o o' (Document.skipClause toks) (Document.skipClause toks') := by
  unfold Document.skipClause
  refine LexemesMoved.tail ?_
  induction h with
  | nil => exact .nil
  | cons hl hrest ih =>
    rw [List.dropWhile_cons, List.dropWhile_cons, ← hl.token]
    split
    · exact ih
    · exact .cons hl hrest

theorem getLast? (h : LexemesMoved o o' toks toks') :
    Option.Rel (Lexeme.Moved o.position o'.position) toks.getLast? toks'.getLast? := by
  have hreverse := List.rel_reverse h
  rw [List.getLast?_eq_head?_reverse, List.getLast?_eq_head?_reverse]
  generalize toks.reverse = back, toks'.reverse = back' at hreverse ⊢
  cases hreverse with
  | nil => exact .none
  | cons hl _ => exact .some hl

end LexemesMoved

/-! ## Moved documents -/

/-- The documents have the same text, from the two places on. The second one may have
a higher limit of nesting. -/
structure Document.Moved (o o' : Place) (d d' : Document) : Prop where
  lexemes : LexemesMoved o o' d.lexemes d'.lexemes
  eof : Lexeme.Moved o.position o'.position d.eof d'.eof
  lexical : List.Forall₂ (Diagnostic.Moved o o') d.lexical d'.lexical
  file : d.file = o.file
  file' : d'.file = o'.file
  quotes : d.options.quotes = d'.options.quotes
  twoPass : d.options.twoPass = d'.options.twoPass
  maxDepth : d.options.maxDepth ≤ d'.options.maxDepth

/-- The limit of the first document is lower. -/
def Document.Lower (d d' : Document) : Prop := d.options.maxDepth < d'.options.maxDepth

/-- The passes come to the same, or the first one was cut off. -/
inductive Pass.Moved {α β : Type} (o o' : Place) (cut : Prop) (V : α → β → Prop) :
    Pass α → Pass β → Prop where
  | finished {v : α} {v' : β} {rest rest' : List Lexeme} {found found' : List Diagnostic} :
    V v v' → LexemesMoved o o' rest rest' → List.Forall₂ (Diagnostic.Moved o o') found found' →
    Moved o o' cut V (.finished v rest found) (.finished v' rest' found')
  | missed {m m' : Miss} {a a' : Option Miss} : Miss.Alike (LexemesMoved o o') m m' →
    Option.Rel (Miss.Alike (LexemesMoved o o')) a a' →
    Moved o o' cut V (.missed m a) (.missed m' a')
  | tooDeep {rest rest' : List Lexeme} {found found' : List Diagnostic} :
    LexemesMoved o o' rest rest' → List.Forall₂ (Diagnostic.Moved o o') found found' →
    Moved o o' cut V (.tooDeep rest found) (.tooDeep rest' found')
  | cut {rest : List Lexeme} {found : List Diagnostic} {p' : Pass β} : cut →
    Moved o o' cut V (.tooDeep rest found) p'

namespace Pass.Moved

variable {α β : Type} {cut : Prop} {V : α → β → Prop}

theorem behind {p : Pass α} {p' : Pass β} {ds ds' : List Diagnostic} (h : p.Moved o o' cut V p')
    (hds : List.Forall₂ (Diagnostic.Moved o o') ds ds') :
    (p.behind ds).Moved o o' cut V (p'.behind ds') := by
  cases h with
  | finished hv hrest hfound => exact .finished hv hrest (List.rel_append hds hfound)
  | missed hm ha => exact .missed hm ha
  | tooDeep hrest hfound => exact .tooDeep hrest (List.rel_append hds hfound)
  | cut hcut => exact .cut hcut

theorem cons {p : Pass (List α)} {p' : Pass (List β)} {v : α} {v' : β}
    (h : p.Moved o o' cut (List.Forall₂ V) p') (hv : V v v') :
    (p.cons v).Moved o o' cut (List.Forall₂ V) (p'.cons v') := by
  cases h with
  | finished hvs hrest hfound => exact .finished (.cons hv hvs) hrest hfound
  | missed hm ha => exact .missed hm ha
  | tooDeep hrest hfound => exact .tooDeep hrest hfound
  | cut hcut => exact .cut hcut

end Pass.Moved

namespace Document

variable {d d' : Document} {toks toks' rest rest' : List Lexeme}

theorem ofText_moved (text : String) (o o' : Place) {options options' : Options}
    (hquotes : options.quotes = options'.quotes) (htwoPass : options.twoPass = options'.twoPass)
    (hdepth : options.maxDepth ≤ options'.maxDepth) :
    Moved o o' (ofText text o options) (ofText text o' options') := by
  obtain ⟨hlexemes, heof, herrors⟩ := tokenize_moved text o.position o'.position
  refine ⟨hlexemes, heof, ?_, rfl, rfl, hquotes, htwoPass, hdepth⟩
  refine List.rel_map (fun e e' he => ?_) herrors
  exact ⟨by rw [LexicalError.message, he.fault]; rfl, Place.moved_ofSpan he.span⟩

namespace Moved

/-! ## Places -/

theorem front (h : Moved o o' d d') (htoks : LexemesMoved o o' toks toks') :
    Lexeme.Moved o.position o'.position (d.front toks) (d'.front toks') := by
  cases htoks with
  | nil => exact h.eof
  | cons hl _ => exact hl

theorem placeOf (h : Moved o o' d d') (htoks : LexemesMoved o o' toks toks') :
    Place.Moved o o' (d.placeOf toks) (d'.placeOf toks') := by
  rw [Document.placeOf, Document.placeOf, h.file, h.file']
  exact Place.moved_ofSpan (h.front htoks).span

theorem stretch (h : Moved o o' d d') (htoks : LexemesMoved o o' toks toks')
    (hrest : LexemesMoved o o' rest rest') :
    Place.Moved o o' (d.stretch toks rest) (d'.stretch toks' rest') := by
  have hplace := h.placeOf htoks
  have hlast := LexemesMoved.getLast? (List.forall₂_take (toks.length - rest.length) htoks)
  unfold Document.stretch
  rw [← htoks.length_eq, ← hrest.length_eq]
  generalize (toks.take _).getLast? = last, (toks'.take _).getLast? = last' at hlast ⊢
  cases hlast with
  | none => exact hplace
  | some hl => exact hplace.through hl.span

theorem report (h : Moved o o' d d') {m m' : Miss} {a a' : Option Miss}
    (hm : Miss.Alike (LexemesMoved o o') m m')
    (ha : Option.Rel (Miss.Alike (LexemesMoved o o')) a a') :
    Diagnostic.Moved o o' (d.report m a) (d'.report m' a') := by
  obtain ⟨hexpected, hrest⟩ := Miss.told_alike hm ha
  refine ⟨?_, h.placeOf hrest⟩
  simp only [Document.report, hexpected, (h.front hrest).token]

theorem spurious (h : Moved o o' d d') (hrest : LexemesMoved o o' rest rest') :
    List.Forall₂ (Diagnostic.Moved o o') (d.spurious rest) (d'.spurious rest') := by
  have hplace := h.placeOf hrest
  cases hrest with
  | nil => exact .nil
  | cons hl hrest => exact .cons ⟨rfl, hplace.through h.eof.span⟩ .nil

theorem tooDeepAt (h : Moved o o' d d') (hlower : ¬ d.Lower d')
    (hrest : LexemesMoved o o' rest rest') :
    Fault.Moved o.position o'.position (d.tooDeepAt rest) (d'.tooDeepAt rest') := by
  have hlimit : d.options.maxDepth = d'.options.maxDepth :=
    Nat.le_antisymm h.maxDepth (Nat.le_of_not_lt hlower)
  unfold Document.tooDeepAt
  rw [hlimit]
  exact .nestingTooDeep (h.front hrest).span.first

theorem diagnosticsWith (h : Moved o o' d d') {found found' : List Diagnostic}
    (hfound : List.Forall₂ (Diagnostic.Moved o o') found found') :
    List.Forall₂ (Diagnostic.Moved o o') (d.diagnosticsWith found).items
      (d'.diagnosticsWith found').items :=
  DiagnosticSet.ofList_moved (List.rel_append h.lexical hfound)

theorem reader (h : Moved o o' d d') (mode : Mode) :
    Reading.ReadAlike (LexemesMoved o o') (d.Lower d') (d.reader mode) (d'.reader mode) := by
  unfold Document.reader
  rw [← h.quotes]
  exact Reading.terms_alike _ h.maxDepth id

end Moved

/-! ## Passes over moved documents -/

section

variable {α : Type} {V : α → α → Prop} {classify : Term → Place → Except ClauseError α}

/-- A term is accepted wherever it stands, or nowhere. -/
def Everywhere (o o' : Place) (V : α → α → Prop) (classify : Term → Place → Except ClauseError α) :
    Prop :=
  ∀ t ⦃p p' : Place⦄, Place.Moved o o' p p' → ExceptRel Eq V (classify t p) (classify t p')

theorem onePass_moved (h : Moved o o' d d') (hclassify : Everywhere o o' V classify) (mode : Mode) :
    (d.onePass classify mode).Moved o o' (d.Lower d') (Option.Rel V)
      (d'.onePass classify mode) := by
  have hread := h.reader mode maxPriority .term h.lexemes
  unfold onePass
  generalize (d.reader mode).read _ _ _ = outcome, (d'.reader mode).read _ _ _ = outcome'
    at hread ⊢
  cases hread with
  | @read v v' rest rest' _ _ hv hrest _ =>
    subst hv
    have hlast := hrest.skipStop
    have hplace := h.stretch h.lexemes hlast
    have haccepted := hclassify v.1 hplace
    simp only
    generalize classify _ (d.stretch _ _) = c, classify _ (d'.stretch _ _) = c' at haccepted ⊢
    cases haccepted with
    | ok hw => exact .finished (.some hw) hlast .nil
    | error he => exact .finished .none hlast (.cons ⟨by rw [he], hplace⟩ .nil)
  | miss hm ha => exact .missed hm ha
  | tooDeep hrest => exact .tooDeep hrest .nil
  | cut hcut => exact .cut hcut

theorem commaSeparated_moved (h : Moved o o' d d') (mode : Mode) (toks toks' : List Lexeme)
    (htoks : LexemesMoved o o' toks toks') :
    Outcome.Alike (LexemesMoved o o') (d.Lower d') (List.Forall₂ (Located.Moved o o'))
      (LexemesMoved o o') (d.commaSeparated mode toks) (d'.commaSeparated mode toks') := by
  rw [commaSeparated_eq, commaSeparated_eq]
  refine Outcome.alike_andThen (h.reader mode _ _ htoks) ?_
  rintro ⟨t, priority⟩ _ rest rest' ⟨a, hread⟩ rfl hrest
  have := (d.reader mode).pred_length_lt hread
  have hfirst : Located.Moved o o' ⟨t, d.stretch toks rest⟩ ⟨t, d'.stretch toks' rest'⟩ :=
    ⟨rfl, h.stretch htoks hrest⟩
  simp only [← Likeness.peek hrest]
  split
  · have hmore := commaSeparated_moved h mode rest.tail rest'.tail hrest.tail
    exact Outcome.alike_map hmore fun _ _ hothers => .cons hfirst hothers
  · exact .read (.cons hfirst .nil) hrest.skipStop .none
termination_by toks.length

theorem termsPass_moved (h : Moved o o' d d') (mode : Mode) :
    (d.termsPass mode).Moved o o' (d.Lower d') (List.Forall₂ (Located.Moved o o'))
      (d'.termsPass mode) := by
  have hread := commaSeparated_moved h mode d.lexemes d'.lexemes h.lexemes
  unfold termsPass
  rw [← h.lexemes.isEmpty]
  split
  · exact .finished .nil .nil .nil
  · generalize d.commaSeparated _ _ = outcome, d'.commaSeparated _ _ = outcome' at hread ⊢
    cases hread with
    | read hts hrest _ => exact .finished hts hrest .nil
    | miss hm ha => exact .missed hm ha
    | tooDeep hrest => exact .tooDeep hrest .nil
    | cut hcut => exact .cut hcut

theorem variablePass_moved (h : Moved o o' d d') (mode : Mode) :
    (d.variablePass mode).Moved o o' (d.Lower d') (Located.Moved o o') (d'.variablePass mode) := by
  unfold variablePass
  rw [← Likeness.peek h.lexemes]
  split
  · exact .finished ⟨rfl, h.placeOf h.lexemes⟩ h.lexemes.tail .nil
  · exact .missed ⟨rfl, h.lexemes⟩ .none

theorem clause_moved (h : Moved o o' d d') (mode : Mode) (rule : Rule)
    (htoks : LexemesMoved o o' toks toks') :
    Outcome.Alike (LexemesMoved o o') (d.Lower d') Eq (LexemesMoved o o')
      (d.clause mode rule toks) (d'.clause mode rule toks') := by
  refine Outcome.alike_andThen (h.reader mode _ _ htoks) ?_
  rintro v _ rest rest' _ rfl hrest
  exact Outcome.alike_map_same _ (hrest.expect _ _)

theorem clausesPass_moved (h : Moved o o' d d') (rule : Rule)
    (hclassify : Everywhere o o' V classify) (mode : Mode) (toks toks' : List Lexeme)
    (htoks : LexemesMoved o o' toks toks') :
    (d.clausesPass rule classify mode toks).Moved o o' (d.Lower d') (List.Forall₂ V)
      (d'.clausesPass rule classify mode toks') := by
  rw [clausesPass_eq, clausesPass_eq]
  by_cases hne : toks = []
  · subst hne
    cases htoks
    exact .finished .nil .nil .nil
  · have hne' : toks' ≠ [] := by
      rintro rfl
      cases htoks
      exact hne rfl
    rw [if_neg hne, if_neg hne']
    have hclause := clause_moved h mode rule htoks
    have hlt := d.clause_shortens mode rule toks
    have hin := d.clause_inside mode rule toks
    generalize d.clause mode rule toks = outcome, d'.clause mode rule toks' = outcome'
      at hclause hlt hin ⊢
    cases hclause with
    | @read t t' rest rest' a a' ht hrest _ =>
      subst ht
      have : rest.length < toks.length := hlt
      have hplace := h.stretch htoks hrest
      have hothers := clausesPass_moved h rule hclassify mode rest rest' hrest
      have haccepted := hclassify t hplace
      simp only
      generalize classify t (d.stretch _ _) = c, classify t (d'.stretch _ _) = c' at haccepted ⊢
      cases haccepted with
      | ok hw => exact hothers.cons hw
      | error he => exact hothers.behind (.cons ⟨by rw [he], hplace⟩ .nil)
    | @miss m m' a a' hm ha =>
      have := skipClause_length_lt hin.1 hne
      have hothers := clausesPass_moved h rule hclassify .thorough (skipClause m.rest)
        (skipClause m'.rest) (LexemesMoved.skipClause hm.2)
      cases mode with
      | fast => exact .missed hm ha
      | thorough => exact hothers.behind (.cons (h.report hm ha) .nil)
    | tooDeep hrest => exact .tooDeep hrest .nil
    | cut hcut => exact .cut hcut
termination_by toks.length

end

/-! ## One pass or two -/

section

variable {α β : Type} {V : α → β → Prop}

theorem conclude_moved (h : Moved o o' d d') {pass : Pass α} {pass' : Pass β}
    (hpass : pass.Moved o o' (d.Lower d') V pass')
    (hfault : d.Lower d' → ∀ fault, (d.conclude pass).result ≠ .error fault) :
    (d.conclude pass).Moved o o' (Option.Rel V) (d'.conclude pass') := by
  cases hpass with
  | finished hv hrest hfound =>
    exact ⟨.ok (.some hv), h.diagnosticsWith (List.rel_append hfound (h.spurious hrest))⟩
  | missed hm ha => exact ⟨.ok .none, h.diagnosticsWith (.cons (h.report hm ha) .nil)⟩
  | tooDeep hrest hfound =>
    have hlower : ¬ d.Lower d' := fun hlower => hfault hlower _ rfl
    exact ⟨.error (h.tooDeepAt hlower hrest), h.diagnosticsWith hfound⟩
  | cut hlower => exact absurd rfl (hfault hlower _)

/-- Read in one pass or in two, moved documents come to the same, unless a lower limit
of the first one is met. -/
theorem drive_moved (h : Moved o o' d d') {pass : Mode → Pass α} {pass' : Mode → Pass β}
    (hpass : ∀ mode, (pass mode).Moved o o' (d.Lower d') V (pass' mode))
    (hfault : d.Lower d' → ∀ fault, (d.drive pass).result ≠ .error fault) :
    (d.drive pass).Moved o o' (Option.Rel V) (d'.drive pass') := by
  have hthorough := hpass .thorough
  have hfast := hpass .fast
  unfold drive at hfault ⊢
  rw [← h.twoPass]
  split
  · rename_i htwo
    rw [if_pos htwo] at hfault
    generalize pass .fast = p, pass' .fast = p' at hfast hfault ⊢
    cases hfast with
    | finished hv hrest hfound =>
      cases hrest with
      | nil => exact ⟨.ok (.some hv), h.diagnosticsWith hfound⟩
      | cons _ _ => exact conclude_moved h hthorough hfault
    | missed hm ha => exact conclude_moved h hthorough hfault
    | tooDeep hrest hfound =>
      have hlower : ¬ d.Lower d' := fun hlower => hfault hlower _ rfl
      exact ⟨.error (h.tooDeepAt hlower hrest), h.diagnosticsWith hfound⟩
    | cut hlower => exact absurd rfl (hfault hlower _)
  · rename_i hone
    rw [if_neg hone] at hfault
    exact conclude_moved h hthorough hfault

end

end Document

/-! ## Legality does not depend on places -/

theorem everywhere_located :
    Document.Everywhere o o' (Located.Moved o o') fun t place => .ok ⟨t, place⟩ :=
  fun _ _ _ hplace => .ok ⟨rfl, hplace⟩

theorem everywhere_clause : Document.Everywhere o o' (Clause.Moved o o') Clause.ofTerm := by
  intro t p p' hplace
  unfold Clause.ofTerm
  cases checkClause t with
  | ok _ => exact .ok ⟨rfl, hplace⟩
  | error e => exact .error rfl

theorem everywhere_query : Document.Everywhere o o' (Query.Moved o o') Document.queryOf := by
  intro t p p' hplace
  unfold Document.queryOf Query.ofTerm
  cases checkGoal (Document.goalOf t) with
  | ok _ => exact .ok ⟨rfl, hplace⟩
  | error e => exact .error rfl

/-- The same facts at the same place. -/
theorem clauses_moved {p p' : Place} (h : Place.Moved o o' p p') (facts : List Term) :
    List.Forall₂ (Clause.Moved o o') (facts.map (⟨·, p⟩)) (facts.map (⟨·, p'⟩)) := by
  rw [List.forall₂_map_left_iff, List.forall₂_map_right_iff]
  exact List.forall₂_same.mpr fun _ _ => ⟨rfl, h⟩

theorem everywhere_update : Document.Everywhere o o' (Update.Moved o o') Update.ofTerm := by
  intro t p p' hplace
  unfold Update.ofTerm
  cases t.conjuncts.mapM Change.ofTerm with
  | ok changes => exact .ok ⟨rfl, hplace, clauses_moved hplace _, clauses_moved hplace _⟩
  | error e => exact .error rfl

namespace Document

variable {d d' : Document}

/-- One term for the whole document, accepted everywhere or nowhere. -/
theorem single_moved {α : Type} {V : α → α → Prop} {classify : Term → Place → Except ClauseError α}
    (h : Moved o o' d d') (hclassify : Everywhere o o' V classify)
    (hfault : d.Lower d' → ∀ fault, (d.drive (d.onePass classify)).result ≠ .error fault) :
    ((d.drive (d.onePass classify)).map Option.join).Moved o o' (Option.Rel V)
      ((d'.drive (d'.onePass classify)).map Option.join) := by
  refine (drive_moved h (onePass_moved h hclassify) hfault).map ?_
  rintro _ _ (hv | _)
  · exact hv
  · exact .none

/-- A list of clauses, each accepted everywhere or nowhere. -/
theorem list_moved {α : Type} {V : α → α → Prop} {classify : Term → Place → Except ClauseError α}
    (h : Moved o o' d d') (rule : Rule) (hclassify : Everywhere o o' V classify)
    (hfault : d.Lower d' → ∀ fault, (d.drive fun mode =>
      d.clausesPass rule classify mode d.lexemes).result ≠ .error fault) :
    ((d.drive fun mode => d.clausesPass rule classify mode d.lexemes).map (·.getD [])).Moved o o'
      (List.Forall₂ V)
      ((d'.drive fun mode => d'.clausesPass rule classify mode d'.lexemes).map (·.getD [])) := by
  have hpass := fun mode => clausesPass_moved h rule hclassify mode _ _ h.lexemes
  refine (drive_moved h hpass hfault).map ?_
  rintro _ _ (hv | _)
  · exact hv
  · exact .nil

/-- A text that begins elsewhere is read as the same, whatever it is read as: the same
terms, or a fault at the same position, and the same diagnostics in the same order. Of
all of them only the places are moved, columns on the first line of the text. -/
theorem readings_moved (text : String) (origin origin' : Place) (options : Options) :
    let d := ofText text origin options
    let d' := ofText text origin' options
    d.term.Moved origin origin' (Option.Rel (Located.Moved origin origin')) d'.term ∧
      d.terms.Moved origin origin' (List.Forall₂ (Located.Moved origin origin')) d'.terms ∧
      d.soleVariable.Moved origin origin' (Option.Rel (Located.Moved origin origin'))
        d'.soleVariable ∧
      d.query.Moved origin origin' (Option.Rel (Query.Moved origin origin')) d'.query ∧
      d.queries.Moved origin origin' (List.Forall₂ (Query.Moved origin origin')) d'.queries ∧
      d.update.Moved origin origin' (Option.Rel (Update.Moved origin origin')) d'.update ∧
      d.program.Moved origin origin' (List.Forall₂ (Clause.Moved origin origin')) d'.program := by
  intro d d'
  have h : Moved origin origin' d d' := ofText_moved text origin origin' rfl rfl (Nat.le_refl _)
  have hsame : ¬ d.Lower d' := Nat.lt_irrefl _
  refine ⟨?_, ?_, ?_, ?_, ?_, ?_, ?_⟩
  · exact single_moved h everywhere_located fun hlower => absurd hlower hsame
  · refine (drive_moved h (termsPass_moved h) fun hlower => absurd hlower hsame).map ?_
    rintro _ _ (hts | _)
    · exact hts
    · exact .nil
  · exact drive_moved h (variablePass_moved h) fun hlower => absurd hlower hsame
  · exact single_moved h everywhere_query fun hlower => absurd hlower hsame
  · exact list_moved h .queries everywhere_query fun hlower => absurd hlower hsame
  · exact single_moved h everywhere_update fun hlower => absurd hlower hsame
  · exact list_moved h .program everywhere_clause fun hlower => absurd hlower hsame

end Document

end

end Clausal
