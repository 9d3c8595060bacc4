import Clausal.Proofs.Reading.Counter
import Clausal.Proofs.Reading.Moved
import Clausal.Proofs.Writing.RoundTrip

/-
  Depth — the limit of nesting is a guard

  A text read from where it begins is a moved text that was not moved at all, and
  there the same place is the very same. So what holds of a moved document under a
  higher limit says that a reading without a fault stays what it is when the limit
  is raised.

  What is proved:
    1. `Reading.Moved.eq` — a reading that was not moved is the same reading.
    2. `term_deeper` — a term is read as the same under every higher limit.
    3. `drive_cut` — the only fault is a nesting deeper than the document's own limit.
    4. `readings_guarded` — as any kind of document, a text comes to that fault or to
       what it comes to under every higher limit; and read with a counter, every term
       puts the counter back.
-/

namespace Clausal

open Reading

variable {o : Place}

/-! ## Nothing moved -/

theorem Position.Moved.eq {o p p' : Position} (h : Moved o o p p') : p = p' := by
  obtain ⟨line, column, offset⟩ := p
  obtain ⟨line', column', offset'⟩ := p'
  obtain ⟨_, hline, hcolumn, hcolumnBehind, hoffset⟩ := h
  simp only [Position.mk.injEq] at *
  refine ⟨by omega, ?_, by omega⟩
  by_cases hfirst : line = o.line
  · have := hcolumn hfirst
    omega
  · exact (hcolumnBehind hfirst).symm

theorem Place.Moved.eq {p p' : Place} (h : Moved o o p p') : p = p' := by
  obtain ⟨file, line, column, start, stop⟩ := p
  obtain ⟨file', line', column', start', stop'⟩ := p'
  obtain ⟨hline, hcolumn, hstart⟩ := Position.mk.inj h.first.eq
  have hstop := h.stop
  have hfile : file = file' := h.file.trans h.file'.symm
  simp only [Place.mk.injEq] at *
  exact ⟨hfile, hline, hcolumn, hstart, by omega⟩

theorem Diagnostic.Moved.eq {e e' : Diagnostic} (h : Moved o o e e') : e = e' := by
  obtain ⟨message, place⟩ := e
  obtain ⟨message', place'⟩ := e'
  obtain rfl : message = message' := h.message
  obtain rfl : place = place' := h.place.eq
  rfl

theorem Fault.Moved.eq {o : Position} {f f' : Fault} (h : Moved o o f f') : f = f' := by
  cases h with
  | nestingTooDeep hp => rw [hp.eq]

theorem Located.Moved.eq {x x' : Located Term} (h : Moved o o x x') : x = x' := by
  obtain ⟨value, place⟩ := x
  obtain ⟨value', place'⟩ := x'
  obtain rfl : value = value' := h.value
  obtain rfl : place = place' := h.place.eq
  rfl

theorem Clause.Moved.eq {c c' : Clause} (h : Moved o o c c') : c = c' := by
  obtain ⟨term, place⟩ := c
  obtain ⟨term', place'⟩ := c'
  obtain rfl : term = term' := h.term
  obtain rfl : place = place' := h.place.eq
  rfl

theorem Query.Moved.eq {q q' : Query} (h : Moved o o q q') : q = q' := by
  obtain ⟨term, place⟩ := q
  obtain ⟨term', place'⟩ := q'
  obtain rfl : term = term' := h.term
  obtain rfl : place = place' := h.place.eq
  rfl

/-- Lists of values that were not moved are the same. -/
theorem forall₂_moved_eq {α : Type} {V : α → α → Prop} (hV : ∀ v v', V v v' → v = v')
    {vs vs' : List α} (h : List.Forall₂ V vs vs') : vs = vs' :=
  List.forall₂_eq_eq_eq ▸ h.imp hV

/-- Nor are options of them. -/
theorem optionRel_moved_eq {α : Type} {V : α → α → Prop} (hV : ∀ v v', V v v' → v = v')
    {v v' : Option α} (h : Option.Rel V v v') : v = v' := by
  cases h with
  | some hv => rw [hV _ _ hv]
  | none => rfl

theorem Update.Moved.eq {u u' : Update} (h : Moved o o u u') : u = u' := by
  obtain ⟨term, place, adds, deletes⟩ := u
  obtain ⟨term', place', adds', deletes'⟩ := u'
  obtain rfl : term = term' := h.term
  obtain rfl : place = place' := h.place.eq
  obtain rfl : adds = adds' := forall₂_moved_eq (fun _ _ => Clause.Moved.eq) h.adds
  obtain rfl : deletes = deletes' := forall₂_moved_eq (fun _ _ => Clause.Moved.eq) h.deletes
  rfl

/-- A reading that was not moved is the same reading, when its values are. -/
theorem Reading.Moved.eq {α : Type} {V : α → α → Prop} {r r' : Reading α} (h : Moved o o V r r')
    (hV : ∀ v v', V v v' → v = v') : r = r' := by
  obtain ⟨result, ⟨ds, hds⟩⟩ := r
  obtain ⟨result', ⟨ds', hds'⟩⟩ := r'
  obtain ⟨hresult, hdiagnostics⟩ := h
  have hsame : ds = ds' := forall₂_moved_eq (fun _ _ => Diagnostic.Moved.eq) hdiagnostics
  have hvalue : result = result' := by
    cases hresult with
    | ok hv => rw [hV _ _ hv]
    | error hfault => rw [hfault.eq]
  subst hsame hvalue
  rfl

/-! ## Higher limits -/

namespace Document

/-- A reading has the same fault whatever its value is made into. -/
theorem map_ne_error {α β : Type} {r : Reading α} {f : α → β}
    (h : ∀ fault, (r.map f).result ≠ .error fault) : ∀ fault, r.result ≠ .error fault := by
  intro fault hresult
  exact h fault (by rw [Reading.map, hresult]; rfl)

/-- A term that is read without a fault is read as the same under every higher limit. -/
theorem term_deeper {text : String} {origin : Place} {options : Options} {maxDepth : Nat}
    (hdepth : options.maxDepth ≤ maxDepth)
    (h : ∀ fault, (ofText text origin options).term.result ≠ .error fault) :
    (ofText text origin { options with maxDepth := maxDepth }).term =
      (ofText text origin options).term := by
  have hsame : Moved origin origin (ofText text origin options)
      (ofText text origin { options with maxDepth := maxDepth }) :=
    ofText_moved text origin origin rfl rfl hdepth
  have hterm := single_moved hsame everywhere_located fun _ => map_ne_error h
  refine (Reading.Moved.eq hterm ?_).symm
  rintro _ _ (hx | _)
  · rw [hx.eq]
  · rfl

/-! ## Every entry -/

/-- A document whose text cannot be read to an end is nested deeper than its limit. -/
theorem drive_cut {α : Type} {d : Document} {pass : Mode → Pass α} {fault : Fault}
    (h : (d.drive pass).result = .error fault) :
    ∃ line column, fault = .nestingTooDeep d.options.maxDepth line column := by
  have hat : ∀ rest, .error (d.tooDeepAt rest) = (Except.error fault : Except Fault (Option α)) →
      ∃ line column, fault = .nestingTooDeep d.options.maxDepth line column := by
    rintro rest ⟨⟩
    exact ⟨_, _, rfl⟩
  have hconclude : ∀ p : Pass α, (d.conclude p).result = .error fault →
      ∃ line column, fault = .nestingTooDeep d.options.maxDepth line column := by
    intro p hp
    cases p with
    | finished v rest found => cases hp
    | missed m a => cases hp
    | tooDeep rest found => exact hat rest hp
  unfold drive at h
  split at h
  · split at h
    · cases h
    · exact hat _ h
    · exact hconclude _ h
  · exact hconclude _ h

theorem map_cut {α β : Type} {limit : Nat} {r : Reading α} {f : α → β}
    (h : ∀ fault, r.result = .error fault →
      ∃ line column, fault = .nestingTooDeep limit line column) :
    ∀ fault, (r.map f).result = .error fault →
      ∃ line column, fault = .nestingTooDeep limit line column := by
  intro fault hfault
  unfold Reading.map at hfault
  cases hresult : r.result with
  | ok v =>
    rw [hresult] at hfault
    cases hfault
  | error met =>
    rw [hresult] at hfault
    cases hfault
    exact h fault hresult

end Document

/-- The reading was cut off where it passed the limit, or the other one is the very same,
its diagnostics included. -/
def Reading.Guarded {α : Type} (limit : Nat) (r r' : Reading α) : Prop :=
  (∃ line column, r.result = .error (.nestingTooDeep limit line column)) ∨ r' = r

theorem Reading.Guarded.of_moved {α : Type} {limit : Nat} {V : α → α → Prop} {r r' : Reading α}
    (hcut : ∀ fault, r.result = .error fault →
      ∃ line column, fault = .nestingTooDeep limit line column)
    (hmoved : (∀ fault, r.result ≠ .error fault) → r.Moved o o V r')
    (hV : ∀ v v', V v v' → v = v') : r.Guarded limit r' := by
  by_cases hfault : ∃ fault, r.result = .error fault
  · obtain ⟨fault, hfault⟩ := hfault
    obtain ⟨line, column, rfl⟩ := hcut fault hfault
    exact .inl ⟨line, column, hfault⟩
  · have hmoved := hmoved fun fault h => hfault ⟨fault, h⟩
    exact .inr (hmoved.eq hV).symm

namespace Document

/-- One term for the whole document. -/
theorem single_guarded {α : Type} {V : α → α → Prop} {d d' : Document}
    {classify : Term → Place → Except ClauseError α} (h : Moved o o d d')
    (hclassify : Everywhere o o V classify) (hV : ∀ v v', V v v' → v = v') :
    ((d.drive (d.onePass classify)).map Option.join).Guarded d.options.maxDepth
      ((d'.drive (d'.onePass classify)).map Option.join) :=
  .of_moved (map_cut fun _ => drive_cut)
    (fun hok => single_moved h hclassify fun _ => map_ne_error hok)
    fun _ _ => optionRel_moved_eq hV

/-- A list of clauses. -/
theorem list_guarded {α : Type} {V : α → α → Prop} {d d' : Document} (rule : Rule)
    {classify : Term → Place → Except ClauseError α} (h : Moved o o d d')
    (hclassify : Everywhere o o V classify) (hV : ∀ v v', V v v' → v = v') :
    ((d.drive fun mode => d.clausesPass rule classify mode d.lexemes).map (·.getD [])).Guarded
      d.options.maxDepth
      ((d'.drive fun mode => d'.clausesPass rule classify mode d'.lexemes).map (·.getD [])) :=
  .of_moved (map_cut fun _ => drive_cut)
    (fun hok => list_moved h rule hclassify fun _ => map_ne_error hok)
    fun _ _ => forall₂_moved_eq hV

/-- The limit of nesting is a guard and nothing else. Whatever a text is read as, it is
cut off where it passes the limit, or every higher limit reads the same from it and
leaves the same diagnostics. A reader that counts the levels up and down reads what is
read with the levels that are left, and its counter is back behind every term, one that
was missed or cut off included. -/
theorem readings_guarded (text : String) (origin : Place) (quotes : DoubleQuotes) (twoPass : Bool)
    {limit limit' : Nat} (hlimit : limit ≤ limit') :
    let d := ofText text origin ⟨limit, quotes, twoPass⟩
    let d' := ofText text origin ⟨limit', quotes, twoPass⟩
    (d.term.Guarded limit d'.term ∧ d.terms.Guarded limit d'.terms ∧
      d.soleVariable.Guarded limit d'.soleVariable ∧ d.query.Guarded limit d'.query ∧
      d.queries.Guarded limit d'.queries ∧ d.update.Guarded limit d'.update ∧
      d.program.Guarded limit d'.program) ∧
    (∀ mode max rule toks, (Reading.counting ⟨quotes, mode⟩ limit limit).read max rule toks 0 =
      ((d.reader mode).read max rule toks, 0)) ∧
    ∀ mode calls depth max rule toks, limit ≤ depth + calls →
      (Reading.counting ⟨quotes, mode⟩ limit calls).read max rule toks depth =
        ((Reading.terms ⟨quotes, mode⟩ (limit - depth)).read max rule toks, depth) := by
  intro d d'
  have h : Moved origin origin d d' := ofText_moved text origin origin rfl rfl hlimit
  refine ⟨⟨?_, ?_, ?_, ?_, ?_, ?_, ?_⟩, ?_, ?_⟩
  · exact single_guarded h everywhere_located fun _ _ => Located.Moved.eq
  · have hterms : (∀ fault, d.terms.result ≠ .error fault) →
        d.terms.Moved origin origin (List.Forall₂ (Located.Moved origin origin)) d'.terms := by
      intro hok
      refine (drive_moved h (termsPass_moved h) fun _ => map_ne_error hok).map ?_
      rintro _ _ (hts | _)
      · exact hts
      · exact .nil
    exact .of_moved (map_cut fun _ => drive_cut) hterms
      fun _ _ => forall₂_moved_eq fun _ _ => Located.Moved.eq
  · exact .of_moved (fun _ => drive_cut)
      (fun hok => drive_moved h (variablePass_moved h) fun _ => hok)
      fun _ _ => optionRel_moved_eq fun _ _ => Located.Moved.eq
  · exact single_guarded h everywhere_query fun _ _ => Query.Moved.eq
  · exact list_guarded .queries h everywhere_query fun _ _ => Query.Moved.eq
  · exact single_guarded h everywhere_update fun _ _ => Update.Moved.eq
  · exact list_guarded .program h everywhere_clause fun _ _ => Clause.Moved.eq
  · intro mode max rule toks
    exact Reading.counting_read _ (Nat.le_add_left limit 0) max rule toks
  · intro mode calls depth max rule toks hcalls
    exact Reading.counting_read _ hcalls max rule toks

/-- An argument in brackets lies two levels below its compound, and a limit of two cuts it
off. -/
theorem tooDeep_bracketedArgument {opening inner : Lexeme} {rest : List Lexeme} (style : Style)
    (l : Lexeme) {f : String} (hl : l.token = .name f) (hopening : opening.token = .openRound)
    (hlayout : opening.layoutBefore = false) (hinner : inner.token = .openRound) :
    (Reading.terms style 2).read maxPriority .term (l :: opening :: inner :: rest) =
      .tooDeep rest := by
  have hbrackets : primary style (Reading.terms style 0) argumentPriority .arguments
      (inner :: rest) = .tooDeep rest := by
    simp only [primary, peek, hinner, List.tail_cons]
    rfl
  have harguments : arguments (Reading.terms style 1) (inner :: rest) = .tooDeep rest := by
    rw [arguments_eq, terms_tooDeep hbrackets, Outcome.andThen]
  have hopens : opensArguments (opening :: inner :: rest) = true := by
    simp [opensArguments, hopening, hlayout]
  apply terms_tooDeep
  simp only [primary, peek, hl, List.tail_cons, nameTerm, hopens, if_true, compoundTerm, harguments]
  rfl

/-- The term `f((a))` takes three levels. A limit of two cuts it off at `a`, and what a limit
of four reads a limit of five reads as well. Under a limit of four a counter that begins at
one reads the term, and one that begins at two is cut off; either is put back. -/
theorem readings_guarded_brackets :
    let under : Nat → Document := fun limit => ofText "f((a))" .origin ⟨limit, .codes, true⟩
    let toks := (under 4).lexemes
    let t : Term := .compound "f" [.atom "a"]
    (2 ≤ 3 ∧ (under 2).term.Guarded 2 (under 3).term ∧
      (under 2).term.result = .error (.nestingTooDeep 2 1 4)) ∧
    (4 ≤ 5 ∧ (under 4).term.Guarded 4 (under 5).term ∧
      (under 5).term = ⟨.ok (some ⟨t, ⟨none, 1, 1, 0, 6⟩⟩), ∅⟩) ∧
    (4 ≤ 1 + 3 ∧ (Reading.counting ⟨.codes, .fast⟩ 4 3).read maxPriority .term toks 1 =
      (.read (t, 0) [] none, 1)) ∧
    4 ≤ 2 + 2 ∧ (Reading.counting ⟨.codes, .fast⟩ 4 2).read maxPriority .term toks 2 =
      (.tooDeep (toks.drop 3), 2) := by
  intro under toks t
  have htoks : toks = [⟨.name "f", ⟨1, 1, 0, 1⟩, false⟩, ⟨.openRound, ⟨1, 2, 1, 2⟩, false⟩,
      ⟨.openRound, ⟨1, 3, 2, 3⟩, false⟩, ⟨.name "a", ⟨1, 4, 3, 4⟩, false⟩,
      ⟨.closeRound, ⟨1, 5, 4, 5⟩, false⟩, ⟨.closeRound, ⟨1, 6, 5, 6⟩, false⟩] := by
    decide +kernel
  have hcut : ∀ style, (Reading.terms style 2).read maxPriority .term toks =
      .tooDeep (toks.drop 3) := by
    intro style
    rw [htoks]
    exact tooDeep_bracketedArgument style _ rfl rfl rfl rfl
  have hread : ∀ style levels, 2 < levels →
      (Reading.terms style levels).read maxPriority .term toks = .read (t, 0) [] none := by
    intro style levels hlevels
    have hatom : ReadsAs (.single (.name "a")) (.atom "a") 0 0 false 0 := readsAs_bareName "a"
    have hbrackets := readsAs_bracketed hatom (by decide) (by decide)
    have harguments := readsAllAs_single hbrackets (by decide) (by decide)
    rw [htoks]
    exact (readsAs_functor (.inl rfl) harguments (List.cons_ne_nil _ _)).whole .term hlevels
      (by decide) (by decide) rfl
  have htwo : (under 2).term.result = .error (.nestingTooDeep 2 1 4) := by
    have hreader : ((under 2).reader .thorough).read maxPriority .term (under 2).lexemes =
        .tooDeep (toks.drop 3) := hcut _
    rw [term_eq_conclude, onePass, hreader, htoks]
    rfl
  have hfour : (under 4).term = ⟨.ok (some ⟨t, ⟨none, 1, 1, 0, 6⟩⟩), ∅⟩ := by
    have hplace : (under 4).stretch toks [] = ⟨none, 1, 1, 0, 6⟩ := by decide +kernel
    rw [term_of_read (by decide +kernel) (hread _ 4 (by decide)), hplace]
  have hlow := readings_guarded "f((a))" .origin .codes true (show 2 ≤ 3 by decide)
  have hhigh := readings_guarded "f((a))" .origin .codes true (show 4 ≤ 5 by decide)
  have hguarded : (under 4).term.Guarded 4 (under 5).term := hhigh.1.1
  have hfive : (under 5).term = (under 4).term := by
    rcases hguarded with ⟨line, column, hfault⟩ | hsame
    · rw [hfour] at hfault
      cases hfault
    · exact hsame
  refine ⟨⟨by decide, hlow.1.1, htwo⟩, ⟨by decide, hguarded, hfive.trans hfour⟩,
    ⟨by decide, ?_⟩, by decide, ?_⟩
  · rw [hhigh.2.2 .fast 3 1 maxPriority .term toks (by decide), hread _ 3 (by decide)]
  · rw [hhigh.2.2 .fast 2 2 maxPriority .term toks (by decide), hcut]

end Document

end Clausal
