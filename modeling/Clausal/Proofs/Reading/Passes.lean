import Clausal.Proofs.Reading.Clean
import Clausal.Proofs.Reading.Turns

/-
  Passes by cursor — whole documents, in one pass or two

  A pass by cursor ends with what the pass by recursion comes to, and so does reading in
  one pass or two: after a fast pass that missed, the cursor is put back to the first
  lexeme and nothing of that pass is left.

  What is proved:
    1. `clauses_told`, `commaSeparated_told` — the loops, however much they have read.
    2. `drive_answers` — one pass or two.
    3. `Entry.parse_answers` — every kind of document.
-/

namespace Clausal

namespace Machine

variable {d : Document} {α β : Type} {g : Option Miss} {e : DiagnosticSet}
  {toks rest : List Lexeme} {clock : Nat}

/-! ## Passes -/

/-- What a pass has to say and leaves, when it hands its value on by `w` and leaves a cursor
behind a miss as `missed` says. -/
inductive PassTold (d : Document) (e : DiagnosticSet) (w : α → β)
    (missed : Miss → Option Miss → Cursor d → Prop) :
    Pass α → Except (Halt d) β × Cursor d → Prop where
  | finished {v : α} {rest : List Lexeme} {found : List Diagnostic} {s : Option (Stop d)} :
    rest <:+ d.lexemes →
    PassTold d e w missed (.finished v rest found)
      (.ok (w v), { d.cursor rest 0 none (e.insertAll found) with furthest := s })
  | missed {m : Miss} {a : Option Miss} {c : Cursor d} : m.rest <:+ d.lexemes → missed m a c →
    PassTold d e w missed (.missed m a) (.error (.miss (d.stopOf m)), c)
  | tooDeep {rest : List Lexeme} {found : List Diagnostic} {s : Option (Stop d)} :
    PassTold d e w missed (.tooDeep rest found)
      (.error (.fault (d.tooDeepAt rest)),
        { d.cursor rest 0 none (e.insertAll found) with furthest := s })

namespace PassTold

variable {w : α → β} {missed : Miss → Option Miss → Cursor d → Prop}
  {r : Except (Halt d) β × Cursor d}

theorem behind {p : Pass α} {x : Diagnostic} (h : PassTold d (e.insert x) w missed p r) :
    PassTold d e w missed (p.behind [x]) r := by
  cases h with
  | finished hrest => exact .finished hrest
  | missed hrest hmissed => exact .missed hrest hmissed
  | tooDeep => exact .tooDeep

theorem mono {missed' : Miss → Option Miss → Cursor d → Prop} {p : Pass α}
    (h : PassTold d e w missed p r) (himp : ∀ m a c, missed m a c → missed' m a c) :
    PassTold d e w missed' p r := by
  cases h with
  | finished hrest => exact .finished hrest
  | missed hrest hmissed => exact .missed hrest (himp _ _ _ hmissed)
  | tooDeep => exact .tooDeep

theorem cons {w : List α → β} {p : Pass (List α)} {v : α}
    (h : PassTold d e (fun vs => w (v :: vs)) missed p r) :
    PassTold d e w missed (p.cons v) r := by
  cases h with
  | finished hrest => exact .finished hrest
  | missed hrest hmissed => exact .missed hrest hmissed
  | tooDeep => exact .tooDeep

end PassTold

/-- The loop over clauses does what the pass does, however many it has read before. -/
theorem clauses_told (hd : d.Whole) (rule : Rule)
    (classify : Term → Place → Except ClauseError α) (mode : Mode) :
    ∀ {clock : Nat} (found : List α) (toks : List Lexeme) (e : DiagnosticSet)
      (s : Option (Stop d)), toks <:+ d.lexemes →
      ticks d d.options.maxDepth + toks.length < clock →
      ∃ r, clauses rule classify mode clock found
          { d.cursor toks 0 none e with furthest := s } = some r ∧
        PassTold d e (found ++ ·) (fun _ _ _ => mode = .fast)
          (d.clausesPass rule classify mode toks) r := by
  intro clock
  induction clock with
  | zero => exact fun _ _ _ _ _ h => absurd h (Nat.not_lt_zero _)
  | succ clock ih =>
    intro found toks e s hin hclock
    rw [clauses, atEnd_bind hd hin _ rfl, Document.clausesPass_eq]
    by_cases hne : toks = []
    · subst hne
      refine ⟨_, rfl, ?_⟩
      have h : PassTold d e (found ++ ·) (fun _ _ _ => mode = .fast) (.finished [] [] [])
          (.ok (found ++ []), { d.cursor [] 0 none e with furthest := s }) :=
        .finished List.nil_suffix
      rwa [List.append_nil] at h
    · have hempty : ¬ toks.isEmpty = true := by rwa [List.isEmpty_iff]
      rw [if_neg hempty, if_neg hne]
      -- However the turn ends, it leaves fewer lexemes, so the clock outlasts the others.
      obtain ⟨r, hr, htold⟩ := turn_told (e := e) hd rule classify mode
        (show ticks d d.options.maxDepth ≤ clock by omega) hin s
      generalize d.clause mode rule toks = o at htold
      cases htold with
      | @value t rest a v hended hknown hclassify =>
        have hlt := hended.length_lt
        obtain ⟨r, hr', hpass⟩ := ih (found ++ [v]) rest e (a.map d.stopOf)
          (hended.suffix.trans hin) (by omega)
        refine ⟨r, (bind_ok hr _).trans hr', ?_⟩
        simp only [hclassify]
        refine PassTold.cons ?_
        simpa only [List.append_assoc, List.singleton_append] using hpass
      | @illegal t rest a x hended hknown hclassify =>
        have hlt := hended.length_lt
        obtain ⟨r, hr', hpass⟩ := ih found rest (e.insert ⟨x.message, d.stretch toks rest⟩)
          (a.map d.stopOf) (hended.suffix.trans hin) (by omega)
        rw [← List.append_nil found] at hr'
        refine ⟨r, (bind_ok hr _).trans hr', ?_⟩
        simp only [hclassify]
        exact hpass.behind
      | @skipped m a hmode hwithin =>
        have hlt := Document.skipClause_length_lt hwithin.suffix hne
        have hrest : Document.skipClause m.rest <:+ d.lexemes :=
          ((List.tail_suffix _).trans (List.dropWhile_suffix _)).trans (hwithin.suffix.trans hin)
        obtain ⟨r, hr', hpass⟩ := ih found (Document.skipClause m.rest)
          (e.insert (d.report m a)) none hrest (by omega)
        rw [← List.append_nil found] at hr'
        refine ⟨r, (bind_ok hr _).trans hr', ?_⟩
        subst hmode
        exact hpass.behind
      | missed hmode hrest =>
        subst hmode
        exact ⟨_, bind_error hr _, .missed hrest rfl⟩
      | tooDeep hwithin => exact ⟨_, bind_error hr _, .tooDeep⟩

/-- The cursor behind a miss is where reading stopped. -/
def MissedAt (d : Document) (g : Option Miss) (e : DiagnosticSet) (m : Miss) (a : Option Miss)
    (c : Cursor d) : Prop :=
  d.Known (Miss.furthest g a) ∧ c = d.cursor m.rest 0 (Miss.furthest g a) e

theorem onePass_told (hd : d.Whole) (classify : Term → Place → Except ClauseError α) (mode : Mode)
    (hclock : ticks d d.options.maxDepth ≤ clock) :
    ∃ r, onePass classify mode clock (d.cursor d.lexemes 0 none e) = some r ∧
      PassTold d e id (MissedAt d none e) (d.onePass classify mode) r := by
  have hin := List.suffix_refl d.lexemes
  obtain ⟨r, hr, htold⟩ := expr_told (g := none) (e := e) hd mode maxPriority .term hclock hin
    Document.known_none
  have hshort := (d.reader mode).shortens maxPriority .term d.lexemes
  rw [onePass, bind_ok (here_cursor hin), Document.onePass]
  generalize (d.reader mode).read maxPriority .term d.lexemes = o at htold hshort
  cases htold with
  | @read v rest a hwithin hknown =>
    obtain ⟨t, priority⟩ := v
    have hskip := skipStop_suffix rest
    have hlast := hskip.trans hwithin.suffix
    have hlt := Nat.lt_of_le_of_lt hskip.length_le hshort
    rw [bind_ok hr]
    dsimp only
    rw [bind_ok (skipStop_cursor hd hwithin.suffix), bind_ok (placeFrom_cursor hin hlast hlt),
      judge_cursor]
    cases classify t (d.stretch d.lexemes (Document.skipStop rest)) with
    | ok v => exact ⟨_, rfl, .finished hlast⟩
    | error x => exact ⟨_, rfl, .finished hlast⟩
  | miss hwithin hknown =>
    exact ⟨_, bind_error hr _, .missed hwithin.suffix ⟨hknown, rfl⟩⟩
  | tooDeep hwithin => exact ⟨_, bind_error hr _, .tooDeep⟩

theorem variablePass_told (hd : d.Whole) (mode : Mode) (clock : Nat) :
    ∃ r, variablePass mode clock (d.cursor d.lexemes 0 none e) = some r ∧
      PassTold d e id (MissedAt d none e) (d.variablePass mode) r := by
  have hin := List.suffix_refl d.lexemes
  rw [variablePass, bind_ok (here_cursor hin), Document.token_front hd, Document.variablePass]
  cases hpeek : peek d.lexemes with
  | var name =>
    have hadvance := advance_cursor (k := 0) (g := none) (e := e) hd hin (by simp [hpeek])
      fun h => absurd rfl h
    exact ⟨_, (bind_ok hadvance _).trans rfl, .finished (List.tail_suffix _)⟩
  | _ => exact ⟨_, rfl, .missed hin ⟨Document.known_none, rfl⟩⟩

/-- What terms with commas between them come to as a pass. -/
def passOf : Outcome α → Pass α
  | .read v rest _ => .finished v rest []
  | .miss m a => .missed m a
  | .tooDeep rest => .tooDeep rest []

/-- A term more in front, and what was given up in it. -/
theorem PassTold.comma {found : List α} {x : α} {a : Option Miss} {o : Outcome (List α)}
    {r : Except (Halt d) (List α) × Cursor d}
    (h : PassTold d e (found ++ [x] ++ ·) (MissedAt d (Miss.furthest g a) e) (passOf o) r) :
    PassTold d e (found ++ ·) (MissedAt d g e) (passOf ((o.map (x :: ·)).after a)) r := by
  cases o with
  | read vs rest b =>
    cases h with
    | finished hrest =>
      rw [List.append_assoc, List.singleton_append]
      exact .finished hrest
  | miss m b =>
    cases h with
    | missed hrest hmissed =>
      rw [MissedAt, Miss.furthest_assoc] at hmissed
      exact .missed hrest hmissed
  | tooDeep rest =>
    cases h with
    | tooDeep => exact .tooDeep

theorem commaSeparated_told (hd : d.Whole) (mode : Mode) :
    ∀ {clock : Nat} (found : List (Located Term)) (toks : List Lexeme) (g : Option Miss),
      toks <:+ d.lexemes → d.Known g → ticks d d.options.maxDepth + toks.length < clock →
      ∃ r, commaSeparated mode clock found (d.cursor toks 0 g e) = some r ∧
        PassTold d e (found ++ ·) (MissedAt d g e) (passOf (d.commaSeparated mode toks)) r := by
  intro clock
  induction clock with
  | zero => exact fun _ _ _ _ _ h => absurd h (Nat.not_lt_zero _)
  | succ clock ih =>
    intro found toks g hin hg hclock
    have hticks : ticks d d.options.maxDepth ≤ clock := by omega
    obtain ⟨r, hr, htold⟩ := expr_told (e := e) hd mode argumentPriority .terms hticks hin hg
    have hshort := (d.reader mode).shortens argumentPriority .terms toks
    rw [commaSeparated, bind_ok (here_cursor hin), Document.commaSeparated_eq]
    generalize (d.reader mode).read argumentPriority .terms toks = o at htold hshort
    cases htold with
    | @read v rest a hwithin hknown =>
      obtain ⟨t, priority⟩ := v
      have hrest := hwithin.suffix.trans hin
      have hplace := placeFrom_cursor (g := Miss.furthest g a) (e := e) hin hwithin.suffix hshort
      rw [bind_ok hr]
      dsimp only
      rw [bind_ok hplace, bind_ok (here_cursor hrest), Document.token_front hd]
      by_cases hcomma : peek rest = .comma
      · have hadvance := advance_cursor (k := 0) (g := Miss.furthest g a) (e := e) hd hrest
          (by simp [hcomma]) fun h => absurd rfl h
        have htail := List.tail_suffix rest
        have hlt : rest.tail.length < toks.length :=
          Nat.lt_of_le_of_lt htail.length_le hshort
        obtain ⟨r, hr', hpass⟩ := ih (found ++ [⟨t, d.stretch toks rest⟩]) rest.tail
          (Miss.furthest g a) (htail.trans hrest) hknown (by omega)
        rw [if_pos hcomma]
        refine ⟨r, (bind_ok hadvance _).trans hr', ?_⟩
        simp only [Outcome.andThen, if_pos hcomma]
        exact hpass.comma
      · rw [if_neg hcomma]
        refine ⟨_, (bind_ok (skipStop_cursor hd hrest) _).trans rfl, ?_⟩
        simp only [Outcome.andThen, if_neg hcomma]
        exact .finished ((skipStop_suffix rest).trans hrest)
    | miss hwithin hknown =>
      exact ⟨_, bind_error hr _, .missed (hwithin.suffix.trans hin) ⟨hknown, rfl⟩⟩
    | tooDeep hwithin => exact ⟨_, bind_error hr _, .tooDeep⟩

theorem termsPass_told (hd : d.Whole) (mode : Mode)
    (hclock : ticks d d.options.maxDepth + d.lexemes.length < clock) :
    ∃ r, termsPass mode clock (d.cursor d.lexemes 0 none e) = some r ∧
      PassTold d e id (MissedAt d none e) (d.termsPass mode) r := by
  have hin := List.suffix_refl d.lexemes
  rw [termsPass, atEnd_bind hd hin _ rfl, Document.termsPass]
  cases hempty : d.lexemes.isEmpty with
  | true =>
    have hnil : d.spotOf d.lexemes = d.spotOf [] := by rw [List.isEmpty_iff.mp hempty]
    have hcursor : d.cursor d.lexemes 0 none e = d.cursor [] 0 none e := by
      rw [Document.cursor, hnil]
      rfl
    rw [hcursor]
    exact ⟨_, rfl, .finished List.nil_suffix⟩
  | false =>
    obtain ⟨r, hr, hpass⟩ :=
      commaSeparated_told (e := e) hd mode [] d.lexemes none hin Document.known_none hclock
    have hnone : (([] : List (Located Term)) ++ ·) = id := rfl
    rw [hnone] at hpass
    rw [if_neg Bool.false_ne_true, if_neg Bool.false_ne_true]
    refine ⟨r, hr, ?_⟩
    cases hcomma : d.commaSeparated mode d.lexemes with
    | _ => rwa [hcomma] at hpass

/-! ## Documents -/

/-- The cursor at the beginning of a document. -/
def start (d : Document) : Cursor d := d.cursor d.lexemes 0 none (.ofList d.lexical)

theorem rewind_bind (next : Unit → Machine d α) (c : Cursor d) :
    (rewind >>= next) c = next () (start d) := by
  have hfirst : d.spotOf d.lexemes = d.firstSpot := Fin.ext (Nat.sub_self _)
  have hrewind : rewind c = some (.ok (), start d) := by
    rw [start, Document.cursor, hfirst]
    rfl
  exact bind_ok hrewind next

theorem reportSpurious_cursor (hd : d.Whole) (hin : toks <:+ d.lexemes) (s : Option (Stop d)) :
    reportSpurious { d.cursor toks 0 none e with furthest := s } =
      some (.ok (), { d.cursor toks 0 none (e.insertAll (d.spurious toks)) with furthest := s }) := by
  rw [reportSpurious, atEnd_bind hd hin _ rfl, Document.spurious]
  cases hempty : toks.isEmpty with
  | true => rfl
  | false =>
    have hspot := Document.lexemeAt_spotOf hin
    rw [if_neg Bool.false_ne_true, if_neg Bool.false_ne_true, get_bind]
    simp only [Document.placeAt, Document.cursor_pos, hspot]
    rfl

/-- From this cursor the reader ends with a reading's result and leaves its diagnostics. -/
def Answers (f : Machine d α) (c : Cursor d) (reading : Reading α) : Prop :=
  ∃ last, f c = some (reading.result.mapError Halt.fault, last) ∧
    last.errors = reading.diagnostics

/-- One pass from the beginning of the document. Behind a miss of the thorough pass the cursor
is where reading stopped. -/
def PassesAs (pass : Mode → Nat → Machine d α) (clock : Nat) (p : Mode → Pass α) : Prop :=
  ∀ mode, ∃ r, pass mode clock (start d) = some r ∧
    PassTold d (.ofList d.lexical) id
      (fun m a c => mode = .thorough → MissedAt d none (.ofList d.lexical) m a c) (p mode) r

theorem diagnosticsWith_eq (found : List Diagnostic) :
    d.diagnosticsWith found = (DiagnosticSet.ofList d.lexical).insertAll found :=
  List.foldl_append

theorem conclude_answers (hd : d.Whole) {pass : Mode → Nat → Machine d α} {p : Mode → Pass α}
    (hpass : PassesAs pass clock p) (c : Cursor d) :
    Answers (conclude pass clock) c (d.conclude (p .thorough)) := by
  obtain ⟨r, hr, htold⟩ := hpass .thorough
  rw [Answers, conclude, rewind_bind, bind_ok (attempt_of hr)]
  generalize p .thorough = q at htold
  cases htold with
  | @finished v rest found s hrest =>
    have hspurious := reportSpurious_cursor (e := (DiagnosticSet.ofList d.lexical).insertAll found)
      hd hrest s
    refine ⟨_, (bind_ok hspurious _).trans rfl, ?_⟩
    rw [Document.conclude, diagnosticsWith_eq]
    exact List.foldl_append.symm
  | @missed m a c hrest hmissed =>
    obtain ⟨hknown, rfl⟩ := hmissed rfl
    exact ⟨_, (bind_ok (report_cursor hrest hknown) _).trans rfl,
      (diagnosticsWith_eq [d.report m a]).symm⟩
  | tooDeep => exact ⟨_, rfl, (diagnosticsWith_eq _).symm⟩

theorem drive_answers (hd : d.Whole) {pass : Mode → Nat → Machine d α} {p : Mode → Pass α}
    (hpass : PassesAs pass clock p) (c : Cursor d) :
    Answers (drive pass clock) c (d.drive p) := by
  rw [Answers, drive, Document.drive]
  by_cases htwo : d.options.twoPass = true
  · obtain ⟨r, hr, htold⟩ := hpass .fast
    rw [if_pos htwo, if_pos htwo, rewind_bind, bind_ok (attempt_of hr)]
    -- Where the fast pass left the cursor is of no account: rewinding forgets it.
    generalize p .fast = q at htold
    cases htold with
    | @finished v rest found s hrest =>
      cases rest with
      | nil =>
        exact ⟨_, (atEnd_bind hd hrest _ rfl).trans rfl, (diagnosticsWith_eq found).symm⟩
      | cons l others =>
        obtain ⟨last, hlast, herrors⟩ := conclude_answers hd hpass
          { d.cursor (l :: others) 0 none
            ((DiagnosticSet.ofList d.lexical).insertAll found) with furthest := s }
        exact ⟨last, (atEnd_bind hd hrest _ rfl).trans hlast, herrors⟩
    | missed _ _ => exact conclude_answers hd hpass _
    | tooDeep => exact ⟨_, rfl, (diagnosticsWith_eq _).symm⟩
  · rw [if_neg htwo, if_neg htwo]
    exact conclude_answers hd hpass c

end Machine

/-! ## Every text, every kind of document -/

namespace Entry

variable {d : Document} {clock : Nat}

/-- What reading a document by recursion on what is left comes to. -/
def reading (d : Document) : (e : Entry) → Reading e.Answer
  | term => d.term
  | terms => d.terms
  | soleVariable => d.soleVariable
  | query => d.query
  | queries => d.queries
  | update => d.update
  | program => d.program

/-- What one pass by recursion comes to. -/
def passOf (d : Document) : (e : Entry) → Mode → Pass e.Found
  | term => d.onePass fun t place => .ok ⟨t, place⟩
  | terms => d.termsPass
  | soleVariable => d.variablePass
  | query => d.onePass Document.queryOf
  | queries => fun mode => d.clausesPass .queries Document.queryOf mode d.lexemes
  | update => d.onePass Update.ofTerm
  | program => fun mode => d.clausesPass .program Clause.ofTerm mode d.lexemes

theorem reading_eq (e : Entry) : e.reading d = (d.drive (e.passOf d)).map e.answer := by
  cases e with
  | soleVariable => exact (Reading.map_id _).symm
  | _ => rfl

/-- So many ticks are enough for any pass over the document. -/
def ticks (d : Document) : Nat := Machine.ticks d d.options.maxDepth + d.lexemes.length + 1

theorem pass_told (hd : d.Whole) (e : Entry) (hclock : ticks d ≤ clock) :
    Machine.PassesAs (d := d) e.pass clock (e.passOf d) := by
  have hterm : Machine.ticks d d.options.maxDepth ≤ clock := by
    unfold ticks at hclock
    omega
  have honce : ∀ {α : Type} (classify : Term → Place → Except ClauseError α),
      Machine.PassesAs (d := d) (Machine.onePass classify) clock (d.onePass classify) := by
    intro α classify mode
    obtain ⟨r, hr, htold⟩ := Machine.onePass_told hd classify mode hterm
    exact ⟨r, hr, htold.mono fun _ _ _ h _ => h⟩
  have hclauses : ∀ {α : Type} (rule : Rule) (classify : Term → Place → Except ClauseError α),
      Machine.PassesAs (d := d) (fun mode clock => .clauses rule classify mode clock []) clock
        (fun mode => d.clausesPass rule classify mode d.lexemes) := by
    intro α rule classify mode
    obtain ⟨r, hr, htold⟩ := Machine.clauses_told hd rule classify mode [] d.lexemes
      (.ofList d.lexical) none (List.suffix_refl _) hclock
    refine ⟨r, hr, htold.mono fun _ _ _ hfast hthorough => ?_⟩
    -- The thorough loop reports its misses itself and never ends with one.
    rw [hfast] at hthorough
    cases hthorough
  cases e with
  | term => exact honce _
  | terms =>
    intro mode
    obtain ⟨r, hr, htold⟩ := Machine.termsPass_told hd mode hclock
    exact ⟨r, hr, htold.mono fun _ _ _ h _ => h⟩
  | soleVariable =>
    intro mode
    obtain ⟨r, hr, htold⟩ := Machine.variablePass_told hd mode clock
    exact ⟨r, hr, htold.mono fun _ _ _ h _ => h⟩
  | query => exact honce _
  | queries => exact hclauses _ _
  | update => exact honce _
  | program => exact hclauses _ _

/-- Reading by a cursor comes to what reading by recursion does. -/
theorem parse_answers (hd : d.Whole) (e : Entry) (hclock : ticks d ≤ clock) (c : Cursor d) :
    Machine.Answers (e.parse clock) c (e.reading d) := by
  obtain ⟨last, hlast, herrors⟩ := Machine.drive_answers hd (e.pass_told hd hclock) c
  rw [reading_eq]
  refine ⟨last, ?_, herrors⟩
  rw [parse]
  cases hresult : (d.drive (e.passOf d)).result with
  | ok found =>
    rw [hresult] at hlast
    rw [Machine.bind_ok hlast, Reading.map, hresult]
    rfl
  | error fault =>
    rw [hresult] at hlast
    rw [Machine.bind_error hlast, Reading.map, hresult]
    rfl

end Entry

end Clausal
