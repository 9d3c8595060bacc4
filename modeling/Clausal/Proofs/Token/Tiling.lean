import Clausal.Proofs.Token.Layout
import Mathlib.Data.List.DropRight
import Mathlib.Data.List.Pairwise

/-
  Tiling — every character of a text is read once

  Layout, lexemes and errors lie in a text like tiles, one behind the other
  without a gap. A comment that is left open is an error, and like layout to
  the lexeme that ends the text. What the lexer returns are the tiles that are
  lexemes and those that are errors, and each of them says where it lies:
  lines and columns are what counting in the text before it gives.

  What is proved:
    1. `Position.after_eq_counted` — positions are counted right.
    2. `scan_inText` — only the end of the text gives the token for it, and no
       token leaves a comment open.
    3. `Lexer.run_tiled` — the lexer reads a text as its tiles.
    4. `Lexer.run_spread` — so lexemes begin one behind the other, and errors
       begin elsewhere.
    5. `tokenize_accounts` — every character of a text is accounted for once.
-/

namespace Clausal

/-! ## Counted positions -/

/-- The position behind a text as one counts it: the line ends in the text, the
characters behind the last of them, and all characters. -/
def Position.counted (origin : Position) (text : List Char) : Position where
  line := origin.line + text.count '\n'
  column :=
    if '\n' ∈ text then (text.rtakeWhile (· != '\n')).length + 1 else origin.column + text.length
  offset := origin.offset + text.length

theorem Position.after_eq_counted (origin : Position) (text : List Char) :
    origin.after text = origin.counted text := by
  induction text using List.reverseRecOn with
  | nil => simp [counted]
  | append_singleton text c ih =>
    rw [after_append, ih, after_cons, after_nil, step]
    by_cases hc : c = '\n'
    · simp [counted, hc, Nat.add_assoc]
    · by_cases hmem : '\n' ∈ text <;>
        simp [counted, hc, Ne.symm hc, hmem, Nat.add_assoc]

/-- Where the text `here` lies behind the text `before`. -/
def Span.counted (origin : Position) (before here : List Char) : Span :=
  ⟨(origin.counted before).line, (origin.counted before).column, origin.offset + before.length,
    origin.offset + before.length + here.length⟩

theorem Span.between_eq_counted (origin : Position) (before here : List Char) :
    Span.between (origin.after before) ((origin.after before).after here) =
      Span.counted origin before here := by
  rw [← Position.after_append, Position.after_eq_counted, Position.after_eq_counted]
  simp [between, counted, Position.counted, Nat.add_assoc]

/-- The stretch is not empty, and it ends before the other one begins. -/
def Span.Before (s t : Span) : Prop := s.start < s.stop ∧ s.stop ≤ t.start

theorem Span.Before.start_lt {s t : Span} (h : s.Before t) : s.start < t.start :=
  Nat.lt_of_lt_of_le h.1 h.2

/-- The character with this offset is one of the stretch. -/
def Span.covers (s : Span) (offset : Nat) : Bool := decide (s.start ≤ offset ∧ offset < s.stop)

/-! ## Tiles -/

/-- A stretch of layout, a lexeme, or an error. -/
inductive Tile where
  | layout (span : Span)
  | lexeme (l : Lexeme)
  | error (e : LexicalError)

namespace Tile

def span : Tile → Span
  | .layout span => span
  | .lexeme l => l.span
  | .error e => e.span

def lexeme? : Tile → Option Lexeme
  | .lexeme l => some l
  | _ => none

def error? : Tile → Option LexicalError
  | .error e => some e
  | _ => none

@[simp] theorem lexeme?_eq_some_iff {t : Tile} {l : Lexeme} :
    t.lexeme? = some l ↔ t = .lexeme l := by
  cases t <;> simp [lexeme?]

@[simp] theorem error?_eq_some_iff {t : Tile} {e : LexicalError} :
    t.error? = some e ↔ t = .error e := by
  cases t <;> simp [error?]

theorem mem_lexemes {ts : List Tile} {l : Lexeme} :
    l ∈ ts.filterMap lexeme? ↔ .lexeme l ∈ ts := by
  simp [List.mem_filterMap]

theorem mem_errors {ts : List Tile} {e : LexicalError} :
    e ∈ ts.filterMap error? ↔ .error e ∈ ts := by
  simp [List.mem_filterMap]

/-- Layout, or a comment that is left open. -/
def isLayout : Tile → Bool
  | .layout _ => true
  | .lexeme _ => false
  | .error e => e.fault = .unterminatedComment

/-- The tile is what the text `here` is, in front of the text `more`. -/
def Describes (here more : List Char) : Tile → Prop
  | .layout _ => Text.LayoutRun here more ∧ Text.NoLayout more
  | .lexeme l => l.token ≠ .endOfText ∧ Text.TokenAhead (here ++ more)
  | .error e =>
    if e.fault = .unterminatedComment then Text.Unclosed here ∧ more = []
    else Text.TokenAhead (here ++ more)

end Tile

/-- The tiles of a text that stands behind `before`, up to the lexeme that ends it. Layout
stands directly before it if `gap` says so. -/
inductive Tiles (origin : Position) :
    Bool → List Char → List Char → List Tile → Lexeme → Prop where
  | done {gap : Bool} {before : List Char} :
    Tiles origin gap before [] [] ⟨.endOfText, .counted origin before [], gap⟩
  | tile {gap : Bool} {before here more : List Char} {t : Tile} {ts : List Tile} {eof : Lexeme} :
    here ≠ [] → t.span = .counted origin before here → t.Describes here more →
    (∀ l ∈ t.lexeme?, l.layoutBefore = gap) →
    Tiles origin t.isLayout (before ++ here) more ts eof →
    Tiles origin gap before (here ++ more) (t :: ts) eof

namespace Tiles

variable {origin : Position} {gap : Bool} {before rest : List Char} {ts : List Tile} {eof : Lexeme}

theorem placed (h : Tiles origin gap before rest ts eof) :
    ∀ t ∈ ts, ∃ skipped here more, rest = skipped ++ (here ++ more) ∧ here ≠ [] ∧
      t.span = .counted origin (before ++ skipped) here ∧ t.Describes here more := by
  induction h with
  | done => exact fun t ht => absurd ht List.not_mem_nil
  | @tile _ before here more _ _ _ hne hspan hdescribes _ _ ih =>
    refine List.forall_mem_cons.mpr ⟨?_, fun t ht => ?_⟩
    · exact ⟨[], here, more, rfl, hne, by rw [List.append_nil, hspan], hdescribes⟩
    · obtain ⟨skipped, here', more', rfl, hrest⟩ := ih t ht
      refine ⟨here ++ skipped, here', more', (List.append_assoc _ _ _).symm, ?_⟩
      rwa [← List.append_assoc]

theorem within (h : Tiles origin gap before rest ts eof) {t : Tile} (ht : t ∈ ts) :
    origin.offset + before.length ≤ t.span.start ∧ t.span.start < t.span.stop ∧
      t.span.stop ≤ origin.offset + before.length + rest.length := by
  obtain ⟨skipped, here, more, rfl, hne, hspan, _⟩ := h.placed t ht
  have := List.length_pos_iff.mpr hne
  rw [hspan]
  simp only [Span.counted, List.length_append]
  omega

theorem end_eq (h : Tiles origin gap before rest ts eof) :
    eof.token = .endOfText ∧ eof.span = .counted origin (before ++ rest) [] := by
  induction h with
  | done => simp
  | tile _ _ _ _ _ ih => rwa [List.append_assoc] at ih

theorem ordered (h : Tiles origin gap before rest ts eof) :
    ts.Pairwise fun t u => t.span.Before u.span := by
  induction h with
  | done => exact .nil
  | tile hne hspan _ _ hts ih =>
    refine List.pairwise_cons.mpr ⟨fun u hu => ?_, ih⟩
    have hlength := List.length_pos_iff.mpr hne
    have hbehind := (hts.within hu).1
    rw [List.length_append] at hbehind
    rw [hspan]
    simp only [Span.Before, Span.counted]
    omega

/-- Tiles that are not the same do not overlap. -/
theorem apart (h : Tiles origin gap before rest ts eof) {t u : Tile} (ht : t ∈ ts) (hu : u ∈ ts)
    (hne : t ≠ u) : t.span.Before u.span ∨ u.span.Before t.span := by
  let R (t u : Tile) := t.span.Before u.span ∨ u.span.Before t.span
  have : Std.Symm R := ⟨fun _ _ => Or.symm⟩
  have hordered : ts.Pairwise R := h.ordered.imp Or.inl
  exact hordered.forall ht hu hne

theorem before_end (h : Tiles origin gap before rest ts eof) {t : Tile} (ht : t ∈ ts) :
    t.span.Before eof.span := by
  obtain ⟨_, hnonempty, hstop⟩ := h.within ht
  refine ⟨hnonempty, ?_⟩
  rw [h.end_eq.2]
  simpa [Span.counted, Nat.add_assoc] using hstop

theorem lexemes_ordered (h : Tiles origin gap before rest ts eof) :
    (ts.filterMap Tile.lexeme? ++ [eof]).Pairwise fun l k => l.span.Before k.span := by
  refine List.pairwise_append.mpr ⟨?_, List.pairwise_singleton .., ?_⟩
  · refine h.ordered.filterMap _ fun t u hbefore l hl k hk => ?_
    rw [Tile.lexeme?_eq_some_iff] at hl hk
    rwa [hl, hk] at hbefore
  · intro l hl k hk
    rw [List.mem_singleton.mp hk]
    exact h.before_end (Tile.mem_lexemes.mp hl)

theorem errors_ordered (h : Tiles origin gap before rest ts eof) :
    (ts.filterMap Tile.error?).Pairwise fun e f => e.span.Before f.span := by
  refine h.ordered.filterMap _ fun t u hbefore e he f hf => ?_
  rw [Tile.error?_eq_some_iff] at he hf
  rwa [he, hf] at hbefore

/-- Every character lies in one tile. -/
theorem once (h : Tiles origin gap before rest ts eof) {i : Nat} (hi : i < rest.length) :
    ts.countP (·.span.covers (origin.offset + before.length + i)) = 1 := by
  induction h generalizing i with
  | done => exact absurd hi (Nat.not_lt_zero i)
  | @tile _ before here more t ts _ _ hspan _ _ hts ih =>
    rw [List.length_append] at hi
    rw [List.countP_cons]
    by_cases hin : i < here.length
    · have hcovers : t.span.covers (origin.offset + before.length + i) = true := by
        simp only [hspan, Span.covers, Span.counted, decide_eq_true_eq]
        omega
      have hnone : ts.countP (·.span.covers (origin.offset + before.length + i)) = 0 := by
        refine List.countP_eq_zero.mpr fun u hu => ?_
        have hbehind := (hts.within hu).1
        rw [List.length_append] at hbehind
        simp only [Span.covers, decide_eq_true_eq]
        omega
      rw [hnone, if_pos hcovers]
    · have hcovers : ¬ t.span.covers (origin.offset + before.length + i) = true := by
        simp only [hspan, Span.covers, Span.counted, decide_eq_true_eq]
        omega
      have hbehind := @ih (i - here.length) (by omega)
      rw [List.length_append, show origin.offset + (before.length + here.length) +
        (i - here.length) = origin.offset + before.length + i by omega] at hbehind
      rw [hbehind, if_neg hcovers]

/-- The lexemes of a text, with the one that ends it, begin behind what stands before it. -/
theorem start_le (h : Tiles origin gap before rest ts eof) :
    ∀ l ∈ ts.filterMap Tile.lexeme? ++ [eof], origin.offset + before.length ≤ l.span.start := by
  intro l hl
  rcases List.mem_append.mp hl with hl | hl
  · exact (h.within (Tile.mem_lexemes.mp hl)).1
  · rw [List.mem_singleton.mp hl, h.end_eq.2]
    simp only [Span.counted, List.length_append]
    omega

/-- A lexeme says whether layout ends where it begins. -/
theorem layoutBefore_iff (h : Tiles origin gap before rest ts eof) :
    ∀ l ∈ ts.filterMap Tile.lexeme? ++ [eof], (l.layoutBefore = true ↔
      (gap = true ∧ l.span.start = origin.offset + before.length) ∨
      ∃ t ∈ ts, t.isLayout = true ∧ t.span.stop = l.span.start) := by
  induction h with
  | done =>
    refine List.forall_mem_singleton.mpr ?_
    simp [Span.counted]
  | @tile gap before here more t ts eof hne hspan hdescribes hgap hts ih =>
    have hlength := List.length_pos_iff.mpr hne
    have hstop : t.span.stop = origin.offset + (before ++ here).length := by
      rw [hspan, List.length_append]
      exact Nat.add_assoc _ _ _
    intro l hl
    by_cases hlater : l ∈ ts.filterMap Tile.lexeme? ++ [eof]
    · -- It does not begin where the text does, so layout before it is one of the tiles.
      have hstart := hts.start_le l hlater
      have hnot : l.span.start ≠ origin.offset + before.length := by
        rw [List.length_append] at hstart
        omega
      rw [ih l hlater, List.exists_mem_cons_iff, hstop]
      simp only [hnot, and_false, false_or, eq_comm]
    · obtain rfl : t = .lexeme l := by
        rw [List.mem_append, Tile.mem_lexemes, List.mem_cons] at hl
        rw [List.mem_append, Tile.mem_lexemes] at hlater
        tauto
      have hstart : l.span.start = origin.offset + before.length := congrArg Span.start hspan
      rw [hgap l rfl]
      refine ⟨fun h => .inl ⟨h, hstart⟩, ?_⟩
      rintro (⟨h, _⟩ | ⟨u, hu, hlayout, hends⟩)
      · exact h
      · rcases List.mem_cons.mp hu with rfl | hu
        · cases hlayout
        · obtain ⟨hbehind, hnonempty, _⟩ := hts.within hu
          rw [List.length_append] at hbehind
          omega

end Tiles

/-! ## What stands in a text -/

namespace Text

/-- A token that is not the end of the text, or a fault that leaves no comment open. -/
def InText : Except LexicalFault Token → Prop
  | .ok token => token ≠ .endOfText
  | .error fault => fault ≠ .unterminatedComment

theorem integerOr_inText (fault : LexicalFault) (h : fault ≠ .unterminatedComment) (n : Nat) :
    InText (integerOr fault n) := by
  unfold integerOr
  split
  · exact nofun
  · exact h

theorem charCode_inText (cs : List Char) : InText (charCode cs).value := by
  cases cs with
  | nil => simp [charCode, InText]
  | cons c rest =>
    simp only [charCode]
    split
    · simp only [Taken.behind, Taken.map]
      split <;> simp [InText]
    · split <;> simp [InText]

theorem radixInteger_inText (radix : Nat) (cs : List Char) :
    InText (radixInteger radix cs).value :=
  integerOr_inText .radixOutOfRange nofun _

theorem wholeNumeral_inText (whole : DigitRun) : InText (wholeNumeral whole).value :=
  integerOr_inText (.integerOutOfRange whole.digits) nofun _

theorem decimalNumeral_inText (cs : List Char) : InText (decimalNumeral cs).value := by
  unfold decimalNumeral
  split
  · split
    · exact nofun
    · exact wholeNumeral_inText _
  · exact wholeNumeral_inText _

theorem numeral_inText (cs : List Char) : InText (numeral cs).value := by
  unfold numeral
  split
  · exact charCode_inText _
  · split
    · split
      · exact radixInteger_inText _ _
      · exact decimalNumeral_inText _
    · exact decimalNumeral_inText _
  · exact decimalNumeral_inText _

theorem quotedToken_inText {c : Char} {make : String → Token} (h : quoteToken c = some make)
    (contents : Contents) : InText (quotedToken make contents) := by
  unfold quotedToken
  split
  · unfold quoteToken at h
    split at h <;> cases h <;> exact nofun
  · exact nofun
  · exact nofun

/-- The end of the text and an open comment are found before tokens are read. -/
theorem scan_inText (c : Char) (rest : List Char) : InText (scan c rest).value := by
  unfold scan
  split
  · rename_i hsolo
    unfold soloToken at hsolo
    split at hsolo <;> cases hsolo <;> exact nofun
  · rename_i hquote
    exact quotedToken_inText hquote _
  · split
    · exact numeral_inText _
    · split
      · simp only
        split <;> exact nofun
      · split
        · exact nofun
        · split <;> exact nofun

end Text

/-! ## The lexer reads tiles -/

/-- The lexemes of a text, with the one that ends it. -/
def Lexed.all (r : Lexed) : List Lexeme := r.lexemes ++ [r.eof]

/-- What was read of a text behind `before`, when some errors had been recorded earlier: its
tiles that are lexemes, and those that are errors. -/
structure Lexed.Tiled (r : Lexed) (origin : Position) (gap : Bool) (before rest : List Char)
    (earlier : List LexicalError) (ts : List Tile) : Prop where
  tiles : Tiles origin gap before rest ts r.eof
  lexemes : r.lexemes = ts.filterMap Tile.lexeme?
  errors : r.errors = earlier ++ ts.filterMap Tile.error?

namespace Lexed.Tiled

variable {r : Lexed} {origin : Position} {gap : Bool} {before here more : List Char}
  {earlier : List LexicalError} {ts : List Tile}

/-- With layout before it, if there is any. -/
theorem layout (hrun : Text.LayoutRun here more) (hmore : Text.NoLayout more)
    (h : r.Tiled origin (!here.isEmpty) (before ++ here) more earlier ts) :
    ∃ ts, r.Tiled origin false before (here ++ more) earlier ts := by
  cases here with
  | nil => exact ⟨ts, by simpa using h⟩
  | cons c here =>
    refine ⟨.layout (.counted origin before (c :: here)) :: ts, ?_, h.lexemes, h.errors⟩
    exact .tile (List.cons_ne_nil _ _) rfl ⟨hrun, hmore⟩ nofun h.tiles

theorem behindLayout {cs : List Char}
    (h : r.Tiled origin (!(Text.layout cs).skipped.isEmpty) (before ++ (Text.layout cs).skipped)
      ((Text.layout cs).unclosed ++ (Text.layout cs).rest) earlier ts) :
    ∃ ts, r.Tiled origin false before cs earlier ts := by
  have hlayout := h.layout (Text.layout_run cs) (Text.noLayout_behind cs)
  rwa [← List.append_assoc, Text.layout_append] at hlayout

/-- With a lexeme more before it. -/
theorem lexeme {token : Token} (hne : here ≠ []) (htoken : token ≠ .endOfText)
    (hahead : Text.TokenAhead (here ++ more))
    (h : r.Tiled origin false (before ++ here) more earlier ts) :
    let l : Lexeme := ⟨token, .counted origin before here, gap⟩
    Tiled { r with lexemes := l :: r.lexemes } origin gap before (here ++ more) earlier
      (.lexeme l :: ts) := by
  refine ⟨.tile hne rfl ⟨htoken, hahead⟩ ?_ h.tiles, congrArg _ h.lexemes, h.errors⟩
  rintro l ⟨⟩
  rfl

/-- With an error more before it. -/
theorem fault {fault : LexicalFault} (hne : here ≠ []) (hfault : fault ≠ .unterminatedComment)
    (hahead : Text.TokenAhead (here ++ more))
    (h : r.Tiled origin false (before ++ here) more
      (earlier ++ [⟨fault, .counted origin before here⟩]) ts) :
    r.Tiled origin gap before (here ++ more) earlier
      (.error ⟨fault, .counted origin before here⟩ :: ts) := by
  have hlayout : (Tile.error ⟨fault, .counted origin before here⟩).isLayout = false :=
    decide_eq_false hfault
  refine ⟨.tile hne rfl ?_ nofun (hlayout ▸ h.tiles), h.lexemes, ?_⟩
  · rwa [Tile.Describes, if_neg hfault]
  · rw [h.errors, List.append_assoc]
    rfl

/-- With nothing but an open comment before its end. -/
theorem comment (hopen : Text.Unclosed here) :
    Tiled ⟨[], ⟨.endOfText, .counted origin (before ++ here) [], true⟩,
        earlier ++ [⟨.unterminatedComment, .counted origin before here⟩]⟩ origin gap before here
      earlier [.error ⟨.unterminatedComment, .counted origin before here⟩] := by
  have hne : here ≠ [] := by
    obtain ⟨body, rfl, _⟩ := hopen
    exact List.cons_ne_nil _ _
  have htiles : Tiles origin gap before (here ++ [])
      [.error ⟨.unterminatedComment, .counted origin before here⟩]
      ⟨.endOfText, .counted origin (before ++ here) [], true⟩ :=
    .tile hne rfl ⟨hopen, rfl⟩ nofun .done
  rw [List.append_nil] at htiles
  exact ⟨htiles, rfl, rfl⟩

end Lexed.Tiled

namespace Lexer

variable {l : Lexer} {origin : Position} {before : List Char}

theorem skipLayout_closed (hposition : l.position = origin.after before)
    (hclosed : (Text.layout l.rest).unclosed = []) :
    l.skipLayout.1 = !(Text.layout l.rest).skipped.isEmpty ∧
      l.skipLayout.2.position = origin.after (before ++ (Text.layout l.rest).skipped) := by
  simp [skipLayout, Text.Layout.isSome, hclosed, hposition, Position.after_append]

/-- A comment that is left open is recorded, and nothing stands behind it. -/
theorem skipLayout_open (hposition : l.position = origin.after before)
    (hopen : (Text.layout l.rest).unclosed ≠ []) :
    l.skipLayout = (true, ⟨[],
      origin.after (before ++ (Text.layout l.rest).skipped ++ (Text.layout l.rest).unclosed),
      l.errors ++ [⟨.unterminatedComment, .counted origin (before ++ (Text.layout l.rest).skipped)
        (Text.layout l.rest).unclosed⟩]⟩) := by
  simp [skipLayout, Text.Layout.isSome, hopen, hposition, Position.after_append,
    Text.layout_rest_of_unclosed hopen, ← Span.between_eq_counted]

theorem eof_eq (hposition : l.position = origin.after before) (gap : Bool) :
    l.eof gap = ⟨.endOfText, .counted origin before [], gap⟩ := by
  rw [eof, hposition, ← Span.between_eq_counted, Position.after_nil]

section

variable {c : Char} {rest : List Char}

/-- The lexer `after` stands behind what is read from `c :: rest`. -/
structure Behind (l : Lexer) (origin : Position) (before : List Char) (c : Char)
    (rest : List Char) (after : Lexer) : Prop where
  left : after.rest = (Text.scan c rest).rest
  position : after.position = origin.after (before ++ (Text.scan c rest).text)
  errors : after.errors = l.errors

theorem take_ok {token : Token} (hposition : l.position = origin.after before)
    (hvalue : (Text.scan c rest).value = .ok token) (gap : Bool) :
    ∃ after, l.take gap c rest =
        (.ok ⟨token, .counted origin before (Text.scan c rest).text, gap⟩, after) ∧
      l.Behind origin before c rest after := by
  simp only [take, hvalue, hposition, Span.between_eq_counted]
  exact ⟨_, rfl, rfl, (Position.after_append ..).symm, rfl⟩

theorem take_fault {fault : LexicalFault} (hposition : l.position = origin.after before)
    (hvalue : (Text.scan c rest).value = .error fault) (gap : Bool) :
    ∃ after, l.take gap c rest =
        (.error ⟨fault, .counted origin before (Text.scan c rest).text⟩, after) ∧
      l.Behind origin before c rest after := by
  simp only [take, hvalue, hposition, Span.between_eq_counted]
  exact ⟨_, rfl, rfl, (Position.after_append ..).symm, rfl⟩

end

/-- Step by step the lexer reads the tiles of a text. -/
theorem run_tiled (l : Lexer) (before : List Char) (hposition : l.position = origin.after before) :
    ∃ ts, l.run.Tiled origin false before l.rest l.errors ts := by
  suffices h : ∃ ts, l.run.Tiled origin (!(Text.layout l.rest).skipped.isEmpty)
      (before ++ (Text.layout l.rest).skipped)
      ((Text.layout l.rest).unclosed ++ (Text.layout l.rest).rest) l.errors ts by
    obtain ⟨ts, hts⟩ := h
    exact hts.behindLayout
  by_cases hopen : (Text.layout l.rest).unclosed = []
  · obtain ⟨hgap, hskipped⟩ := skipLayout_closed hposition hopen
    have herrors := skipLayout_errors hopen
    rw [hopen, List.nil_append]
    cases hrest : (Text.layout l.rest).rest with
    | nil =>
      rw [run_of_end hrest, eof_eq hskipped, hgap, herrors]
      exact ⟨[], .done, rfl, (List.append_nil _).symm⟩
    | cons c rest =>
      have hahead : Text.TokenAhead ((Text.scan c rest).text ++ (Text.scan c rest).rest) :=
        ⟨c, rest, Text.scan_append c rest, Text.beginsToken_of_layout hrest⟩
      have hinText := Text.scan_inText c rest
      have hne := Text.scan_ne_nil c rest
      rw [← Text.scan_append c rest]
      cases hvalue : (Text.scan c rest).value with
      | ok token =>
        rw [hvalue] at hinText
        obtain ⟨after, htake, hafter⟩ := take_ok hskipped hvalue l.skipLayout.1
        have hlt := rest_length_lt hrest htake
        obtain ⟨ts, hts⟩ := run_tiled after _ hafter.position
        rw [hafter.errors, herrors] at hts
        rw [run_of_lexeme hrest htake, hgap, ← hafter.left]
        exact ⟨_, hts.lexeme hne hinText (hafter.left ▸ hahead)⟩
      | error fault =>
        rw [hvalue] at hinText
        obtain ⟨after, htake, hafter⟩ := take_fault hskipped hvalue l.skipLayout.1
        have hlt := rest_length_lt hrest htake
        rw [run_of_error hrest htake, hafter.errors, herrors, ← hafter.left]
        obtain ⟨ts, hts⟩ := run_tiled { after with errors := l.errors ++ [_] } _ hafter.position
        exact ⟨_, hts.fault hne hinText (hafter.left ▸ hahead)⟩
  · have hskip := skipLayout_open hposition hopen
    rw [run_of_end (by rw [hskip]), hskip, eof_eq rfl, Text.layout_rest_of_unclosed hopen,
      List.append_nil]
    exact ⟨_, .comment (Text.unclosed_of_layout hopen)⟩
termination_by l.rest.length

end Lexer

/-- From an offset on the lexemes begin one behind the other, and no error that was
recorded after earlier ones begins where a lexeme does. -/
structure Lexed.Spread (r : Lexed) (offset : Nat) (earlier : List LexicalError) : Prop where
  ascending : r.all.Pairwise fun a b => a.span.start < b.span.start
  behind : ∀ l ∈ r.all, offset ≤ l.span.start
  errors : ∃ new, r.errors = earlier ++ new ∧
    ∀ e ∈ new, offset ≤ e.span.start ∧ ∀ l ∈ r.all, e.span.start ≠ l.span.start

/-- The lexemes of a text begin one behind the other, and errors begin elsewhere. -/
theorem Lexer.run_spread (l : Lexer) : l.run.Spread l.position.offset l.errors := by
  obtain ⟨ts, htiles, hlexemes, herrors⟩ := l.run_tiled [] rfl
  have hall : l.run.all = ts.filterMap Tile.lexeme? ++ [l.run.eof] :=
    congrArg (· ++ [l.run.eof]) hlexemes
  refine ⟨?_, ?_, _, herrors, fun e he => ?_⟩
  · rw [hall]
    exact htiles.lexemes_ordered.imp Span.Before.start_lt
  · rw [hall]
    exact htiles.start_le
  · have he := Tile.mem_errors.mp he
    refine ⟨(htiles.within he).1, fun l hl => ?_⟩
    rw [hall] at hl
    rcases List.mem_append.mp hl with hl | hl
    · rcases htiles.apart he (Tile.mem_lexemes.mp hl) nofun with hbefore | hbefore
      · exact Nat.ne_of_lt hbefore.start_lt
      · exact Nat.ne_of_gt hbefore.start_lt
    · rw [List.mem_singleton.mp hl]
      exact Nat.ne_of_lt (htiles.before_end he).start_lt

/-! ## Every character once -/

/-- What was read of a text are tiles of it, which lie one behind the other, each where it
says, and one of them at every character. -/
structure Lexed.Accounts (r : Lexed) (origin : Position) (text : List Char) (ts : List Tile) :
    Prop where
  lexemes : r.lexemes = ts.filterMap Tile.lexeme?
  errors : r.errors = ts.filterMap Tile.error?
  /-- One lexeme ends the text, behind its last character. -/
  eof : r.eof.token = .endOfText ∧ r.eof.span = .counted origin text []
  tokens : ∀ l ∈ r.lexemes, l.token ≠ .endOfText
  /-- A tile is not empty, and it is what the text is where the tile lies. -/
  placed : ∀ t ∈ ts, ∃ before here more, text = before ++ (here ++ more) ∧ here ≠ [] ∧
    t.span = .counted origin before here ∧ t.Describes here more
  once : ∀ i < text.length, ts.countP (·.span.covers (origin.offset + i)) = 1
  ordered : ts.Pairwise fun t u => t.span.Before u.span
  lexemesOrdered : r.all.Pairwise fun l k => l.span.Before k.span
  errorsOrdered : r.errors.Pairwise fun e f => e.span.Before f.span
  /-- Layout stands before a lexeme that says so, and before no other. -/
  layoutBefore : ∀ l ∈ r.all, (l.layoutBefore = true ↔
    ∃ t ∈ ts, t.isLayout = true ∧ t.span.stop = l.span.start)

/-- Every character of a text lies in one lexeme, in one error or in layout, wherever the text
begins. -/
theorem tokenize_accounts (text : String) (origin : Position) :
    ∃ ts, (tokenize text origin).Accounts origin text.toList ts := by
  obtain ⟨ts, htiles, hlexemes, herrors⟩ := (Lexer.ofText text origin).run_tiled [] rfl
  have hall : (tokenize text origin).all =
      ts.filterMap Tile.lexeme? ++ [(tokenize text origin).eof] :=
    congrArg (· ++ [(tokenize text origin).eof]) hlexemes
  exact ⟨ts, {
    lexemes := hlexemes
    errors := herrors
    eof := htiles.end_eq
    tokens := by
      intro l hl
      obtain ⟨_, _, _, _, _, _, htoken, _⟩ := htiles.placed _ (Tile.mem_lexemes.mp (hlexemes ▸ hl))
      exact htoken
    placed := htiles.placed
    once := fun i hi => htiles.once hi
    ordered := htiles.ordered
    lexemesOrdered := hall ▸ htiles.lexemes_ordered
    errorsOrdered := herrors ▸ htiles.errors_ordered
    layoutBefore := by
      intro l hl
      rw [htiles.layoutBefore_iff l (hall ▸ hl)]
      simp
  }⟩

end Clausal
