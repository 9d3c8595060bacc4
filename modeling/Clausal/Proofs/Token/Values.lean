import Clausal.Proofs.Token.Munch
import Clausal.Proofs.Token.Run
import Mathlib.Data.List.TakeWhile

/-
  Values — what the tokens of a text may hold

  A variable is named by an underscore or an uppercase letter and identifier
  characters, and a whole number is not too large. A name that stands bare is a run
  of identifier characters or of symbols, or `!` or `;`: the two pairs of brackets are
  never a bare name, only a quoted one.

  What is proved:
    1. `numeral_wellFormed` — a numeral is a float or a number that is not too large.
    2. `scan_wellFormed` — so every token holds what it may.
    3. `tokenize_wellFormed` — and every token of a text.
-/

namespace Clausal

/-- The names that are written as two brackets. -/
def bracketNames : List String := ["[]", "\x7b\x7d"]

/-- The token holds a value that such a token may hold. -/
def Token.WellFormed : Token → Prop
  | .var v => Text.IsVariableName v
  | .integer n => n ≤ Text.maxInteger
  | .name text => text ∉ bracketNames
  | _ => True

namespace Text

theorem toNat_le_maxInteger (c : Char) : c.toNat ≤ maxInteger :=
  Nat.le_trans (Nat.le_of_lt c.val.toNat_lt) (by decide)

/-! ## Numerals -/

theorem integerOr_wellFormed {fault : LexicalFault} {n : Nat} {token : Token}
    (h : integerOr fault n = .ok token) : token.WellFormed := by
  unfold integerOr at h
  split at h
  · rename_i hle
    obtain rfl := Except.ok.inj h
    exact hle
  · cases h

theorem charCode_wellFormed {cs : List Char} {token : Token} (h : (charCode cs).value = .ok token) :
    token.WellFormed := by
  cases cs with
  | nil => cases h
  | cons c rest =>
    simp only [charCode] at h
    split at h
    · simp only [Taken.behind, Taken.map] at h
      split at h
      · obtain rfl := Except.ok.inj h
        exact toNat_le_maxInteger _
      · cases h
      · cases h
    · split at h
      · obtain rfl := Except.ok.inj h
        show 39 ≤ maxInteger
        decide
      · obtain rfl := Except.ok.inj h
        exact toNat_le_maxInteger c

theorem decimalNumeral_wellFormed {cs : List Char} {token : Token}
    (h : (decimalNumeral cs).value = .ok token) : token.WellFormed := by
  unfold decimalNumeral at h
  split at h
  · split at h
    · obtain rfl := Except.ok.inj h
      trivial
    · exact integerOr_wellFormed h
  · exact integerOr_wellFormed h

theorem numeral_wellFormed {cs : List Char} {token : Token} (h : (numeral cs).value = .ok token) :
    token.WellFormed := by
  unfold numeral at h
  split at h
  · exact charCode_wellFormed h
  · split at h
    · split at h
      · exact integerOr_wellFormed h
      · exact decimalNumeral_wellFormed h
    · exact decimalNumeral_wellFormed h
  · exact decimalNumeral_wellFormed h

/-! ## Tokens of every kind -/

theorem soloToken_wellFormed {c : Char} {token : Token} (h : soloToken c = some token) :
    token.WellFormed := by
  unfold soloToken at h
  split at h <;> cases h <;> simp [Token.WellFormed, bracketNames]

theorem quotedToken_wellFormed {c : Char} {make : String → Token} {contents : Contents}
    {token : Token} (hmake : quoteToken c = some make)
    (h : quotedToken make contents = .ok token) : token.WellFormed := by
  unfold quotedToken at h
  split at h
  · obtain rfl := Except.ok.inj h
    unfold quoteToken at hmake
    split at hmake <;> cases hmake <;> trivial
  · cases h
  · cases h

/-- A name that begins with another character than a bracket is no pair of brackets. -/
theorem bare_wellFormed {c : Char} {tail : List Char} (h : c ∉ ['[', '{']) :
    (Token.name (String.ofList (c :: tail))).WellFormed := by
  intro hmem
  simp only [bracketNames, List.mem_cons, List.not_mem_nil, or_false] at hmem
  rcases hmem with heq | heq
  all_goals
    have hchars := congrArg String.toList heq
    rw [String.toList_ofList] at hchars
    obtain ⟨rfl, _⟩ := List.cons.inj hchars
    exact h (by decide)

theorem scan_wellFormed {c : Char} {rest : List Char} {token : Token}
    (h : (scan c rest).value = .ok token) : token.WellFormed := by
  unfold scan at h
  split at h
  · rename_i hsolo
    obtain rfl := Except.ok.inj h
    exact soloToken_wellFormed hsolo
  · rename_i hquote
    exact quotedToken_wellFormed hquote h
  · split at h
    · exact numeral_wellFormed h
    · split at h
      · rename_i hletter
        obtain rfl := Except.ok.inj h
        split
        · rename_i hvar
          refine ⟨c, rest.takeWhile isIdentChar, String.toList_ofList, by simpa using hvar, ?_⟩
          exact fun d hd => List.mem_takeWhile_imp hd
        · exact bare_wellFormed (not_mem_of_class
            (p := fun d => isAlphabetic d || isUppercase d || d == '_') (by decide) hletter)
      · split at h
        · obtain rfl := Except.ok.inj h
          trivial
        · split at h
          · rename_i hsymbol
            obtain rfl := Except.ok.inj h
            exact bare_wellFormed (not_mem_of_class (p := isSymbolChar) (by decide) hsymbol)
          · cases h

end Text

/-! ## Tokens of a text -/

namespace Lexer

theorem take_wellFormed {l after : Lexer} {gap : Bool} {c : Char} {rest : List Char}
    {lexeme : Lexeme} (h : l.take gap c rest = (.ok lexeme, after)) : lexeme.token.WellFormed := by
  unfold take at h
  obtain ⟨hresult, _⟩ := Prod.mk.inj h
  split at hresult
  · rename_i hvalue
    obtain rfl := Except.ok.inj hresult
    exact Text.scan_wellFormed hvalue
  · cases hresult

theorem run_wellFormed (l : Lexer) : ∀ k ∈ l.run.lexemes, k.token.WellFormed := by
  cases hrest : l.skipLayout.2.rest with
  | nil =>
    rw [run_of_end hrest]
    exact fun k hk => absurd hk List.not_mem_nil
  | cons c rest =>
    cases htake : l.skipLayout.2.take l.skipLayout.1 c rest with
    | mk result after =>
      have hlt := rest_length_lt hrest htake
      cases result with
      | ok lexeme =>
        rw [run_of_lexeme hrest htake]
        exact List.forall_mem_cons.mpr ⟨take_wellFormed htake, run_wellFormed after⟩
      | error e =>
        rw [run_of_error hrest htake]
        exact run_wellFormed _
termination_by l.rest.length

end Lexer

theorem tokenize_wellFormed (text : String) (origin : Position) :
    ∀ l ∈ (tokenize text origin).lexemes, l.token.WellFormed :=
  Lexer.run_wellFormed _

end Clausal
