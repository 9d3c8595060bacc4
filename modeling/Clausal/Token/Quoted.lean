import Clausal.Text.Digits
import Clausal.Token.Fault

/-
  Quoted text — what stands between two quotes of one kind

  A doubled quote stands for one quote. A backslash begins an escape: a letter,
  a quote, a backslash, a code in octal or hexadecimal digits closed by another
  backslash, or a line end, which stands for nothing. A bad escape spoils the
  text, but reading goes on to the closing quote.

  What is proved:
    1. `escape_append` and `quotedText_append` — nothing is lost: the text read
       and the rest make up the input.
-/

namespace Clausal.Text

/-- Something read, the text it was read from, and what is left. -/
structure Taken (α : Type) where
  value : α
  text : List Char
  rest : List Char

/-- The same reading with more text before it. -/
def Taken.behind {α : Type} (t : Taken α) (text : List Char) : Taken α :=
  { t with text := text ++ t.text }

/-- The same reading with another value. -/
def Taken.map {α β : Type} (f : α → β) (t : Taken α) : Taken β := ⟨f t.value, t.text, t.rest⟩

/-- Two readings one after the other, with the value of both. -/
def Taken.followedBy {α β γ : Type} (first : Taken α) (second : Taken β) (f : α → β → γ) :
    Taken γ :=
  ⟨f first.value second.value, first.text ++ second.text, second.rest⟩

/-! ## Escapes -/

/-- The character with the code that digits spell. -/
def charOfDigits (radix : Nat) (digits : List Char) : Except EscapeFault Char :=
  let code := valueOf radix digits
  if code.isValidChar then .ok (Char.ofNat code) else .error (.invalidCode digits)

/-- The rest of a numeric escape: digits up to a backslash. `digits` have been
read before. The character that is neither is lost with the escape. -/
def numericEscape (radix : Nat) (digits : List Char) :
    List Char → Taken (Except EscapeFault Char)
  | [] => ⟨.error .malformed, [], []⟩
  | c :: rest =>
    if c = '\\' then ⟨charOfDigits radix digits, [c], rest⟩
    else if isDigitIn radix c then (numericEscape radix (digits ++ [c]) rest).behind [c]
    else ⟨.error .malformed, [c], rest⟩

/-- What a single character behind a backslash stands for. -/
def simpleEscape : Char → Option Char
  | 'n' => some '\n'
  | 't' => some '\t'
  | 'r' => some '\r'
  | 'a' => some '\x07'
  | 'b' => some '\x08'
  | 'f' => some '\x0c'
  | 'v' => some '\x0b'
  | 'e' => some '\x1b'
  | '\\' => some '\\'
  | '\'' => some '\''
  | '"' => some '"'
  | '\x60' => some '\x60'
  | _ => none

/-- An escape behind its backslash: the character it stands for, if any. -/
def escape : List Char → Taken (Except EscapeFault (Option Char))
  | [] => ⟨.error .unterminated, [], []⟩
  | c :: rest =>
    if isDigitIn 8 c then ((numericEscape 8 [c] rest).map (·.map some)).behind [c]
    else if c = 'x' then ((numericEscape 16 ['0'] rest).map (·.map some)).behind [c]
    else if c = '\n' then ⟨.ok none, [c], rest⟩
    else
      match simpleEscape c with
      | some d => ⟨.ok (some d), [c], rest⟩
      | none => ⟨.error (.undefined c), [c], rest⟩

theorem numericEscape_append (radix : Nat) (digits cs : List Char) :
    (numericEscape radix digits cs).text ++ (numericEscape radix digits cs).rest = cs := by
  induction cs generalizing digits with
  | nil => rfl
  | cons c rest ih =>
    simp only [numericEscape]
    split
    · rfl
    · split
      · simp [Taken.behind, ih]
      · rfl

theorem escape_append (cs : List Char) : (escape cs).text ++ (escape cs).rest = cs := by
  cases cs with
  | nil => rfl
  | cons c rest =>
    simp only [escape]
    split
    · simp [Taken.behind, Taken.map, numericEscape_append]
    · split
      · simp [Taken.behind, Taken.map, numericEscape_append]
      · split
        · rfl
        · split <;> rfl

theorem escape_length_le (cs : List Char) : (escape cs).rest.length ≤ cs.length := by
  have := congrArg List.length (escape_append cs)
  simp only [List.length_append] at this
  omega

/-! ## Up to the closing quote -/

/-- What quoted text turned out to be: `none` when the input ends before the
closing quote. -/
abbrev Contents := Option (Except EscapeFault (List Char))

/-- The contents with a character before them. -/
def Contents.cons (c : Char) (contents : Contents) : Contents :=
  contents.map (·.map (c :: ·))

/-- The contents with an escape before them; of several bad escapes the first
counts. -/
def Contents.afterEscape (e : Except EscapeFault (Option Char)) (contents : Contents) :
    Contents :=
  match e with
  | .ok (some c) => contents.cons c
  | .ok none => contents
  | .error fault => contents.map fun _ => .error fault

/-- The text up to the closing quote `q`. -/
def quotedText (q : Char) (cs : List Char) : Taken Contents :=
  match cs with
  | [] => ⟨none, [], []⟩
  | c :: rest =>
    if c = q then
      if rest.head? = some q then
        ((quotedText q rest.tail).map (·.cons q)).behind [c, q]
      else ⟨some (.ok []), [c], rest⟩
    else if c = '\\' then
      let e := escape rest
      (e.followedBy (quotedText q e.rest) Contents.afterEscape).behind [c]
    else ((quotedText q rest).map (·.cons c)).behind [c]
termination_by cs.length
decreasing_by
  · simp only [List.length_tail, List.length_cons]
    omega
  · have := escape_length_le rest
    simp only [List.length_cons]
    omega
  · simp

theorem quotedText_append (q : Char) (cs : List Char) :
    (quotedText q cs).text ++ (quotedText q cs).rest = cs := by
  fun_induction quotedText q cs with
  | case1 => rfl
  | case2 rest hq ih =>
    obtain ⟨more, rfl⟩ := List.head?_eq_some_iff.mp hq
    simpa [Taken.behind, Taken.map] using ih
  | case3 => rfl
  | case4 rest _ e ih =>
    simp only [Taken.behind, Taken.followedBy, List.append_assoc, ih, List.cons_append,
      List.nil_append]
    rw [escape_append]
  | case5 c rest _ _ ih => simpa [Taken.behind, Taken.map] using ih

end Clausal.Text
