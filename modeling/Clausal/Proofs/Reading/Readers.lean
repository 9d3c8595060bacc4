import Clausal.Proofs.Reading.Climbing
import Clausal.Proofs.Reading.Cursor
import Clausal.Proofs.Reading.Sound

/-
  Readers by cursor — what it means that one comes to an outcome

  Reading by recursion hands on what is left of the lexemes; reading by cursor has an
  index instead. In front of some lexemes the cursor stands at the index that counts
  those before them. A reader comes to an outcome when from there it ends, with the
  outcome's value, miss or fault to say and with the cursor where the outcome says: it is
  not astray, and between the two places no clause ends.

  What is proved:
    1. `Document.lexemeAt_spotOf` — the lexeme at the index is the one in front.
    2. `bind_comesTo` — readers one after the other come to outcomes one after the other.
    3. `here_comesTo`, `behind_comesTo`, `expect_comesTo`, `miss_comesTo` — the moves of
       the cursor that readers of terms are made of.
    4. `negate_eq` — a number of the text has a negation in 64 bits.
-/

namespace Clausal

/-! ## Lexemes by index -/

/-- `rest` is what is left of `toks` behind some lexemes of one clause. -/
def Within (toks rest : List Lexeme) : Prop :=
  ∃ run, toks = run ++ rest ∧ ∀ l ∈ run, Reading.InClause l

namespace Within

variable {toks part rest : List Lexeme}

theorem refl (toks : List Lexeme) : Within toks toks := ⟨[], rfl, nofun⟩

theorem trans (h : Within toks part) (h' : Within part rest) : Within toks rest := by
  obtain ⟨run, rfl, hrun⟩ := h
  obtain ⟨more, rfl, hmore⟩ := h'
  exact ⟨run ++ more, (List.append_assoc run more rest).symm,
    List.forall_mem_append.mpr ⟨hrun, hmore⟩⟩

theorem tail (hstop : peek toks ≠ .stop) (hend : peek toks ≠ .endOfText) :
    Within toks toks.tail := by
  cases toks with
  | nil => exact refl []
  | cons l rest => exact ⟨[l], rfl, List.forall_mem_singleton.mpr ⟨hstop, hend⟩⟩

theorem suffix (h : Within toks rest) : rest <:+ toks := by
  obtain ⟨run, rfl, _⟩ := h
  exact List.suffix_append run rest

end Within

namespace Document

/-- One lexeme ends the text, the one behind all others, and every number has 64 bits. -/
structure Whole (d : Document) : Prop where
  eof : d.eof.token = .endOfText
  lexemes : ∀ l ∈ d.lexemes, l.token ≠ .endOfText
  integers : ∀ l ∈ d.lexemes, ∀ n, l.token = .integer n → n ≤ Text.maxInteger

variable {d : Document} {toks rest : List Lexeme}

/-- The index of the first of some lexemes. -/
def spotOf (d : Document) (toks : List Lexeme) : d.Spot :=
  ⟨d.lexemes.length - toks.length, by
    rw [all, List.length_append, List.length_singleton]
    omega⟩

/-- A miss by index. -/
def stopOf (d : Document) (m : Miss) : Stop d := ⟨d.spotOf m.rest, m.expected⟩

/-- The cursor in front of some lexemes. -/
def cursor (d : Document) (toks : List Lexeme) (depth : Nat) (furthest : Option Miss)
    (errors : DiagnosticSet) : Cursor d :=
  ⟨d.spotOf toks, depth, furthest.map d.stopOf, errors⟩

@[simp] theorem cursor_pos (toks : List Lexeme) (k : Nat) (g : Option Miss) (e : DiagnosticSet) :
    (d.cursor toks k g e).pos = d.spotOf toks := rfl

@[simp] theorem cursor_depth (toks : List Lexeme) (k : Nat) (g : Option Miss)
    (e : DiagnosticSet) : (d.cursor toks k g e).depth = k := rfl

@[simp] theorem cursor_furthest (toks : List Lexeme) (k : Nat) (g : Option Miss)
    (e : DiagnosticSet) : (d.cursor toks k g e).furthest = g.map d.stopOf := rfl

theorem lexemeAt_spotOf (h : toks <:+ d.lexemes) : d.lexemeAt (d.spotOf toks) = d.front toks := by
  obtain ⟨before, hbefore⟩ := h
  have hspot : (d.spotOf toks).val = before.length := by
    simp only [spotOf, ← hbefore, List.length_append]
    omega
  have hall : d.all = before ++ (toks ++ [d.eof]) := by
    rw [all, ← hbefore, List.append_assoc]
  simp only [lexemeAt, Fin.getElem_fin, hspot, hall]
  cases toks <;> simp [front]

theorem token_front (hd : d.Whole) (toks : List Lexeme) : (d.front toks).token = peek toks := by
  cases toks with
  | nil => exact hd.eof
  | cons l rest => rfl

theorem spotOf_tail (h : toks <:+ d.lexemes) (hne : toks ≠ []) :
    (d.spotOf toks.tail).val = (d.spotOf toks).val + 1 := by
  have hlength := h.length_le
  have hpos := List.length_pos_iff.mpr hne
  simp only [spotOf, List.length_tail]
  omega

theorem spotOf_le_iff {part : List Lexeme} (h : toks <:+ d.lexemes) (hpart : part <:+ d.lexemes) :
    d.spotOf toks ≤ d.spotOf part ↔ part.length ≤ toks.length := by
  have hlength := h.length_le
  have hlength' := hpart.length_le
  simp only [Fin.le_def, spotOf]
  omega

/-- Misses in the document. -/
def Known (d : Document) (g : Option Miss) : Prop := ∀ m ∈ g, m.rest <:+ d.lexemes

theorem known_none : d.Known none := fun _ hm => nomatch hm

theorem Known.furthest {a b : Option Miss} (ha : d.Known a) (hb : d.Known b) :
    d.Known (Miss.furthest a b) :=
  fun m hm => (Outcome.mem_furthest hm).elim (ha m) (hb m)

theorem furthest_stopOf {g : Option Miss} {m : Miss} (hg : d.Known g)
    (hm : m.rest <:+ d.lexemes) :
    Stop.furthest (g.map d.stopOf) (d.stopOf m) = (Miss.furthest g (some m)).map d.stopOf := by
  cases g with
  | none => rfl
  | some earlier =>
    have hle := spotOf_le_iff hm (hg earlier rfl)
    by_cases hlt : m.rest.length < earlier.rest.length
    · have hnot : ¬ d.spotOf m.rest ≤ d.spotOf earlier.rest := by
        rw [hle]
        omega
      simp [Stop.furthest, Miss.furthest, stopOf, hlt, hnot]
    · have hyes : d.spotOf m.rest ≤ d.spotOf earlier.rest := by
        rw [hle]
        omega
      simp [Stop.furthest, Miss.furthest, stopOf, hlt, hyes]

end Document

/-! ## Readers and outcomes -/

namespace Machine

variable {d : Document} {α β : Type} {k : Nat} {g : Option Miss} {e : DiagnosticSet}
  {toks rest : List Lexeme}

theorem bind_ok {f : Machine d α} {c last : Cursor d} {v : α} (h : f c = some (.ok v, last))
    (next : α → Machine d β) : (f >>= next) c = next v last := by
  change (f c).bind _ = _
  rw [h]
  rfl

theorem bind_error {f : Machine d α} {c last : Cursor d} {halt : Halt d}
    (h : f c = some (.error halt, last)) (next : α → Machine d β) :
    (f >>= next) c = some (.error halt, last) := by
  change (f c).bind _ = _
  rw [h]
  rfl

/-- What a reader in front of `toks` has to say and leaves when reading came to an outcome. -/
inductive Told (d : Document) (k : Nat) (g : Option Miss) (e : DiagnosticSet)
    (toks : List Lexeme) : Outcome α → Except (Halt d) α × Cursor d → Prop where
  | read {v : α} {rest : List Lexeme} {a : Option Miss} : Within toks rest →
    d.Known (Miss.furthest g a) →
    Told d k g e toks (.read v rest a) (.ok v, d.cursor rest k (Miss.furthest g a) e)
  | miss {m : Miss} {a : Option Miss} : Within toks m.rest → d.Known (Miss.furthest g a) →
    Told d k g e toks (.miss m a)
      (.error (.miss (d.stopOf m)), d.cursor m.rest k (Miss.furthest g a) e)
  | tooDeep {rest : List Lexeme} {s : Option (Stop d)} : Within toks rest →
    Told d k g e toks (.tooDeep rest)
      (.error (.fault (d.tooDeepAt rest)), { d.cursor rest k g e with furthest := s })

/-- In front of `toks`, within `k` terms, the reader comes to an outcome. -/
def ComesTo (f : Machine d α) (k : Nat) (toks : List Lexeme) (o : Outcome α) : Prop :=
  toks <:+ d.lexemes → ∀ g e, d.Known g →
    ∃ r, f (d.cursor toks k g e) = some r ∧ Told d k g e toks o r

theorem Told.after {o : Outcome α} {a : Option Miss} {r : Except (Halt d) α × Cursor d}
    (hrest : Within toks rest) (h : Told d k (Miss.furthest g a) e rest o r) :
    Told d k g e toks (o.after a) r := by
  cases h with
  | read hwithin hknown =>
    rw [Miss.furthest_assoc] at hknown ⊢
    exact .read (hrest.trans hwithin) hknown
  | miss hwithin hknown =>
    rw [Miss.furthest_assoc] at hknown ⊢
    exact .miss (hrest.trans hwithin) hknown
  | tooDeep hwithin => exact .tooDeep (hrest.trans hwithin)

theorem Told.read_plain {v : α} (hrest : Within toks rest) (hg : d.Known g) :
    Told d k g e toks (.read v rest none) (.ok v, d.cursor rest k g e) := by
  rw [← Miss.furthest_none g] at hg
  have h := Told.read (k := k) (e := e) (v := v) hrest hg
  rwa [Miss.furthest_none] at h

theorem Told.miss_plain {m : Miss} (hrest : Within toks m.rest) (hg : d.Known g) :
    Told (α := α) d k g e toks (.miss m none)
      (.error (.miss (d.stopOf m)), d.cursor m.rest k g e) := by
  rw [← Miss.furthest_none g] at hg
  have h := Told.miss (α := α) (k := k) (e := e) hrest hg
  rwa [Miss.furthest_none] at h

theorem pure_comesTo (v : α) : ComesTo (d := d) (pure v) k toks (.read v toks none) :=
  fun _ _ _ hg => ⟨_, rfl, .read_plain (Within.refl toks) hg⟩

theorem miss_comesTo (expected : Expected) :
    ComesTo (d := d) (α := α) (miss expected) k toks (.miss ⟨toks, expected⟩ none) :=
  fun _ _ _ hg => ⟨_, rfl, .miss_plain (m := ⟨toks, expected⟩) (Within.refl toks) hg⟩

theorem bind_comesTo {f : Machine d α} {next : α → Machine d β} {o : Outcome α}
    {onext : α → List Lexeme → Outcome β} (hf : ComesTo f k toks o)
    (hnext : ∀ v rest a, o = .read v rest a → ComesTo (next v) k rest (onext v rest)) :
    ComesTo (f >>= next) k toks (o.andThen onext) := by
  intro hin g e hg
  obtain ⟨r, hr, htold⟩ := hf hin g e hg
  cases htold with
  | read hwithin hknown =>
    obtain ⟨r, hr', htold⟩ := hnext _ _ _ rfl (hwithin.suffix.trans hin) _ e hknown
    exact ⟨r, (bind_ok hr next).trans hr', htold.after hwithin⟩
  | miss hwithin hknown => exact ⟨_, bind_error hr next, .miss hwithin hknown⟩
  | tooDeep hwithin => exact ⟨_, bind_error hr next, .tooDeep hwithin⟩

theorem map_comesTo {f : Machine d α} {o : Outcome α} (w : α → β) (hf : ComesTo f k toks o) :
    ComesTo (f >>= fun v => pure (w v)) k toks (o.map w) := by
  have hmap : o.map w = o.andThen fun v rest => .read (w v) rest none := by
    cases o <;> simp [Outcome.map, Outcome.andThen, Outcome.after, Miss.furthest_none]
  rw [hmap]
  exact bind_comesTo hf fun v _ _ _ => pure_comesTo (w v)

theorem here_cursor (hin : toks <:+ d.lexemes) :
    here (d.cursor toks k g e) = some (.ok (d.front toks), d.cursor toks k g e) := by
  rw [← Document.lexemeAt_spotOf hin]
  rfl

theorem here_comesTo {next : Lexeme → Machine d β} {o : Outcome β}
    (h : toks <:+ d.lexemes → ComesTo (next (d.front toks)) k toks o) :
    ComesTo (here >>= next) k toks o := by
  intro hin g e hg
  obtain ⟨r, hr, htold⟩ := h hin hin g e hg
  exact ⟨r, (bind_ok (here_cursor hin) next).trans hr, htold⟩

theorem advance_of {c : Cursor d} (hend : (d.lexemeAt c.pos).token ≠ .endOfText)
    (hstop : c.depth ≠ 0 → (d.lexemeAt c.pos).token ≠ .stop)
    (hbound : c.pos.val + 1 < d.all.length) :
    advance c = some (.ok (), { c with pos := ⟨c.pos.val + 1, hbound⟩ }) := by
  have hget : (get : Machine d (Cursor d)) c = some (.ok c, c) := rfl
  have hclause : ¬ (c.depth ≠ 0 ∧
      ((d.lexemeAt c.pos).token = .stop ∨ (d.lexemeAt c.pos).token = .endOfText)) := by
    intro h
    exact h.2.elim (hstop h.1) hend
  rw [advance, bind_ok hget, if_neg hclause, if_neg hend, dif_pos hbound]
  rfl

/-- A cursor in front of a lexeme moves behind it, unless it stands at the end of a clause
within a term. -/
theorem advance_cursor (hd : d.Whole) (hin : toks <:+ d.lexemes) (hend : peek toks ≠ .endOfText)
    (hstop : k ≠ 0 → peek toks ≠ .stop) :
    advance (d.cursor toks k g e) = some (.ok (), d.cursor toks.tail k g e) := by
  have hne : toks ≠ [] := by
    rintro rfl
    exact hend rfl
  have hspot := Document.spotOf_tail hin hne
  rw [← Document.token_front hd, ← Document.lexemeAt_spotOf hin] at hend hstop
  rw [advance_of hend hstop (hspot ▸ (d.spotOf toks.tail).isLt)]
  simp only [Document.cursor, ← hspot]

theorem advance_comesTo (hd : d.Whole) (hstop : peek toks ≠ .stop)
    (hend : peek toks ≠ .endOfText) :
    ComesTo (d := d) advance k toks (.read () toks.tail none) :=
  fun hin _ _ hg => ⟨_, advance_cursor hd hin hend fun _ => hstop,
    .read_plain (Within.tail hstop hend) hg⟩

/-- Behind a token that may stand within a clause. -/
theorem behind_comesTo (hd : d.Whole) {token : Token} {next : Unit → Machine d β} {o : Outcome β}
    (hpeek : peek toks = token) (hclause : token ≠ .stop ∧ token ≠ .endOfText)
    (h : ComesTo (next ()) k toks.tail o) : ComesTo (advance >>= next) k toks o := by
  subst hpeek
  have hbind : ComesTo (advance >>= next) k toks
      ((Outcome.read () toks.tail none).andThen fun _ _ => o) := by
    refine bind_comesTo (advance_comesTo hd hclause.1 hclause.2) fun _ rest _ hread => ?_
    obtain ⟨_, rfl, _⟩ := Outcome.read.inj hread
    exact h
  rwa [Outcome.andThen_read] at hbind

theorem expect_comesTo (hd : d.Whole) {token : Token} (expected : Expected)
    (hstop : token ≠ .stop) (hend : token ≠ .endOfText) :
    ComesTo (d := d) (expect token expected) k toks (Clausal.expect token expected toks) := by
  unfold expect Clausal.expect
  refine here_comesTo fun _ => ?_
  rw [Document.token_front hd]
  split
  · rename_i htoken
    exact advance_comesTo hd (htoken ▸ hstop) (htoken ▸ hend)
  · exact miss_comesTo expected

theorem opensArguments_comesTo {next : Bool → Machine d β} {o : Outcome β}
    (hd : d.Whole) (h : ComesTo (next (Reading.opensArguments toks)) k toks o) :
    ComesTo (opensArguments >>= next) k toks o := by
  have hopens : Reading.opensArguments toks =
      ((d.front toks).token == .openRound && !(d.front toks).layoutBefore) := by
    cases toks with
    | nil => simp [Reading.opensArguments, Document.front, hd.eof]
    | cons l rest => rfl
  rw [hopens] at h
  have hassoc : (opensArguments >>= next : Machine d β) = here >>= fun l =>
      next (l.token == .openRound && !l.layoutBefore) := by
    unfold opensArguments
    rw [bind_assoc]
    simp only [pure_bind]
  rw [hassoc]
  exact here_comesTo fun _ => h

theorem toInt_ofNat {n : Nat} (h : n ≤ Text.maxInteger) : (Int64.ofNat n).toInt = n :=
  Int64.toInt_ofNat_of_lt (Nat.lt_of_le_of_lt h (by decide))

/-- The negation of a number of a document has 64 bits. -/
theorem toInt_neg_ofNat {n : Nat} (h : n ≤ Text.maxInteger) :
    (-Int64.ofNat n).toInt = -(n : Int) :=
  Int64.toInt_neg_ofNat_of_le (Nat.le_trans h (by decide))

theorem negate_eq {n : Nat} (h : n ≤ Text.maxInteger) :
    negate (d := d) n = pure (-(n : Int)) := by
  have hleast : Int64.ofNat n ≠ Int64.minValue := by
    intro heq
    have hword := toInt_ofNat h
    have hvalue : Int64.minValue.toInt = -2 ^ 63 := by decide
    rw [heq] at hword
    omega
  rw [negate, if_neg hleast, toInt_neg_ofNat h]

end Machine

end Clausal
