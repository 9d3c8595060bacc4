import Clausal.Proofs.Reading.Retold

/-
  Turns by cursor — clauses, and going on behind those that cannot be read

  Outside of terms the cursor takes end tokens too, and a miss is not given up but
  reported. One turn of the loop over clauses reads a clause; in the thorough mode, behind
  a miss, it looks for the next end token from where reading stopped. As that is still
  within the clause, recovery ends right behind it and is never stalled.

  What is proved:
    1. `placeFrom_cursor`, `report_cursor` — the lexemes that places and diagnostics
       are taken from.
    2. `clause_told` — a clause, its end token included.
    3. `skipClause_cursor` — recovery.
    4. `turn_told` — a turn.
-/

namespace Clausal

/-- A term is a clause when an end token stands behind it. -/
theorem Document.clause_of_read {d : Document} {mode : Mode} {rule : Rule}
    {toks rest : List Lexeme} {t : Term} {priority : Nat} {a : Option Miss}
    (h : (d.reader mode).read maxPriority rule toks = .read (t, priority) rest a) :
    d.clause mode rule toks =
      if peek rest = .stop then .read t rest.tail a
      else .miss ⟨rest, .closing rule "'.'"⟩ a := by
  by_cases hpeek : peek rest = .stop <;>
    simp [clause, h, Outcome.andThen, expect, hpeek, Outcome.map, Outcome.after,
      Miss.furthest_none]

namespace Machine

variable {d : Document} {α β : Type} {g : Option Miss} {e : DiagnosticSet}
  {toks rest : List Lexeme} {clock : Nat}

/-! ## Moves of the cursor outside of terms -/

theorem attempt_of {f : Machine d α} {c : Cursor d} {r : Except (Halt d) α × Cursor d}
    (h : f c = some r) : attempt f c = some (.ok r.1, r.2) := by
  rw [attempt, h]
  rfl

theorem modify_bind (f : Cursor d → Cursor d) (next : Unit → Machine d α) (c : Cursor d) :
    (modify f >>= next) c = next () (f c) := rfl

theorem get_bind (next : Cursor d → Machine d α) (c : Cursor d) :
    (get >>= next) c = next c c := rfl

theorem here_bind (next : Lexeme → Machine d α) (c : Cursor d) :
    (here >>= next) c = next (d.lexemeAt c.pos) c := rfl

theorem skipStop_cursor (hd : d.Whole) (hin : toks <:+ d.lexemes) :
    skipStop (d.cursor toks 0 g e) = some (.ok (), d.cursor (Document.skipStop toks) 0 g e) := by
  rw [skipStop, bind_ok (here_cursor hin), Document.token_front hd, Document.skipStop]
  split
  · rename_i hstop
    exact advance_cursor hd hin (by simp [hstop]) (fun h => absurd rfl h)
  · rfl

theorem skipStop_suffix (toks : List Lexeme) : Document.skipStop toks <:+ toks := by
  unfold Document.skipStop
  split
  · exact List.tail_suffix toks
  · exact List.suffix_refl toks

theorem peek_eq_endOfText (hd : d.Whole) (hin : toks <:+ d.lexemes) :
    peek toks = .endOfText ↔ toks = [] := by
  cases toks with
  | nil => exact iff_of_true rfl rfl
  | cons l rest =>
    exact iff_of_false (hd.lexemes l (hin.subset List.mem_cons_self)) (List.cons_ne_nil l rest)

/-- The cursor is at the end of the text when no lexeme is left. -/
theorem atEnd_bind (hd : d.Whole) (hin : toks <:+ d.lexemes) (next : Bool → Machine d α)
    {c : Cursor d} (hpos : c.pos = d.spotOf toks) :
    (atEnd >>= next) c = next toks.isEmpty c := by
  have hempty : (peek toks == .endOfText) = toks.isEmpty := by
    rw [Bool.eq_iff_iff, beq_iff_eq, List.isEmpty_iff]
    exact peek_eq_endOfText hd hin
  have hend : atEnd c = some (.ok toks.isEmpty, c) := by
    rw [atEnd, here_bind, hpos, Document.lexemeAt_spotOf hin, Document.token_front hd, hempty]
    rfl
  exact bind_ok hend next

/-- The place from the first lexeme taken to the last one. -/
theorem placeFrom_cursor (hin : toks <:+ d.lexemes) (hrest : rest <:+ toks)
    (hlt : rest.length < toks.length) :
    placeFrom (d.front toks) (d.cursor rest 0 g e) =
      some (.ok (d.stretch toks rest), d.cursor rest 0 g e) := by
  obtain ⟨run, rfl⟩ := hrest
  have hne : run ≠ [] := by
    rintro rfl
    exact absurd hlt (Nat.lt_irrefl _)
  obtain ⟨before, last, hsplit⟩ := (List.eq_nil_or_concat run).resolve_left hne
  rw [List.concat_eq_append] at hsplit
  subst hsplit
  have hlast : last :: rest <:+ d.lexemes := by
    refine List.IsSuffix.trans ⟨before, ?_⟩ hin
    rw [List.append_assoc, List.singleton_append]
  have hspot : (d.spotOf rest).val = (d.spotOf (last :: rest)).val + 1 :=
    Document.spotOf_tail hlast (List.cons_ne_nil last rest)
  have hstretch : d.stretch (before ++ [last] ++ rest) rest =
      (d.placeOf (before ++ [last] ++ rest)).through last.span := by
    have hlength : (before ++ [last] ++ rest).length - rest.length = (before ++ [last]).length := by
      rw [List.length_append, Nat.add_sub_cancel]
    rw [Document.stretch, hlength, List.take_left, List.getLast?_concat]
  have hpos : (d.cursor rest 0 g e).pos.val ≠ 0 := by
    rw [Document.cursor_pos]
    omega
  have hbefore : ∀ h, (⟨(d.cursor rest 0 g e).pos.val - 1, h⟩ : d.Spot) = d.spotOf (last :: rest) :=
    fun h => Fin.ext (by simp only [Document.cursor_pos, hspot, Nat.add_sub_cancel])
  rw [placeFrom, get_bind, if_neg hpos, hbefore, Document.lexemeAt_spotOf hlast, hstretch]
  rfl

theorem judge_cursor (classify : Term → Place → Except ClauseError α) (t : Term) (place : Place) :
    judge classify t place (d.cursor toks 0 g e) = some (match classify t place with
      | .ok v => (.ok (some v), d.cursor toks 0 g e)
      | .error x => (.ok none, d.cursor toks 0 g (e.insert ⟨x.message, place⟩))) := by
  unfold judge
  cases classify t place <;> rfl

theorem told_stopOf {m : Miss} (hm : m.rest <:+ d.lexemes) (hg : d.Known g) :
    (d.stopOf m).told (g.map d.stopOf) = d.stopOf ((Miss.furthest (some m) g).getD m) := by
  cases g with
  | none => rfl
  | some given =>
    have hle := Document.spotOf_le_iff (hg given rfl) hm
    have hlt : (d.stopOf m).spot < (d.stopOf given).spot ↔
        given.rest.length < m.rest.length := by
      rw [← Fin.not_le, ← Nat.not_le]
      exact not_congr hle
    by_cases hfurther : given.rest.length < m.rest.length
    · simp only [Option.map_some, Stop.told, if_pos (hlt.mpr hfurther), Miss.furthest,
        if_pos hfurther, Option.getD_some]
    · simp only [Option.map_some, Stop.told, if_neg (mt hlt.mp hfurther), Miss.furthest,
        if_neg hfurther, Option.getD_some]

/-- The diagnostic for a miss is the one for the furthest place where reading stopped. -/
theorem report_cursor {m : Miss} (hm : m.rest <:+ d.lexemes) (hg : d.Known g) :
    report (d.stopOf m) (d.cursor toks 0 g e) =
      some (.ok (), d.cursor toks 0 none (e.insert (d.report m g))) := by
  have hknown : ((Miss.furthest (some m) g).getD m).rest <:+ d.lexemes := by
    have hboth : d.Known (Miss.furthest (some m) g) :=
      Document.Known.furthest (fun x hx => Option.some.inj hx ▸ hm) hg
    cases hfurthest : Miss.furthest (some m) g with
    | none => exact hm
    | some x => exact hboth x hfurthest
  rw [report, get_bind, Document.cursor_furthest, told_stopOf hm hg]
  simp only [Document.stopOf, Document.placeAt, Document.lexemeAt_spotOf hknown]
  rfl

/-- Outside of terms a term is read with all levels left. -/
theorem expr_told (hd : d.Whole) (mode : Mode) (max : Nat) (rule : Rule)
    (hclock : ticks d d.options.maxDepth ≤ clock) (hin : toks <:+ d.lexemes) (hg : d.Known g) :
    ∃ r, expr ⟨d.options.quotes, mode⟩ clock max rule (d.cursor toks 0 g e) = some r ∧
      Told d 0 g e toks ((d.reader mode).read max rule toks) r :=
  expr_comesTo hd ⟨d.options.quotes, mode⟩ d.options.maxDepth hclock (Nat.sub_zero _).symm max
    rule toks hin g e hg

/-! ## Clauses -/

/-- What is left behind the end token that ends the clause in front of `toks`. -/
def Ended (toks rest : List Lexeme) : Prop :=
  ∃ run stop, toks = run ++ stop :: rest ∧ (∀ l ∈ run, Reading.InClause l) ∧ stop.token = .stop

theorem Ended.suffix (h : Ended toks rest) : rest <:+ toks := by
  obtain ⟨run, stop, rfl, _⟩ := h
  exact (List.suffix_cons stop rest).trans (List.suffix_append run (stop :: rest))

theorem Ended.length_lt (h : Ended toks rest) : rest.length < toks.length := by
  obtain ⟨run, stop, rfl, _⟩ := h
  rw [List.length_append, List.length_cons]
  omega

/-- What the reader of clauses has to say and leaves. -/
inductive ClauseTold (d : Document) (e : DiagnosticSet) (toks : List Lexeme) :
    Outcome Term → Except (Halt d) (Term × Place) × Cursor d → Prop where
  | read {t : Term} {rest : List Lexeme} {a : Option Miss} : Ended toks rest → d.Known a →
    ClauseTold d e toks (.read t rest a) (.ok (t, d.stretch toks rest), d.cursor rest 0 a e)
  | miss {m : Miss} {a : Option Miss} : Within toks m.rest → d.Known a →
    ClauseTold d e toks (.miss m a) (.error (.miss (d.stopOf m)), d.cursor m.rest 0 a e)
  | tooDeep {rest : List Lexeme} {s : Option (Stop d)} : Within toks rest →
    ClauseTold d e toks (.tooDeep rest)
      (.error (.fault (d.tooDeepAt rest)), { d.cursor rest 0 none e with furthest := s })

theorem clause_told (hd : d.Whole) (mode : Mode) (rule : Rule)
    (hclock : ticks d d.options.maxDepth ≤ clock) (hin : toks <:+ d.lexemes) :
    ∃ r, clause mode clock rule (d.cursor toks 0 none e) = some r ∧
      ClauseTold d e toks (d.clause mode rule toks) r := by
  obtain ⟨r, hr, htold⟩ := expr_told (g := none) (e := e) hd mode maxPriority rule hclock hin
    Document.known_none
  have hshort := (d.reader mode).shortens maxPriority rule toks
  rw [clause, bind_ok (here_cursor hin)]
  cases hread : (d.reader mode).read maxPriority rule toks with
  | read v rest a =>
    obtain ⟨t, priority⟩ := v
    rw [hread] at htold hshort
    cases htold with
    | read hwithin hknown =>
      have hrest := hwithin.suffix.trans hin
      have hnone : Miss.furthest none a = a := rfl
      rw [bind_ok hr, hnone, Document.clause_of_read hread]
      dsimp only
      by_cases hpeek : peek rest = .stop
      · obtain ⟨stop, hstop, htoken⟩ := cons_of_peek hpeek (by decide)
        obtain ⟨run, hrun, hclause⟩ := hwithin
        have htail : rest.tail <:+ toks := (List.tail_suffix rest).trans ⟨run, hrun.symm⟩
        have hlt : rest.tail.length < toks.length :=
          Nat.lt_of_le_of_lt (List.tail_suffix rest).length_le hshort
        have hexpect : expect .stop (.closing rule "'.'") (d.cursor rest 0 a e) =
            some (.ok (), d.cursor rest.tail 0 a e) := by
          rw [expect, bind_ok (here_cursor hrest), Document.token_front hd, if_pos hpeek]
          exact advance_cursor hd hrest (by simp [hpeek]) fun h => absurd rfl h
        rw [bind_ok hexpect, bind_ok (placeFrom_cursor hin htail hlt), if_pos hpeek]
        refine ⟨_, rfl, .read ⟨run, stop, ?_, hclause, htoken⟩ hknown⟩
        rw [← hstop]
        exact hrun
      · have hexpect : expect .stop (.closing rule "'.'") (d.cursor rest 0 a e) =
            some (.error (.miss ⟨d.spotOf rest, .closing rule "'.'"⟩), d.cursor rest 0 a e) := by
          rw [expect, bind_ok (here_cursor hrest), Document.token_front hd, if_neg hpeek]
          rfl
        rw [bind_error hexpect, if_neg hpeek]
        exact ⟨_, rfl, .miss hwithin hknown⟩
  | miss m a =>
    rw [hread] at htold
    rw [Document.clause, hread]
    cases htold with
    | miss hwithin hknown => exact ⟨_, bind_error hr _, .miss hwithin hknown⟩
  | tooDeep rest =>
    rw [hread] at htold
    rw [Document.clause, hread]
    cases htold with
    | tooDeep hwithin => exact ⟨_, bind_error hr _, .tooDeep hwithin⟩

/-! ## Recovery -/

/-- Up to the next end token, or to the end of the text. -/
theorem seekStop_cursor (hd : d.Whole) : ∀ {clock : Nat} (toks : List Lexeme),
    toks <:+ d.lexemes → toks.length < clock →
      seekStop clock (d.cursor toks 0 g e) =
        some (.ok (), d.cursor (toks.dropWhile fun l => l.token != .stop) 0 g e) := by
  intro clock
  induction clock with
  | zero => exact fun _ _ h => absurd h (Nat.not_lt_zero _)
  | succ clock ih =>
    intro toks hin hclock
    rw [seekStop, bind_ok (here_cursor hin), Document.token_front hd]
    cases toks with
    | nil => rfl
    | cons l rest =>
      have hend : l.token ≠ .endOfText := hd.lexemes l (hin.subset List.mem_cons_self)
      have hrest := (List.suffix_cons l rest).trans hin
      by_cases hstop : l.token = .stop
      · have hdrop : (l :: rest).dropWhile (fun l => l.token != .stop) = l :: rest :=
          List.dropWhile_cons_of_neg (by simp [hstop])
        rw [hdrop]
        simp only [peek, hstop, true_or, if_true]
        rfl
      · have hdrop : (l :: rest).dropWhile (fun l => l.token != .stop) =
            rest.dropWhile fun l => l.token != .stop :=
          List.dropWhile_cons_of_pos (by simp [hstop])
        have hadvance := advance_cursor (k := 0) (g := g) (e := e) hd hin hend
          fun h => absurd rfl h
        have hgoes : ¬ (peek (l :: rest) = .stop ∨ peek (l :: rest) = .endOfText) := by
          simp [peek, hstop, hend]
        rw [hdrop]
        simp only [hgoes, if_false]
        rw [bind_ok hadvance]
        exact ih rest hrest (by simpa using hclock)

theorem skipStop_dropWhile (toks : List Lexeme) :
    Document.skipStop (toks.dropWhile fun l => l.token != .stop) = Document.skipClause toks := by
  rw [Document.skipClause, Document.skipStop]
  cases hdrop : toks.dropWhile fun l => l.token != .stop with
  | nil => rfl
  | cons l rest =>
    have hstop := List.head?_dropWhile_not (fun l : Lexeme => l.token != .stop) toks
    rw [hdrop] at hstop
    have htoken : l.token = .stop := by simpa using hstop
    exact if_pos htoken

/-- Recovery ends behind the next end token, and it is never stalled. -/
theorem skipClause_cursor (hd : d.Whole) (hrest : rest <:+ d.lexemes)
    (hclock : rest.length < clock) :
    skipClause clock (d.spotOf rest) (d.cursor toks 0 g e) =
      some (.ok (), d.cursor (Document.skipClause rest) 0 g e) := by
  have hdrop := (List.dropWhile_suffix fun l : Lexeme => l.token != .stop).trans hrest
  have hlast : Document.skipClause rest <:+ d.lexemes :=
    (List.tail_suffix _).trans hdrop
  have hseek := seekStop_cursor (g := g) (e := e) hd rest hrest hclock
  have hskip := skipStop_cursor (g := g) (e := e) hd hdrop
  rw [skipStop_dropWhile] at hskip
  -- Unless the text is at its end, an end token has been taken.
  have hmoved : ¬ (d.spotOf (Document.skipClause rest) ≤ d.spotOf rest ∧
      (d.lexemeAt (d.spotOf (Document.skipClause rest))).token ≠ .endOfText) := by
    rw [Document.lexemeAt_spotOf hlast, Document.token_front hd, Document.spotOf_le_iff hlast hrest]
    intro ⟨hle, hend⟩
    have hne : rest ≠ [] := by
      rintro rfl
      exact hend rfl
    exact absurd (Document.skipClause_length_lt (List.suffix_refl rest) hne) (Nat.not_lt.mpr hle)
  rw [skipClause, get_bind, modify_bind]
  change (seekStop clock >>= _) (d.cursor rest 0 g e) = _
  rw [bind_ok hseek, bind_ok hskip, get_bind, Document.cursor_pos, if_neg hmoved]
  rfl

/-! ## A turn of the loop -/

/-- What a turn has to say and leaves. -/
inductive TurnTold (d : Document) (mode : Mode)
    (classify : Term → Place → Except ClauseError α) (e : DiagnosticSet) (toks : List Lexeme) :
    Outcome Term → Except (Halt d) (Option α) × Cursor d → Prop where
  | value {t : Term} {rest : List Lexeme} {a : Option Miss} {v : α} : Ended toks rest →
    d.Known a → classify t (d.stretch toks rest) = .ok v →
    TurnTold d mode classify e toks (.read t rest a) (.ok (some v), d.cursor rest 0 a e)
  | illegal {t : Term} {rest : List Lexeme} {a : Option Miss} {x : ClauseError} :
    Ended toks rest → d.Known a → classify t (d.stretch toks rest) = .error x →
    TurnTold d mode classify e toks (.read t rest a)
      (.ok none, d.cursor rest 0 a (e.insert ⟨x.message, d.stretch toks rest⟩))
  | skipped {m : Miss} {a : Option Miss} : mode = .thorough → Within toks m.rest →
    TurnTold d mode classify e toks (.miss m a)
      (.ok none, d.cursor (Document.skipClause m.rest) 0 none (e.insert (d.report m a)))
  | missed {m : Miss} {a : Option Miss} {c : Cursor d} : mode = .fast → m.rest <:+ d.lexemes →
    TurnTold d mode classify e toks (.miss m a) (.error (.miss (d.stopOf m)), c)
  | tooDeep {rest : List Lexeme} {s : Option (Stop d)} : Within toks rest →
    TurnTold d mode classify e toks (.tooDeep rest)
      (.error (.fault (d.tooDeepAt rest)), { d.cursor rest 0 none e with furthest := s })

theorem turn_told (hd : d.Whole) (rule : Rule) (classify : Term → Place → Except ClauseError α)
    (mode : Mode) (hclock : ticks d d.options.maxDepth ≤ clock) (hin : toks <:+ d.lexemes)
    (s : Option (Stop d)) :
    ∃ r, turn rule classify mode clock { d.cursor toks 0 none e with furthest := s } = some r ∧
      TurnTold d mode classify e toks (d.clause mode rule toks) r := by
  obtain ⟨r, hr, htold⟩ := clause_told (e := e) hd mode rule hclock hin
  rw [turn, modify_bind]
  change ∃ r, (attempt (clause mode clock rule) >>= _) (d.cursor toks 0 none e) = some r ∧ _
  rw [bind_ok (attempt_of hr)]
  generalize d.clause mode rule toks = o at htold
  cases htold with
  | @read t rest a hended hknown =>
    dsimp only
    rw [judge_cursor]
    cases hclassify : classify t (d.stretch toks rest) with
    | ok v => exact ⟨_, rfl, .value hended hknown hclassify⟩
    | error x => exact ⟨_, rfl, .illegal hended hknown hclassify⟩
  | @miss m a hwithin hknown =>
    cases mode with
    | fast => exact ⟨_, rfl, .missed rfl (hwithin.suffix.trans hin)⟩
    | thorough =>
      -- Recovery starts where reading stopped, not where the furthest miss is reported.
      have hm := hwithin.suffix.trans hin
      have hticks : m.rest.length < clock := by
        have hlength := hm.length_le
        unfold ticks at hclock
        omega
      have hskip : skipClause clock (d.spotOf m.rest)
          (d.cursor m.rest 0 none (e.insert (d.report m a))) =
            some (.ok (), d.cursor (Document.skipClause m.rest) 0 none _) :=
        skipClause_cursor hd hm hticks
      dsimp only
      rw [bind_ok (report_cursor hm hknown)]
      exact ⟨_, (bind_ok hskip _).trans rfl, .skipped rfl hwithin⟩
  | tooDeep hwithin =>
    cases mode with
    | fast => exact ⟨_, rfl, .tooDeep hwithin⟩
    | thorough => exact ⟨_, rfl, .tooDeep hwithin⟩

end Machine

end Clausal
