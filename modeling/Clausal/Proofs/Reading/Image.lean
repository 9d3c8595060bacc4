import Clausal.Proofs.Reading.Clean
import Clausal.Proofs.Token.Values
import Clausal.Proofs.Writing.Forms

/-
  The image of the reader — which terms a text can be read as

  Whatever a text is read as, its variables and whole numbers are those that a token
  can hold, and no compound of it lacks arguments. Its functors can be any names, for
  a name between quotes can be any. Only if no name of the text is a quoted pair of
  brackets, a compound under `{}` comes from curly brackets and has one argument, and
  there is none under `[]`.

  What is proved:
    1. `readable_of_derives` — the terms that the grammar derives.
    2. `readable_of_term` — the terms that a text is read as.
-/

namespace Clausal

namespace Term

/-! ## Parts of a term -/

/-- `u` is the term or stands somewhere in it. -/
inductive IsPart (u : Term) : Term → Prop where
  | whole : IsPart u u
  | inside {f : String} {args : List Term} {t : Term} : t ∈ args → IsPart u t →
    IsPart u (.compound f args)

/-- No float stands in the term. -/
def FloatFree (t : Term) : Prop := ∀ x, ¬ IsPart (.float x) t

/-- The compound is not written like a pair of brackets and more behind it. -/
def Unbracketed (f : String) (args : List Term) : Prop :=
  f ≠ "[]" ∧ (f = "\x7b\x7d" → args.length = 1)

/-- Every compound in the term is told from others by how it is written: it has no functor
`[]`, and the functor `{}` only with one argument. -/
def Unambiguous (t : Term) : Prop := ∀ f args, IsPart (.compound f args) t → Unbracketed f args

theorem unbracketed_of_name {f : String} (h : f ∉ bracketNames) (args : List Term) :
    Unbracketed f args := by
  refine ⟨?_, ?_⟩
  · rintro rfl
    exact h (by decide)
  · rintro rfl
    exact absurd (by decide) h

@[simp] theorem floatFree_atom (name : String) : FloatFree (.atom name) := nofun

@[simp] theorem floatFree_compound {f : String} {us : List Term} :
    FloatFree (.compound f us) ↔ ∀ t ∈ us, t.FloatFree := by
  constructor
  · intro h t ht x hpart
    exact h x (.inside ht hpart)
  · intro h x hpart
    cases hpart with
    | inside ht hpart => exact h _ ht x hpart

@[simp] theorem unambiguous_atom (name : String) : Unambiguous (.atom name) := nofun

@[simp] theorem unambiguous_compound {f : String} {us : List Term} :
    Unambiguous (.compound f us) ↔ Unbracketed f us ∧ ∀ t ∈ us, t.Unambiguous := by
  constructor
  · intro h
    exact ⟨h f us .whole, fun t ht g vs hpart => h g vs (.inside ht hpart)⟩
  · rintro ⟨hwhole, hargs⟩ g vs hpart
    cases hpart with
    | whole => exact hwhole
    | inside ht hpart => exact hargs _ ht g vs hpart

/-! ## Terms that can be read -/

/-- The term may come from tokens, and `F` holds of its compounds. -/
inductive Readable (F : String → List Term → Prop) : Term → Prop where
  | atom (name : String) : Readable F (.atom name)
  | var {name : String} : Text.IsVariableName name → Readable F (.var name)
  | integer {i : Int} : -(Text.maxInteger : Int) ≤ i → i ≤ Text.maxInteger →
    Readable F (.integer i)
  | float (x : Number.Binary64) : Readable F (.float x)
  | compound {f : String} {args : List Term} : args ≠ [] → F f args →
    (∀ t ∈ args, Readable F t) → Readable F (.compound f args)

variable {F : String → List Term → Prop} {t : Term}

/-- What can be read, has no float and is told from others by how it is written can be
written. -/
theorem Readable.writable (h : Readable F t) (hfloat : t.FloatFree) (hplain : t.Unambiguous) :
    t.Writable := by
  induction h with
  | atom name => exact .atom name
  | var hname => exact .var hname
  | integer hlow hhigh => exact .integer hlow hhigh
  | float x => exact absurd .whole (hfloat x)
  | compound hne _ _ ih =>
    have hfloats := floatFree_compound.mp hfloat
    obtain ⟨⟨hsquare, hcurly⟩, hplains⟩ := unambiguous_compound.mp hplain
    exact .compound hne hsquare hcurly fun t ht => ih t ht (hfloats t ht) (hplains t ht)

/-- A term whose compounds are all told from others is unambiguous. -/
theorem Readable.unambiguous (h : Readable Unbracketed t) : t.Unambiguous := by
  induction h with
  | compound _ hcompound _ ih => exact unambiguous_compound.mpr ⟨hcompound, ih⟩
  | _ => exact nofun

theorem Readable.args {f : String} {us : List Term} (h : Readable F (.compound f us)) :
    ∀ u ∈ us, Readable F u := by
  cases h with
  | compound _ _ hargs => exact hargs

theorem readable_cons (hcons : ∀ head tail, F consName [head, tail]) {head tail : Term}
    (hhead : Readable F head) (htail : Readable F tail) : Readable F (cons head tail) := by
  refine .compound (List.cons_ne_nil _ _) (hcons head tail) ?_
  simp only [List.mem_cons, List.not_mem_nil, or_false, forall_eq_or_imp, forall_eq]
  exact ⟨hhead, htail⟩

theorem readable_list (hcons : ∀ head tail, F consName [head, tail]) {ts : List Term}
    (h : ∀ t ∈ ts, Readable F t) : Readable F (list ts) := by
  unfold list
  induction ts with
  | nil => exact .atom "[]"
  | cons t ts ih =>
    have hrest := ih fun u hu => h u (List.mem_cons_of_mem t hu)
    exact readable_cons hcons (h t List.mem_cons_self) hrest

end Term

namespace Reading

open Term (Readable readable_cons readable_list)

/-- What the reader makes compounds of is admitted: `{}` with one argument, and every name
that is no pair of brackets. -/
structure Admits (F : String → List Term → Prop) : Prop where
  curly : ∀ t, F "\x7b\x7d" [t]
  name : ∀ f ∉ bracketNames, ∀ args, F f args

/-- The token holds a value that it may hold; as a quoted functor it is admitted. -/
def Admitted (F : String → List Term → Prop) (token : Token) : Prop :=
  token.WellFormed ∧ ∀ f, token = .quotedName f → ∀ args, F f args

/-- The terms of the part can be read. -/
def Part.Readable (F : String → List Term → Prop) : Part → Prop
  | .term _ t _ => t.Readable F
  | .arguments ts => ts ≠ [] ∧ ∀ t ∈ ts, t.Readable F
  | .elements t => t.Readable F

section

variable {F : String → List Term → Prop}

/-- The reader itself makes no compound that is not told from others. -/
theorem admits_unbracketed : Admits Term.Unbracketed :=
  ⟨fun _ => ⟨by decide, fun _ => rfl⟩, fun _ hf => Term.unbracketed_of_name hf⟩

theorem Admits.functor (hF : Admits F) {token : Token} {f : String} (h : Admitted F token)
    (hname : token = .name f ∨ token = .quotedName f) (args : List Term) : F f args := by
  rcases hname with hname | hname
  · have hf : Token.WellFormed (.name f) := hname ▸ h.1
    exact hF.name f hf args
  · exact h.2 f hname args

/-- An operator between terms is no pair of brackets. -/
theorem Admits.joining (hF : Admits F) {token : Token} {f : String} {op : Operator}
    (h : Admitted F token) (hjoining : joining token = some (f, op)) (args : List Term) :
    F f args := by
  cases token with
  | name name =>
    obtain ⟨_, _, heq⟩ := Option.map_eq_some_iff.mp hjoining
    obtain ⟨rfl, _⟩ := Prod.mk.inj heq
    exact hF.functor h (Or.inl rfl) args
  | comma =>
    rw [Reading.joining, Option.map_eq_some_iff] at hjoining
    obtain ⟨_, _, heq⟩ := hjoining
    obtain ⟨rfl, _⟩ := Prod.mk.inj heq
    exact hF.name "," (by decide) args
  | bar =>
    obtain ⟨rfl, _⟩ := Prod.mk.inj (Option.some.inj hjoining)
    exact hF.name ";" (by decide) args
  | _ => cases hjoining

theorem readable_codes (hF : Admits F) (text : String) : (codes text).Readable F := by
  refine readable_list (fun _ _ => hF.name _ (by decide) _) fun t ht => ?_
  obtain ⟨c, _, rfl⟩ := List.mem_map.mp ht
  have hle := Text.toNat_le_maxInteger c
  exact .integer (by omega) (by omega)

theorem readable_stringTerm (hF : Admits F) (quotes : DoubleQuotes) (text : String) :
    (stringTerm quotes text).Readable F := by
  cases quotes with
  | codes => exact readable_codes hF text
  | chars =>
    refine readable_list (fun _ _ => hF.name _ (by decide) _) fun t ht => ?_
    obtain ⟨c, _, rfl⟩ := List.mem_map.mp ht
    exact .atom _
  | atom => exact .atom text

/-- A term that the grammar derives from tokens as they come from texts can be read. -/
theorem readable_of_derives (hF : Admits F) {quotes : DoubleQuotes} {part : Part}
    {run : List Lexeme} (h : Derives quotes part run) (hrun : ∀ l ∈ run, Admitted F l.token) :
    part.Readable F := by
  have hcell : ∀ head tail, F Term.consName [head, tail] :=
    fun _ _ => hF.name _ (by decide) _
  induction h with
  | integer hl =>
    have hle : Token.WellFormed (.integer _) := hl ▸ (hrun _ List.mem_cons_self).1
    exact .integer (by omega) (Int.ofNat_le.mpr hle)
  | float _ => exact .float _
  | @negativeInteger minus l n _ _ hl _ =>
    have hle : n ≤ Text.maxInteger := by
      have hl' := (hrun l (by simp)).1
      rw [hl] at hl'
      exact hl'
    exact .integer (by omega) (by omega)
  | negativeFloat _ _ _ => exact .float _
  | var hl =>
    have hname : Token.WellFormed (.var _) := hl ▸ (hrun _ List.mem_cons_self).1
    exact .var hname
  | string _ => exact readable_stringTerm hF quotes _
  | backQuoted _ => exact readable_codes hF _
  | atom _ => exact .atom _
  | @compound l _ _ f ts _ run hname _ _ _ _ ih =>
    obtain ⟨hne, hall⟩ := ih fun l hl => hrun l (by simp [hl])
    cases ts with
    | nil => exact absurd rfl hne
    | cons t ts => exact .compound hne (hF.functor (hrun l (by simp)) hname _) hall
  | bracketed _ _ _ ih => exact ih fun l hl => hrun l (by simp [hl])
  | emptyList _ _ => exact .atom _
  | list _ _ _ ih => exact ih fun l hl => hrun l (by simp [hl])
  | emptyCurly _ _ => exact .atom _
  | curly _ _ _ ih =>
    have ht := ih fun l hl => hrun l (by simp [hl])
    exact .compound (List.cons_ne_nil _ _) (hF.curly _) (List.forall_mem_singleton.mpr ht)
  | before hname _ _ ih =>
    have ht := ih fun l hl => hrun l (List.mem_cons_of_mem _ hl)
    have hf := hF.functor (hrun _ List.mem_cons_self) (Or.inl hname)
    exact .compound (List.cons_ne_nil _ _) (hf _) (List.forall_mem_singleton.mpr ht)
  | @between l _ _ _ _ _ _ _ _ _ hjoining _ _ _ _ ihleft ihright =>
    have hleft := ihleft fun l hl => hrun l (by simp [hl])
    have hright := ihright fun l hl => hrun l (by simp [hl])
    have hf := hF.joining (hrun l (by simp)) hjoining
    exact .compound (List.cons_ne_nil _ _) (hf _)
      (List.forall_mem_cons.mpr ⟨hleft, List.forall_mem_singleton.mpr hright⟩)
  | lastArgument _ ih => exact ⟨List.cons_ne_nil _ _, List.forall_mem_singleton.mpr (ih hrun)⟩
  | argument _ _ _ ih ihothers =>
    have ht := ih fun l hl => hrun l (by simp [hl])
    have hts := ihothers fun l hl => hrun l (by simp [hl])
    exact ⟨List.cons_ne_nil _ _, List.forall_mem_cons.mpr ⟨ht, hts.2⟩⟩
  | lastElement _ ih => exact readable_cons hcell (ih hrun) (.atom "[]")
  | elementAndTail _ _ _ ih ihtail =>
    exact readable_cons hcell (ih fun l hl => hrun l (by simp [hl]))
      (ihtail fun l hl => hrun l (by simp [hl]))
  | element _ _ _ ih ihothers =>
    exact readable_cons hcell (ih fun l hl => hrun l (by simp [hl]))
      (ihothers fun l hl => hrun l (by simp [hl]))

end

end Reading

/-! ## Texts -/

namespace Document

open Reading (Admits Admitted)

/-- The term that a text is read as without a diagnostic can be read. -/
theorem readable_of_term {F : String → List Term → Prop} {text : String} {origin : Place}
    {options : Options} {t : Term} {place : Place} (hF : Admits F)
    (hquoted : ∀ l ∈ (tokenize text origin.position).lexemes, ∀ f, l.token = .quotedName f →
      ∀ args, F f args)
    (h : (ofText text origin options).term = ⟨.ok (some ⟨t, place⟩), ∅⟩) : t.Readable F := by
  let d := ofText text origin options
  have hresult : d.term.result = .ok (some ⟨t, place⟩) := by rw [h]
  have hclean : d.term.diagnostics = ∅ := by rw [h]
  obtain ⟨_, x, hx, u, rest, ⟨mode, priority, a, hread⟩, _, hu⟩ :=
    (onePass_clean hresult).mp hclean
  obtain rfl : x = ⟨t, place⟩ := (Option.some.inj hx).symm
  obtain rfl : u = t := congrArg Located.value (Except.ok.inj hu)
  have htook : Outcome.Took _ d.lexemes ((d.reader mode).read maxPriority .term d.lexemes) :=
    Reading.terms_took d.options.quotes mode d.options.maxDepth maxPriority .term d.lexemes
  rw [hread] at htook
  obtain ⟨run, hrun, hderives⟩ := htook
  refine Reading.readable_of_derives hF hderives fun l hl => ?_
  have hmem : l ∈ d.lexemes := hrun ▸ List.mem_append_left _ hl
  exact ⟨tokenize_wellFormed text origin.position l hmem, hquoted l hmem⟩

/-- Between quotes any name can be a functor. -/
theorem readable_of_term_any {text : String} {origin : Place} {options : Options} {t : Term}
    {place : Place} (h : (ofText text origin options).term = ⟨.ok (some ⟨t, place⟩), ∅⟩) :
    t.Readable fun _ _ => True :=
  readable_of_term ⟨fun _ => trivial, fun _ _ _ => trivial⟩ (fun _ _ _ _ _ => trivial) h

end Document

end Clausal
