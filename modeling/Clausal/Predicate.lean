import Clausal.Term.Basic

/-
  Predicates that no clause may define

  Control constructs are read by the goal checker and not called; the other
  built-in predicates are called but belong to the system.

  What is proved:
    1. `isBuiltin_of_isControl` — a control construct is built in.
-/

namespace Clausal.Indicator

/-- The control constructs. -/
def controlConstructs : List Indicator := [
  ⟨",", 2⟩, ⟨";", 2⟩, ⟨"|", 2⟩, ⟨"->", 2⟩, ⟨"*->", 2⟩, ⟨"\\+", 1⟩, ⟨":-", 1⟩, ⟨":-", 2⟩, ⟨"?-", 1⟩,
  ⟨"!", 0⟩, ⟨"call", 1⟩, ⟨"true", 0⟩, ⟨"fail", 0⟩, ⟨"false", 0⟩]

/-- The built-in predicates that are no control constructs. -/
def library : List Indicator := [
  -- calling and collecting
  ⟨"not", 1⟩, ⟨"call", 2⟩, ⟨"call", 3⟩, ⟨"call", 4⟩, ⟨"call", 5⟩, ⟨"call", 6⟩, ⟨"call", 7⟩,
  ⟨"call", 8⟩, ⟨"catch", 3⟩, ⟨"throw", 1⟩, ⟨"forall", 2⟩, ⟨"findall", 3⟩, ⟨"findall", 4⟩,
  ⟨"bagof", 3⟩, ⟨"setof", 3⟩, ⟨"aggregate_all", 3⟩, ⟨"once", 1⟩, ⟨"ignore", 1⟩, ⟨"halt", 0⟩,
  ⟨"halt", 1⟩,
  -- unification and order
  ⟨"=", 2⟩, ⟨"\\=", 2⟩, ⟨"==", 2⟩, ⟨"\\==", 2⟩, ⟨"@<", 2⟩, ⟨"@>", 2⟩, ⟨"@=<", 2⟩, ⟨"@>=", 2⟩,
  ⟨"compare", 3⟩, ⟨"unify_with_occurs_check", 2⟩,
  -- arithmetic
  ⟨"is", 2⟩, ⟨"=:=", 2⟩, ⟨"=\\=", 2⟩, ⟨"<", 2⟩, ⟨">", 2⟩, ⟨"=<", 2⟩, ⟨">=", 2⟩, ⟨"succ", 2⟩,
  ⟨"plus", 3⟩,
  -- kinds of terms
  ⟨"var", 1⟩, ⟨"nonvar", 1⟩, ⟨"atom", 1⟩, ⟨"number", 1⟩, ⟨"integer", 1⟩, ⟨"float", 1⟩,
  ⟨"atomic", 1⟩, ⟨"compound", 1⟩, ⟨"callable", 1⟩, ⟨"is_list", 1⟩, ⟨"ground", 1⟩, ⟨"string", 1⟩,
  -- building terms
  ⟨"functor", 3⟩, ⟨"arg", 3⟩, ⟨"=..", 2⟩, ⟨"copy_term", 2⟩, ⟨"term_variables", 2⟩,
  -- atoms and strings
  ⟨"atom_codes", 2⟩, ⟨"atom_chars", 2⟩, ⟨"char_code", 2⟩, ⟨"atom_length", 2⟩, ⟨"atom_concat", 3⟩,
  ⟨"sub_atom", 5⟩, ⟨"number_codes", 2⟩, ⟨"atom_number", 2⟩, ⟨"atom_string", 2⟩,
  ⟨"term_to_atom", 2⟩,
  -- the clause store
  ⟨"assert", 1⟩, ⟨"asserta", 1⟩, ⟨"assertz", 1⟩, ⟨"retract", 1⟩, ⟨"retractall", 1⟩,
  ⟨"abolish", 1⟩, ⟨"clause", 2⟩,
  -- lists
  ⟨"length", 2⟩, ⟨"msort", 2⟩, ⟨"sort", 2⟩, ⟨"sort", 4⟩, ⟨"predsort", 3⟩, ⟨"keysort", 2⟩,
  -- output
  ⟨"write", 1⟩, ⟨"writeln", 1⟩, ⟨"print", 1⟩, ⟨"write_canonical", 1⟩, ⟨"writeq", 1⟩, ⟨"nl", 0⟩,
  ⟨"format", 1⟩, ⟨"format", 2⟩,
  -- directives
  ⟨"dynamic", 1⟩, ⟨"discontiguous", 1⟩, ⟨"multifile", 1⟩, ⟨"initialization", 1⟩, ⟨"module", 2⟩,
  ⟨"use_module", 1⟩, ⟨"use_module", 2⟩, ⟨"ensure_loaded", 1⟩, ⟨"op", 3⟩]

/-- Whether this is a control construct. -/
def isControl (i : Indicator) : Bool := controlConstructs.contains i

/-- Whether this is built in, control constructs included. -/
def isBuiltin (i : Indicator) : Bool := i.isControl || library.contains i

theorem isBuiltin_of_isControl {i : Indicator} (h : i.isControl = true) :
    i.isBuiltin = true := by
  simp [isBuiltin, h]

end Clausal.Indicator
