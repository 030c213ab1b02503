import StackScript.Proofs.Document.Problem
import StackScript.Proofs.Script.Object
import StackScript.Proofs.Token.Line

/-!
# Text Behind an Object

A script may go on behind the object that it declares: with another object, with
a brace too much, with a text whose quote is never closed. None of this is part
of the object, and the object is read as if it were not there.

This is no matter of course, since the readers do not know where the object
ends. The header is looked for in all words of the script, the partner of a
brace among all its braces, and the value of `verb` is whatever word comes next.
What limits them is that each of them is done before the object is: the header
comes to its brace, and the block of the object comes to its partner.

## Main definitions

* `HasWholeObject`: The object of a script is there to its closing brace.
* `Document.SameObject`: Two documents are about the same object.

## Theorems

* `outline_append`: The header and the sections of the object stay as they are.
* `parseWith_behind_object`: Text behind an object does not change it.
-/

namespace StackScript

/-- The script declares an object, the header of the object has come to a brace,
    and the brace is closed. -/
def HasWholeObject (tokens : List Token) : Prop :=
  ∃ opening ∈ objectBrace? tokens, ∃ close, blockEnd tokens opening = some close

/-- The documents say the same of their object: its kind, its header, its
    sections with the indices of their braces, and all that it declares. -/
structure Document.SameObject (document other : Document) : Prop where
  /-- The object is of the same kind. -/
  scheme : document.scheme = other.scheme
  /-- The header is the same. -/
  header : document.header = other.header
  /-- The sections are the same, in the same places. -/
  blocks : document.blocks = other.blocks
  /-- The declared names are the same, with all that is known about them. -/
  symbols : document.symbols = other.symbols

/-- The words in front of the brace are a keyword and its header. -/
theorem HasWholeObject.exists_declaresObject {tokens : List Token} (h : HasWholeObject tokens) :
    ∃ scheme header opening behind, DeclaresObject tokens scheme header opening behind ∧
      (untilClose 0 behind).close?.isSome := by
  rcases h with ⟨start, hstart, close, hclose⟩
  rcases StackScript.exists_declaresObject hstart with
    ⟨scheme, header, opening, behind, rfl, hobject⟩
  refine ⟨scheme, header, opening, behind, hobject, ?_⟩
  have hindex := hobject.closeIndex_eq
  rw [hclose] at hindex
  rcases Option.map_eq_some_iff.mp hindex with ⟨place, hplace, -⟩
  rw [hplace]
  rfl

/-- Behind a whole object the words of a script change neither its kind, nor its
    header, nor its sections. -/
theorem outline_append {tokens : List Token} (h : HasWholeObject tokens) (more : List Token) :
    declaredScheme (tokens ++ more) = declaredScheme tokens ∧
      (outline (tokens ++ more) ((detectKeyword (tokens ++ more)).map (·.2))).header =
        (outline tokens ((detectKeyword tokens).map (·.2))).header ∧
      (outline (tokens ++ more) ((detectKeyword (tokens ++ more)).map (·.2))).parts =
        (outline tokens ((detectKeyword tokens).map (·.2))).parts := by
  rcases h.exists_declaresObject with ⟨scheme, header, opening, behind, hobject, hclosed⟩
  have hlonger := hobject.append more
  refine ⟨?_, ?_, ?_⟩
  · rw [hlonger.declaredScheme_eq, hobject.declaredScheme_eq]
  · rw [hlonger.outline_eq.1, hobject.outline_eq.1]
  · rw [hlonger.outline_eq.2, hobject.outline_eq.2,
      (untilClose_append_of_closed hclosed _).body]

/-- An object that is there to its closing brace is read the same, whatever text
    stands on the lines behind it. -/
theorem parseWith_behind_object (asked : Option String) (a b : String)
    (h : HasWholeObject (tokenize a)) :
    (parseWith asked (a ++ "\n" ++ b)).SameObject (parseWith asked a) := by
  rcases outline_append h ((tokenize b).map (TokenShift.behind a).token) with
    ⟨hdeclared, hheader, hparts⟩
  rw [← tokenize_behind] at hdeclared hheader hparts
  have hscheme : (parseWith asked (a ++ "\n" ++ b)).scheme = (parseWith asked a).scheme :=
    congrArg (asked.bind Scheme.ofName?).getD hdeclared
  refine ⟨hscheme, hheader, congrArg (List.map Part.heading) hparts, ?_⟩
  rw [symbols_parseWith, symbols_parseWith, hscheme]
  exact congrArg (fun parts => (readSymbols _ parts).table) hparts

/-- Behind an endpoint come a brace too much, another section of the same name and a text
    that is not closed. -/
theorem parseWith_behind_endpoint :
    HasWholeObject
        (tokenize "query \"brands\" verb=get \x7b\n  input \x7b\n    int id\n  \x7d\n\x7d") ∧
      (parseWith none
        ("query \"brands\" verb=get \x7b\n  input \x7b\n    int id\n  \x7d\n\x7d" ++ "\n" ++
          "\x7d input \x7b\n  text id\n\x7d \"open")).SameObject
        (parseWith none
          "query \"brands\" verb=get \x7b\n  input \x7b\n    int id\n  \x7d\n\x7d") := by
  have h : HasWholeObject
      (tokenize "query \"brands\" verb=get \x7b\n  input \x7b\n    int id\n  \x7d\n\x7d") :=
    ⟨5, by decide +kernel, 11, by decide +kernel⟩
  exact ⟨h, parseWith_behind_object none _ _ h⟩

end StackScript
