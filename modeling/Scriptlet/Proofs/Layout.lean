import Scriptlet.Execution
import Scriptlet.Proofs.Carried
import Scriptlet.Proofs.Relining
import Scriptlet.Proofs.Spacing

/-!
# Layout Does Not Matter

Blanks, line breaks and comments only change the lines of the nodes that a text is read as. A
program that sets fields by statements of blocks alone never gets hold of a node, so it can neither
print its lines nor compare them. It prints the same whatever the layout, and ends alike: all that
differs is the line of a mistake.

The height of a program does not depend on the layout either, and on the standard platform it is
all that matters for making the program.

## Main definitions

* `Ending.withoutLine`: an ending, less the line of the mistake.

## Main results

* `Platform.lowers_standard_of_height`: room for a program on the standard platform.
* `execute_layout`: two texts with the same tokens.
-/

namespace Scriptlet

/-- The ending of which no line is known. -/
def Ending.withoutLine : Ending → Ending
  | mistaken m _ => mistaken m none
  | e => e

/-- The tokens of a program say what it is, lines aside. -/
theorem Source.relined_eq_of_texts_eq {source source' : String} {n n' : Node}
    (h : program source = .ok n) (h' : program source' = .ok n')
    (ht : (scan source.toList).lexemes.map (fun x => x.token.text) =
      (scan source'.toList).lexemes.map fun x => x.token.text) :
    n.relined (fun _ => 0) = n'.relined fun _ => 0 :=
  relined_eq_of_tokens_eq h h' (tokens_eq_of_texts_eq (fun _ => wellSpelled_of_mem_scan)
    (fun _ => wellSpelled_of_mem_scan) ht)

/-- The tokens of a text, with a space between them, are again a text of these tokens. -/
theorem Source.tokenTexts_intercalate (source : String) :
    tokenTexts (" ".intercalate (tokenTexts source)) = tokenTexts source := by
  have hspelled : ∀ t ∈ (scan source.toList).tokens, t.WellSpelled := by
    intro t ht
    obtain ⟨x, hx, rfl⟩ := List.mem_map.mp ht
    exact wellSpelled_of_mem_scan hx
  have htexts (source : String) :
      tokenTexts source = (scan source.toList).tokens.map Token.text := by
    rw [tokenTexts, Scan.tokens, List.map_map]
    rfl
  have hscan := (Typeset.of_intercalate hspelled).scan
  rw [htexts source, htexts, hscan.1]

/-- **On the standard platform there is room for a program that is not high**, however long its text
is. -/
theorem Platform.lowers_standard_of_height {source : String} {program : Node}
    (h : Source.program source = .ok program) (hheight : program.height ≤ loweredHeight) :
    standard.lowers (Source.tokenTexts source) = true := by
  refine Bool.or_eq_true_iff.mpr (.inr ?_)
  cases h' : Source.program (" ".intercalate (Source.tokenTexts source)) with
  | error e => rfl
  | ok program' =>
      have hlines := Source.relined_eq_of_texts_eq h' h (Source.tokenTexts_intercalate source)
      have hsame := congrArg Node.height hlines
      rw [Node.height_relined, Node.height_relined] at hsame
      exact decide_eq_true (hsame ▸ hheight)

/-- Where a run without lines goes. -/
def Carrier.unlined : Carrier := ⟨.empty, false⟩

/-- A run of the program without lines goes as the program does, less the lines. -/
theorem runIn_inOwnGlobal_relined {program : Node} (hp : program.Plain) (ht : program.Tidy false)
    (stack : Stack) (levels : Nat) :
    (inOwnGlobal stack levels (program.relined fun _ => 0)).runIn .empty =
      Carrier.unlined.outcome id ((inOwnGlobal stack levels program).runIn .empty) := by
  have hrun := (Carrier.unlined.carries_inOwnGlobal hp (fun _ => ht) stack levels).run
  have hline : Carrier.unlined.line = fun _ => 0 := rfl
  have hbase : Carrier.unlined.base = .empty := rfl
  rwa [Carrier.session_empty, hbase, Carrier.node, hline] at hrun

/-- So it prints the same, and ends alike. -/
theorem executeProgram_relined (on : Platform) {program : Node} (hp : program.Plain)
    (ht : program.Tidy false) :
    (executeProgram on (program.relined fun _ => 0)).output = (executeProgram on program).output ∧
    (executeProgram on (program.relined fun _ => 0)).ending =
      (executeProgram on program).ending.withoutLine := by
  rw [output_executeProgram, output_executeProgram, ending_executeProgram, ending_executeProgram,
    runIn_inOwnGlobal_relined hp ht]
  rcases (inOwnGlobal on.stack on.limit program).runIn .empty with ⟨x | u, t⟩
  · refine ⟨String.empty_append, ?_⟩
    cases x with
    | returned | mistake | fault | tooDeep => rfl
  · exact ⟨String.empty_append, rfl⟩

/-- Two texts with the same tokens print the same and end alike, the line of a mistake aside, if
they set fields by statements of blocks alone. -/
theorem execute_layout {source source' : String} {program program' : Node}
    (h : Source.program source = .ok program) (h' : Source.program source' = .ok program')
    (ht : program.Tidy false) (ht' : program'.Tidy false)
    (htexts : (Source.scan source.toList).lexemes.map (fun x => x.token.text) =
      (Source.scan source'.toList).lexemes.map fun x => x.token.text) (on : Platform) :
    (execute on source).output = (execute on source').output ∧
    (execute on source).ending.withoutLine = (execute on source').ending.withoutLine := by
  have hlowers : on.lowers (Source.tokenTexts source) = on.lowers (Source.tokenTexts source') :=
    congrArg on.lowers htexts
  cases hroom : on.lowers (Source.tokenTexts source') with
  | false =>
      rw [execute_of_not_lowers h (hlowers.trans hroom), execute_of_not_lowers h' hroom]
      exact ⟨rfl, rfl⟩
  | true =>
      obtain ⟨houtput, hending⟩ := executeProgram_relined on (Source.plain_of_program h) ht
      obtain ⟨houtput', hending'⟩ := executeProgram_relined on (Source.plain_of_program h') ht'
      rw [execute_of_lowers h (hlowers.trans hroom), execute_of_lowers h' hroom, ← houtput,
        ← houtput', ← hending, ← hending', Source.relined_eq_of_texts_eq h h' htexts]
      exact ⟨rfl, rfl⟩

namespace Layout

/-- Three statements, the last of which is a mistake. -/
def compact : String := "o = \x7b\x7d; o.a = 1; o.b();"

/-- The same statements, on lines of their own. -/
def spread : String := "o = \x7b\x7d; // an object\no.a = 1;\n\no\n.b();"

/-- The program that they are, with the lines of the statements. -/
def program (first second third : Int) : Node :=
  .block [.assign "o" (.record [] first) false first,
    .assignField (.name "o" second) "a" (.constant (.integer 1) second) second,
    .callMethod (.name "o" third) "b" [] third] 1

theorem tidy_program (first second third : Int) : (program first second third).Tidy false := by
  refine .block (List.forall_mem_cons.mpr ⟨.assign (.record (List.forall_mem_nil _)), ?_⟩)
  refine List.forall_mem_cons.mpr ⟨.assignField .name .literal, ?_⟩
  exact List.forall_mem_singleton.mpr (.callMethod .name (List.forall_mem_nil _))

end Layout

/-- The mistake in the last statement is the same in both texts, on another line. -/
theorem layout_spread :
    (execute .standard Layout.compact).ending =
      .mistaken (.noMethod "\x7b this: ..., a: 1 \x7d" "b") (some 1) ∧
    (execute .standard Layout.spread).ending ≠ (execute .standard Layout.compact).ending ∧
    (execute .standard Layout.spread).output = (execute .standard Layout.compact).output ∧
    (execute .standard Layout.spread).ending.withoutLine =
      (execute .standard Layout.compact).ending.withoutLine := by
  have hcompact : Source.program Layout.compact = .ok (Layout.program 1 1 1) := by
    with_unfolding_all rfl
  have hspread : Source.program Layout.spread = .ok (Layout.program 1 2 4) := by
    with_unfolding_all rfl
  obtain ⟨houtput, hending⟩ := execute_layout hspread hcompact (Layout.tidy_program 1 2 4)
    (Layout.tidy_program 1 1 1) (by decide +kernel) .standard
  exact ⟨by decide +kernel, by decide +kernel, houtput, hending⟩

end Scriptlet
