import Scriptlet.Proofs.Seam

/-!
# Programs One Behind the Other

Two programs with a semicolon between them, on a line of its own, are one program: first the
statements of the one, and then those of the other, on lower lines. The semicolon ends what the
first text ends with, or is a statement that does nothing. Behind it the second text is read as it
is read from the start, since what is read of a list does not depend on the statements before it.

A tie in the first text would be another matter. Where a statement begins with a function and a
parenthesis follows, a semicolon at the end makes the whole of it one expression.

## Main definitions

* `Untied`, `Detached`: a text in which no two readings tie, and tokens of which none do.
* `Derivation.closed`: a list of statements with one more semicolon.

## Main results

* `untied_of_detached`: a text without a tie, by its tokens.
* `program_append`: two programs with a semicolon between them, and a semicolon at the end of one.
-/

namespace Scriptlet.Source

open Scriptlet.Text (Position)

/-- Whether in no reading of a text a statement begins with a named function that a parenthesis or
a minus sign follows directly. -/
def Untied (source : String) : Prop :=
  ∀ d : Derivation .program, d.lexemes = (scan source.toList).lexemes → ¬d.Tied

/-- The number of line feeds in a text. -/
def breaks (source : String) : Nat := source.toList.count '\n'

/-! ### Texts without a tie -/

/-- Whether no parenthesis and no minus sign stands right behind a brace that closes. -/
def Detached (xs : List Lexeme) : Prop := xs.IsChain fun x y =>
  x.token = .punctuation .closeBrace →
    ¬(y.token = .punctuation .openParen ∨ y.token = .operator .minus)

instance (xs : List Lexeme) : Decidable (Detached xs) :=
  inferInstanceAs (Decidable (List.IsChain ..))

/-- The beginning of such a row is one. -/
theorem Detached.of_append_left {xs ys : List Lexeme} (h : Detached (xs ++ ys)) : Detached xs :=
  List.IsChain.left_of_append h

/-- So is its end. -/
theorem Detached.of_append_right {xs ys : List Lexeme} (h : Detached (xs ++ ys)) : Detached ys :=
  List.IsChain.right_of_append h

/-- So is what is left without the first token. -/
theorem Detached.of_cons {x : Lexeme} {xs : List Lexeme} (h : Detached (x :: xs)) : Detached xs :=
  List.IsChain.tail h

/-- A named function ends with a brace. -/
theorem not_ties_of_detached {xs : List Lexeme} (h : Detached xs) : ¬Ties xs := by
  rintro ⟨f, y, rest, rfl, hy⟩
  cases f with
  | named w n p o ps q body =>
      cases body with
      | block b statements c =>
          have hpart : [⟨.punctuation .closeBrace, c⟩, y] <:+:
              (Derivation.named w n p o ps q (.block b statements c)).lexemes ++ y :: rest := by
            refine ⟨⟨.keyword .wordFunction, w⟩ :: ⟨.name n, p⟩ :: ⟨.punctuation .openParen, o⟩ ::
              (ps.lexemes ++ ⟨.punctuation .closeParen, q⟩ ::
                ⟨.punctuation .openBrace, b⟩ :: statements.lexemes), rest, ?_⟩
            simp [Derivation.lexemes]
          have hchain := List.IsChain.infix h hpart
          exact (List.isChain_cons_cons.mp hchain).1 rfl hy

/-- A tree whose tokens stand so has no tie. -/
theorem Derivation.not_tied_of_detached {c : Symbol} (d : Derivation c)
    (h : Detached d.lexemes) : ¬d.Tied := by
  induction d with
  | done | skip | bareReturn | bareDeclaration | noElse | noParameters | parameters | oneName
  | moreNames | integer | string | name | emptyRecord | noArguments => exact id
  | _ =>
      simp only [Tied, lexemes] at *
      grind [not_ties_of_detached, → Detached.of_append_left, → Detached.of_append_right,
        → Detached.of_cons]

/-- Such a text has no tie. -/
theorem untied_of_detached {source : String} (h : Detached (scan source.toList).lexemes) :
    Untied source := by
  intro d hd
  rw [← hd] at h
  exact d.not_tied_of_detached h

/-! ### A semicolon behind a list -/

/-- A semicolon behind tokens makes no tie of them. -/
theorem ties_of_ties_semicolon {xs : List Lexeme} {q : Position}
    (h : Ties (xs ++ [⟨.punctuation .semicolon, q⟩])) : Ties xs := by
  obtain ⟨f, x, rest, hxs, hx⟩ := h
  rcases List.eq_nil_or_concat rest with rfl | ⟨rest, y, rfl⟩
  · -- the semicolon is neither of the tokens that tie
    obtain ⟨-, heq⟩ := List.append_inj' hxs rfl
    obtain rfl := (List.cons.inj heq).1
    rcases hx with hx | hx <;> cases hx
  · rw [List.concat_eq_append, ← List.cons_append, ← List.append_assoc] at hxs
    exact ⟨f, x, rest, (List.append_inj' hxs rfl).1, hx⟩

namespace Derivation

/-- A list of statements with one more semicolon at its end. It ends the last statement, where that
needs one, and else stands alone. -/
def closed (q : Position) : Derivation .statements → Derivation .statements
  | done => cons (skip q) done
  | last e => cons (ended e q) done
  | cons first rest => cons first (rest.closed q)

variable (q : Position)

/-- A closed row has one semicolon more. -/
theorem lexemes_closed : (d : Derivation .statements) →
    (d.closed q).lexemes = d.lexemes ++ [⟨.punctuation .semicolon, q⟩]
  | done => by rw [closed, lexemes, lexemes, lexemes, lexemes, List.append_nil, List.nil_append]
  | last e => by rw [closed, lexemes, lexemes, lexemes, lexemes, List.append_nil]
  | cons first rest => by
    rw [closed, lexemes, lexemes_closed rest, lexemes, List.append_assoc]

/-- Closing a row leaves its statements. -/
theorem lower_closed : (d : Derivation .statements) → (d.closed q).lower = d.lower
  | done => by rw [closed, lower, lower, lower, lower, List.append_nil]
  | last e => by rw [closed, lower, lower, lower, lower, List.append_nil]
  | cons first rest => by rw [closed, lower, lower_closed rest, lower]

/-- Closing a row makes no tie. -/
theorem tied_of_tied_closed : (d : Derivation .statements) → (d.closed q).Tied → d.Tied
  | done, h => by
    rw [closed, Tied] at h
    rcases h with h | h | h
    · have hmark : Token.punctuation .semicolon ≠ .keyword .wordFunction := nofun
      rw [lexemes, lexemes, List.append_nil] at h
      exact absurd h (not_ties_cons hmark [])
    · exact h
    · exact h
  | last e, h => by
    rw [closed, Tied] at h
    rcases h with h | h | h
    · rw [lexemes, lexemes, List.append_nil] at h
      exact .inl (ties_of_ties_semicolon h)
    · exact .inr h
    · exact h.elim
  | cons first rest, h => by
    rw [closed, Tied, lexemes_closed, ← List.append_assoc] at h
    rcases h with h | h | h
    · exact .inl (ties_of_ties_semicolon h)
    · exact .inr (.inl h)
    · exact .inr (.inr (tied_of_tied_closed rest h))

end Derivation

/-! ### Readings -/

namespace Reading

variable {r r' : Reading} {xs ys : List Lexeme}

/-- What is read of tokens and more is read of the tokens first. -/
theorem Runs.exists_of_append (h : r.Runs (xs ++ ys) r') :
    ∃ next, r.Runs xs next ∧ next.Runs ys r' := by
  induction xs generalizing r with
  | nil => exact ⟨r, .nil r, h⟩
  | cons x xs ih =>
      obtain ⟨first, hs, hfirst⟩ := h.exists_step
      obtain ⟨next, hxs, hys⟩ := ih hfirst
      exact ⟨next, .cons hs hxs, hys⟩

/-- Behind a semicolon a statement may begin. -/
theorem step?_semicolon_eq_some_iff {q : Position} :
    r.step? ⟨.punctuation .semicolon, q⟩ = some r' ↔
      ∃ body, r.finishStatement? true = some body ∧ r' = .statement body := by
  show (r.finishStatement? true).map statement = some r' ↔ _
  rw [Option.map_eq_some_iff]
  exact exists_congr fun _ => and_congr_right fun _ => eq_comm

/-- Where a semicolon can stand, the list can end without one. -/
theorem exists_finishStatement?_false {owner : Owner} {ns : List Node}
    (h : r.finishStatement? true = some (.mk owner ns)) :
    ∃ ms, r.finishStatement? false = some (.mk owner ms) := by
  cases r with
  | suffix place phrase last =>
      cases place with
      | statement leading outer =>
          obtain ⟨owner', before⟩ := outer
          have hpush (semicolon : Bool) := Body.pushAll_mk owner' before
            (expressionStatements semicolon leading phrase last)
          have howner := Option.some.inj h
          rw [← Body.pushAll, hpush] at howner
          obtain ⟨rfl, -⟩ := Body.mk.inj howner
          exact ⟨_, congrArg some (hpush false)⟩
      | _ => exact ⟨ns, h⟩
  | _ => exact ⟨ns, h⟩

/-- A program may end where its list can. -/
theorem finish?_eq_some_iff {ns : List Node} :
    r.finish? = some ns ↔ r.finishStatement? false = some ((Body.mk .program []).pushAll ns) := by
  rw [finish?, Body.pushAll_mk, List.append_nil]
  rcases r.finishStatement? false with _ | ⟨owner, statements⟩
  · constructor <;> intro h <;> cases h
  · cases owner with
    | program =>
        simp only [Option.some.injEq, Body.mk.injEq, true_and]
        exact List.reverse_eq_iff
    | _ => constructor <;> intro h <;> cases h

end Reading

/-! ### Texts with a semicolon behind them -/

section

variable {source other : String} {ns ms : List Node} {line line' : Int}

/-- The parts of an accepted text: its tokens are read, and the program can end with them. -/
theorem exists_runs_of_program (h : program source = .ok (.block ns line)) :
    ∃ r, Reading.start.Runs (scan source.toList).lexemes r ∧ r.finish? = some ns ∧
      line = (scan source.toList).line := by
  obtain ⟨r, statements, hr, hf, hblock⟩ := exists_reading h
  obtain ⟨rfl, rfl⟩ : ns = statements ∧ line = (scan source.toList).line := by
    simpa using hblock
  exact ⟨r, hr, hf, rfl⟩

/-- A list without a tie, and a semicolon behind it, leave the statements it means. -/
theorem runs_semicolon (h : program source = .ok (.block ns line)) (hu : Untied source)
    (q : Position) (body : Body) : (Reading.statement body).Runs
      ((scan source.toList).lexemes ++ [⟨.punctuation .semicolon, q⟩])
      (.statement (body.pushAll ns)) := by
  obtain ⟨-, -, d, hd, hlower⟩ := exists_derivation h
  have ht := hu d hd
  cases d with
  | program d =>
      have hns : d.lower = ns := by
        rw [Derivation.lower] at hlower
        exact (Node.block.inj hlower).1
      have hclosed : (d.closed q).ReadsStatements := (d.closed q).reads
      obtain ⟨ms, hexact, hruns⟩ := hclosed.exists_nodes
      have hties : ¬(d.closed q).Tied := fun htied => ht (d.tied_of_tied_closed q htied)
      obtain rfl : ms = ns := by
        rw [hexact ((d.closed q).wellChosen_of_not_tied hties)
          (Derivation.settled_of_not_tied hties), d.lower_closed, hns]
      obtain ⟨r, hr, hf⟩ := hruns body
      have hlexemes : d.lexemes = (scan source.toList).lexemes := hd
      rw [d.lexemes_closed, hlexemes] at hr
      -- the list that stands open behind the semicolon is the one that can end there
      obtain ⟨next, -, hlast⟩ := hr.exists_of_append
      obtain ⟨r', hs, hnil⟩ := hlast.exists_step
      obtain rfl := Reading.Runs.unique hnil (.nil r')
      obtain ⟨body', -, rfl⟩ := Reading.step?_semicolon_eq_some_iff.mp hs
      obtain rfl : body' = body.pushAll ms := Option.some.inj hf
      exact hr

/-- A text is read behind any statements, on any lower lines, as it is from the start. -/
theorem exists_runs_lowered (h : program source = .ok (.block ns line)) (k : Nat) (body : Body) :
    ∃ r, (Reading.statement body).Runs ((scan source.toList).lexemes.map (Lexeme.lowered k)) r ∧
      r.finishStatement? false = some (body.pushAll (ns.map (Node.relined (· + k)))) := by
  obtain ⟨-, -, d, hd, -⟩ := exists_derivation h
  obtain ⟨r, hr, hf, -⟩ := exists_runs_of_program h
  cases d with
  | program d =>
      have halike : Alike ((scan source.toList).lexemes.map (Lexeme.lowered k)) d.lexemes := by
        rw [show d.lexemes = (scan source.toList).lexemes from hd, Alike, List.map_map]
        rfl
      obtain ⟨d', hd'⟩ := d.exists_relocated halike
      have hreads : d'.ReadsStatements := d'.reads
      obtain ⟨ms, -, hruns⟩ := hreads.exists_nodes
      rw [hd'] at hruns
      -- from the start, both readings of the lowered tokens are one
      obtain ⟨r', hr', hf'⟩ := hruns (.mk .program [])
      obtain rfl := Reading.Runs.unique
        (Reading.readAll_relined (Lexeme.moves_lowered k) hr) hr'
      have hfinish := Reading.finish?_eq_some_iff.mpr hf'
      rw [Reading.finish?_relined, hf] at hfinish
      obtain rfl := Option.some.inj hfinish
      exact hruns body

end

/-! ### A semicolon on a line of its own -/

section

variable {cs ds : List Char}

/-- A semicolon on a line of its own is one token more, and moves the others. -/
theorem lexemesFrom_semicolon (p : Position) (ds : List Char) :
    lexemesFrom p ('\n' :: ';' :: ds) =
        ⟨.punctuation .semicolon, ⟨p.line + 1, 1⟩⟩ :: lexemesFrom ⟨p.line + 1, 2⟩ ds ∧
      (pieces ('\n' :: ';' :: ds)).2 = (pieces ds).2 := by
  have hmark : firstPiece? (';' :: ds) = some (.token (.punctuation .semicolon), ds) := rfl
  obtain ⟨hlexemes, hrest⟩ := @lexemesFrom_cons_of_isBlank '\n' rfl p (';' :: ds)
  rw [hlexemes, hrest, lexemesFrom_of_firstPiece? hmark, rest_of_firstPiece? hmark]
  exact ⟨rfl, rfl⟩

/-- The tokens of a text with a semicolon on the next line, and something behind it. -/
theorem scan_append_semicolon (hb : (scan cs).bad = none)
    (hn : NoneClosed (scan cs).tokens ('\n' :: ';' :: ds)) :
    (scan (cs ++ '\n' :: ';' :: ds)).lexemes = (scan cs).lexemes ++
        ⟨.punctuation .semicolon, ⟨cs.count '\n' + 2, 1⟩⟩ ::
          lexemesFrom ⟨cs.count '\n' + 2, 2⟩ ds ∧
      ((scan (cs ++ '\n' :: ';' :: ds)).bad = none ↔ (pieces ds).2 = []) := by
  have hline : (Position.start.after cs).line + 1 = cs.count '\n' + 2 := by
    rw [line_after]
    show 1 + cs.count '\n' + 1 = _
    omega
  have hbreak : ∀ c ∈ ('\n' :: ';' :: ds).head?, c = '\n' := fun c hc =>
    (Option.some.inj hc).symm
  obtain ⟨hlexemes, hrest⟩ := lexemesFrom_append hbreak (bad_eq_none_iff.mp hb) hn
  obtain ⟨hmark, hrest'⟩ := lexemesFrom_semicolon (Position.start.after cs) ds
  rw [bad_eq_none_iff, hrest, hrest', lexemes_scan, lexemes_scan, hlexemes, hmark, hline]
  exact ⟨rfl, .rfl⟩

/-- A semicolon ends no comment. -/
theorem splitComment_append_semicolon (h : splitComment cs = none) :
    splitComment (cs ++ ['\n', ';']) = none := by
  fun_induction splitComment cs with
  | case1 => rfl
  | case2 c => simp [splitComment]
  | case3 => cases h
  | case4 c d rest hc ih =>
      have hrest := ih (Option.map_eq_none_iff.mp h)
      rw [List.cons_append] at hrest
      rw [List.cons_append, List.cons_append, splitComment, if_neg hc, hrest]
      rfl

end

/-! ### Programs -/

section

variable {source other : String} {ns ms : List Node} {line line' : Int}

/-- No program has a slash before an asterisk, which would begin a comment. -/
theorem not_divide_times_of_program {n : Node} (h : program source = .ok n) :
    ¬[.operator .divide, .operator .times] <:+: (scan source.toList).tokens := by
  obtain ⟨r, -, hr, -⟩ := exists_reading h
  exact not_divide_times_of_runs hr

/-- A text whose tokens are those of an accepted one and a semicolon. -/
theorem program_of_lexemes_semicolon {q : Position} (h : program source = .ok (.block ns line))
    (hu : Untied source)
    (hx : (scan other.toList).lexemes =
      (scan source.toList).lexemes ++ [⟨.punctuation .semicolon, q⟩])
    (hb : (scan other.toList).bad = none) : ∃ l, program other = .ok (.block ns l) := by
  have hr := runs_semicolon h hu q (.mk .program [])
  rw [← hx] at hr
  refine ⟨_, program_of_finish? other hr hb (Reading.finish?_eq_some_iff.mpr rfl) ?_⟩
  obtain ⟨-, hs, -⟩ := exists_derivation h
  rw [List.findSome?_eq_none_iff, hx, List.forall_mem_append]
  exact ⟨hs, List.forall_mem_singleton.mpr rfl⟩

/-- A text is accepted if it is with a semicolon behind it. -/
theorem exists_program_of_lexemes_semicolon {q : Position} {n : Node}
    (h : program other = .ok n)
    (hx : (scan other.toList).lexemes =
      (scan source.toList).lexemes ++ [⟨.punctuation .semicolon, q⟩])
    (hb : (scan source.toList).bad = none) : ∃ ms l, program source = .ok (.block ms l) := by
  obtain ⟨-, hs, -⟩ := exists_derivation h
  obtain ⟨r, ns, hr, hf, -⟩ := exists_reading h
  rw [hx] at hr hs
  obtain ⟨next, hnext, hlast⟩ := Reading.Runs.exists_of_append hr
  obtain ⟨r', hstep, hnil⟩ := hlast.exists_step
  obtain rfl := Reading.Runs.unique hnil (.nil r')
  obtain ⟨body, hbody, rfl⟩ := Reading.step?_semicolon_eq_some_iff.mp hstep
  obtain rfl := Option.some.inj (Reading.finish?_eq_some_iff.mp hf)
  rw [Body.pushAll_mk] at hbody
  obtain ⟨ms, hms⟩ := Reading.exists_finishStatement?_false hbody
  have hfinish : next.finish? = some ms.reverse := by
    rw [Reading.finish?, hms]
  exact ⟨_, _, program_of_finish? source hnext hb hfinish
    (List.findSome?_eq_none_iff.mpr (List.forall_mem_append.mp hs).1)⟩

/-- A semicolon at the end changes nothing, and nothing changes without it. -/
theorem exists_program_iff_of_semicolon {q : Position} (hu : Untied source)
    (hx : (scan other.toList).lexemes =
      (scan source.toList).lexemes ++ [⟨.punctuation .semicolon, q⟩])
    (hb : (scan source.toList).bad = none) (hb' : (scan other.toList).bad = none)
    (ns : List Node) : (∃ l, program source = .ok (.block ns l)) ↔
      ∃ l, program other = .ok (.block ns l) := by
  constructor
  · rintro ⟨l, h⟩
    exact program_of_lexemes_semicolon h hu hx hb'
  · rintro ⟨l, h⟩
    obtain ⟨ms, l', hms⟩ := exists_program_of_lexemes_semicolon h hx hb
    obtain ⟨l'', h'⟩ := program_of_lexemes_semicolon hms hu hx hb'
    obtain ⟨rfl, -⟩ := Node.block.inj (Except.ok.inj (h'.symm.trans h))
    exact ⟨l', hms⟩

/-- The tokens of two texts with a semicolon between them. -/
theorem scan_join {s t : List Char} (hs : (scan s).bad = none) (ht : (scan t).bad = none)
    (hn : ¬[.operator .divide, .operator .times] <:+: (scan s).tokens) :
    (scan (s ++ '\n' :: ';' :: '\n' :: t)).lexemes = (scan s).lexemes ++
        ⟨.punctuation .semicolon, ⟨s.count '\n' + 2, 1⟩⟩ ::
          (scan t).lexemes.map (Lexeme.lowered (s.count '\n' + 2)) ∧
      (scan (s ++ '\n' :: ';' :: '\n' :: t)).bad = none := by
  obtain ⟨hlexemes, hbad⟩ := scan_append_semicolon hs
    (.inl hn : NoneClosed _ ('\n' :: ';' :: '\n' :: t))
  obtain ⟨hbreak, hrest⟩ := @lexemesFrom_cons_of_isBlank '\n' rfl ⟨s.count '\n' + 2, 2⟩ t
  have hstart : Position.next ⟨s.count '\n' + 2, 2⟩ '\n' =
      ⟨Position.start.line + (s.count '\n' + 2), Position.start.column⟩ :=
    congrArg (Position.mk · 1) (Nat.add_comm ..)
  rw [hlexemes, hbad, hbreak, hrest, hstart, lexemesFrom_lowered, lexemes_scan t]
  exact ⟨rfl, bad_eq_none_iff.mp ht⟩

/-- Two programs with a semicolon between them. -/
theorem program_join (hu : Untied source) (h : program source = .ok (.block ns line))
    (h' : program other = .ok (.block ms line')) :
    program (source ++ "\n;\n" ++ other) =
      .ok (.block (ns ++ ms.map (Node.relined (· + (breaks source + 2))))
        (if (scan source.toList).lexemes = [] then breaks source + 2 else line)) := by
  obtain ⟨hb, hs, -⟩ := exists_derivation h
  obtain ⟨hb', hs', -⟩ := exists_derivation h'
  obtain ⟨hx, hbad⟩ := scan_join hb hb' (not_divide_times_of_program h)
  have htext : (source ++ "\n;\n" ++ other).toList =
      source.toList ++ '\n' :: ';' :: '\n' :: other.toList := by simp
  rw [← htext] at hx hbad
  have hline : (scan (source ++ "\n;\n" ++ other).toList).line =
      if (scan source.toList).lexemes = [] then (breaks source : Int) + 2 else line := by
    obtain ⟨-, -, -, rfl⟩ := exists_runs_of_program h
    rw [Scan.line, hx, Scan.line]
    cases (scan source.toList).lexemes with
    | nil => rfl
    | cons x xs => rfl
  have hoversize : (scan (source ++ "\n;\n" ++ other).toList).lexemes.findSome?
      (fun x => x.token.oversize?) = none := by
    rw [List.findSome?_eq_none_iff, hx, List.forall_mem_append, List.forall_mem_cons,
      List.forall_mem_map]
    exact ⟨hs, rfl, hs'⟩
  obtain ⟨r, hr, hf⟩ := exists_runs_lowered h' (breaks source + 2)
    ((Body.mk .program []).pushAll ns)
  have hruns : Reading.start.Runs (scan (source ++ "\n;\n" ++ other).toList).lexemes r := by
    rw [hx, List.append_cons]
    exact (runs_semicolon h hu _ (.mk .program [])).append hr
  have hcast : ((breaks source + 2 : Nat) : Int) = breaks source + 2 := rfl
  rw [← Body.pushAll_append, hcast] at hf
  rw [← hline]
  exact program_of_finish? _ hruns hbad (Reading.finish?_eq_some_iff.mpr hf) hoversize

/-- A semicolon on the next line. -/
theorem exists_program_iff_append_semicolon (hu : Untied source) (ns : List Node) :
    (∃ l, program source = .ok (.block ns l)) ↔
      ∃ l, program (source ++ "\n;") = .ok (.block ns l) := by
  have htext : (source ++ "\n;").toList = source.toList ++ ['\n', ';'] := by simp
  have hclosed : NoneClosed (scan source.toList).tokens ['\n', ';'] :=
    .inr fun _ => splitComment_append_semicolon
  cases hb : (scan source.toList).bad with
  | none =>
      obtain ⟨hx, hbad⟩ := scan_append_semicolon hb hclosed
      rw [← htext] at hx hbad
      rw [lexemesFrom_nil] at hx
      rw [pieces_nil] at hbad
      exact exists_program_iff_of_semicolon hu hx hb (hbad.mpr rfl) ns
  | some bad =>
      -- neither of the texts is a program
      have hcs : (pieces source.toList).2 ≠ [] := fun hnil => by
        cases hb.symm.trans (bad_eq_none_iff.mpr hnil)
      have hbreak : ∀ c ∈ ['\n', ';'].head?, c = '\n' := fun c hc => (Option.some.inj hc).symm
      have hrest := rest_append_ne_nil hbreak hcs hclosed
      constructor
      · rintro ⟨l, h⟩
        cases hb.symm.trans (exists_derivation h).1
      · rintro ⟨l, h⟩
        have hbad := (exists_derivation h).1
        rw [htext] at hbad
        exact absurd (bad_eq_none_iff.mp hbad) hrest

/-- **Programs are put one behind the other.** Two programs with a semicolon between them, on a line
of its own, are the program with the statements of both, those of the second that many lines
below. A semicolon on the next line, and one anywhere behind the last token, changes no statement,
and neither does the lack of one. The first text must have no tie. -/
theorem program_append :
    (∀ s t ns ms l k, Untied s → program s = .ok (.block ns l) → program t = .ok (.block ms k) →
      program (s ++ "\n;\n" ++ t) =
        .ok (.block (ns ++ ms.map (Node.relined (· + (breaks s + 2))))
          (if (scan s.toList).lexemes = [] then breaks s + 2 else l))) ∧
    (∀ s, Untied s → ∀ ns, (∃ l, program s = .ok (.block ns l)) ↔
      ∃ l, program (s ++ "\n;") = .ok (.block ns l)) ∧
    ∀ s t q, Untied s → (scan t.toList).lexemes =
        (scan s.toList).lexemes ++ [⟨.punctuation .semicolon, q⟩] →
      (scan s.toList).bad = none → (scan t.toList).bad = none → ∀ ns,
      (∃ l, program s = .ok (.block ns l)) ↔ ∃ l, program t = .ok (.block ns l) := by
  exact ⟨fun s t ns ms l k hu hs ht => program_join hu hs ht,
    fun s hu ns => exists_program_iff_append_semicolon hu ns,
    fun s t q hu hx hb hb' ns => exists_program_iff_of_semicolon hu hx hb hb' ns⟩

end

namespace Joining

/-- A function, and a statement that only the end of the text ends, behind it a comment. -/
def first : String := "function f() \x7breturn 1\x7d\nx = 1 // one"

/-- An expression that would go on with the one before it. -/
def second : String := "(x)\n- 2"

/-- The statements of the first text. -/
def statements : List Node :=
  [.function (some "f") [] (.block [.giveBack (.constant (.integer 1) 1) 1] 1) 1,
    .assign "x" (.constant (.integer 1) 2) false 2]

theorem program_first : program first = .ok (.block statements 1) := by with_unfolding_all rfl

theorem program_second : program second =
    .ok (.block [.operation "-" [.name "x" 1, .constant (.integer 2) 2] 1] 1) := by
  with_unfolding_all rfl

theorem untied_first : Untied first := untied_of_detached (by decide +kernel)

end Joining

/-- The parenthesis does not go on with the first text, and stands on the fourth line. -/
theorem program_joining : program (Joining.first ++ "\n;\n" ++ Joining.second) =
    .ok (.block (Joining.statements ++
      [.operation "-" [.name "x" 4, .constant (.integer 2) 5] 4]) 1) := by
  have hbreaks : breaks Joining.first = 1 := by with_unfolding_all rfl
  have hne : (scan Joining.first.toList).lexemes ≠ [] := by
    with_unfolding_all exact List.cons_ne_nil _ _
  have h := program_append.1 _ _ _ _ _ _ Joining.untied_first Joining.program_first
    Joining.program_second
  rw [if_neg hne, hbreaks] at h
  exact h

end Scriptlet.Source
