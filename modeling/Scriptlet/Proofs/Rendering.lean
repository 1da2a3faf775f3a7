import Scriptlet.Proofs.Literals
import Scriptlet.Proofs.WellFormed

/-!
# Every Well-Formed Node Can Be Written

A well-formed node is written with parentheses around every expression in it, braces around every
block, and a semicolon behind every statement. Keys and strings stand between double quotes, with a
backslash where one is needed. No statement begins with a function then, so nothing ties, and the
text is read as the node that was written, on other lines.

The text itself is not built here: for each node there is a derivation tree that means it, and the
tokens that the tree spells, with spaces behind them, are a text.

## Main definitions

* `Derivation.Sound`: the tokens of a tree can be read, and nothing in it ties.
* `Standing.Written`: a node has a tree where it stands.

## Main results

* `written_of_wellFormed`: every well-formed node has a tree.
* `program_image`: programs are the well-formed blocks.
-/

namespace Scriptlet.Source

open Scriptlet.Text (Position)

/-! ### Literals -/

/-- Every string is denoted by a literal. -/
theorem exists_literalText (s : String) :
    ∃ body, (Token.string .double body).Readable ∧ literalText body = s :=
  ⟨Quote.double.body s, ⟨wellSpelled_body .double s, rfl⟩, literalText_body .double s⟩

/-- Every number below the bound is written by a literal. -/
theorem exists_integer {k : Nat} (h : k < Text.numeralBound) :
    ∃ digits, (Token.integer digits).Readable ∧ Text.ofDigits digits.toList = k := by
  have hlength : (Nat.toDigits 10 k).length ≤ Text.digitLimit := by
    have hlimit : 0 < Text.digitLimit := by decide
    unfold Text.numeralBound at h
    generalize Text.digitLimit = limit at h hlimit ⊢
    exact (Nat.length_toDigits_le_iff (by decide) hlimit).mpr h
  refine ⟨String.ofList (Nat.toDigits 10 k), Token.readable_integer ?_ ?_, ?_⟩
  · rw [Token.WellSpelled, String.toList_ofList]
    exact ⟨Nat.toDigits_ne_nil, fun c => Nat.isDigit_of_mem_toDigits (by decide) (by decide)⟩
  · rwa [String.length_ofList]
  · rw [String.toList_ofList]
    exact Nat.ofDigitChars_toDigits (by decide) (by decide)

/-! ### Sound trees -/

/-- The place of tokens that stand nowhere. -/
def nowhere : Position := ⟨0, 0⟩

namespace Derivation

variable {c : Symbol}

/-- Whether all tokens of a tree can be read, and nothing in it ties. -/
def Sound (d : Derivation c) : Prop := d.Readable ∧ ¬d.Tied

/-- An expression between parentheses. -/
def enclosed (e : Derivation .expression) : Derivation .callee :=
  .head (.parentheses nowhere e nowhere)

/-- The tokens of an expression between parentheses. -/
@[simp] theorem lexemes_enclosed (e : Derivation .expression) : e.enclosed.lexemes =
    ⟨.punctuation .openParen, nowhere⟩ ::
      (e.lexemes ++ [⟨.punctuation .closeParen, nowhere⟩]) := rfl

/-- Parentheses leave the node as it is. -/
@[simp] theorem lower_enclosed (e : Derivation .expression) : e.enclosed.lower = e.lower := rfl

/-- Parentheses make no tie. -/
@[simp] theorem tied_enclosed (e : Derivation .expression) : e.enclosed.Tied ↔ e.Tied := .rfl

end Derivation

/-- The node without its lines. -/
abbrev flat (n : Node) : Node := n.relined fun _ => 0

/-- Whether a node has a tree where it stands; lines do not count. No tree of a statement begins
with a function. -/
def Written : Standing → Node → Prop
  | .block, n => ∃ d : Derivation .block, d.Sound ∧ flat d.lower = flat n
  | .statement, n => ∃ d : Derivation .statement, d.Sound ∧ d.lower.map flat = [flat n] ∧
      ∃ x xs, d.lexemes = x :: xs ∧ x.token ≠ .keyword .wordFunction
  | .expression, n => ∃ d : Derivation .expression, d.Sound ∧ flat d.lower = flat n

/-! ### Rows -/

/-- A list of statements is written one after another, each with its semicolon. -/
theorem written_statements {ns : List Node} (h : ∀ n ∈ ns, Written .statement n) :
    ∃ d : Derivation .statements, d.Sound ∧ d.lower.map flat = ns.map flat := by
  induction ns with
  | nil => exact ⟨.done, ⟨List.forall_mem_nil _, id⟩, rfl⟩
  | cons n rest ih =>
      obtain ⟨hn, hrest⟩ := List.forall_mem_cons.mp h
      obtain ⟨d, ⟨hread, htied⟩, hlower, x, xs, hx, hfunction⟩ := hn
      obtain ⟨ds, ⟨hreads, htieds⟩, hlowers⟩ := ih hrest
      refine ⟨.cons d ds, ⟨List.forall_mem_append.mpr ⟨hread, hreads⟩, ?_⟩, ?_⟩
      · rintro (h | h | h)
        · rw [hx] at h
          exact not_ties_cons hfunction _ h
        · exact htied h
        · exact htieds h
      · simp only [Derivation.lower, List.map_append, List.map_cons, hlower, hlowers]
        rfl

/-- Arguments are written with commas between them. -/
theorem written_expressions {n : Node} {ns : List Node}
    (h : ∀ m ∈ n :: ns, Written .expression m) :
    ∃ d : Derivation .expressions, d.Sound ∧ d.lower.map flat = (n :: ns).map flat := by
  induction ns generalizing n with
  | nil =>
      obtain ⟨e, he, hlower⟩ := h n List.mem_cons_self
      exact ⟨.oneExpression e, he, congrArg (fun m => [m]) hlower⟩
  | cons m rest ih =>
      obtain ⟨hn, hrest⟩ := List.forall_mem_cons.mp h
      obtain ⟨e, ⟨hread, htied⟩, hlower⟩ := hn
      obtain ⟨es, ⟨hreads, htieds⟩, hlowers⟩ := ih hrest
      refine ⟨.moreExpressions e nowhere es, ⟨?_, ?_⟩, ?_⟩
      · exact List.forall_mem_append.mpr ⟨hread, List.forall_mem_cons.mpr ⟨by simp, hreads⟩⟩
      · rintro (h | h)
        · exact htied h
        · exact htieds h
      · rw [Derivation.lower, List.map_cons, hlower, hlowers]
        rfl

/-- So they are if there are none. -/
theorem written_arguments {ns : List Node} (h : ∀ n ∈ ns, Written .expression n) :
    ∃ d : Derivation .arguments, d.Sound ∧ d.lower.map flat = ns.map flat := by
  cases ns with
  | nil => exact ⟨.noArguments, ⟨List.forall_mem_nil _, id⟩, rfl⟩
  | cons n rest =>
      obtain ⟨d, hd, hlower⟩ := written_expressions h
      exact ⟨.arguments d, hd, hlower⟩

/-- Parameters are written with commas between them. -/
theorem written_names {x : String} {xs : List String} (h : ∀ y ∈ x :: xs, IsName y) :
    ∃ d : Derivation .names, d.Readable ∧ d.lower = x :: xs := by
  induction xs generalizing x with
  | nil =>
      exact ⟨.oneName x nowhere, List.forall_mem_singleton.mpr
        (Token.readable_name.mpr (h x List.mem_cons_self)), rfl⟩
  | cons y rest ih =>
      obtain ⟨hx, hrest⟩ := List.forall_mem_cons.mp h
      obtain ⟨d, hd, hlower⟩ := ih hrest
      refine ⟨.moreNames x nowhere nowhere d, ?_, congrArg (x :: ·) hlower⟩
      exact List.forall_mem_cons.mpr ⟨Token.readable_name.mpr hx,
        List.forall_mem_cons.mpr ⟨by simp, hd⟩⟩

/-- So they are if there are none. -/
theorem written_parameters {xs : List String} (h : ∀ x ∈ xs, IsName x) :
    ∃ d : Derivation .parameters, d.Sound ∧ d.lower = xs := by
  cases xs with
  | nil => exact ⟨.noParameters, ⟨List.forall_mem_nil _, id⟩, rfl⟩
  | cons x rest =>
      obtain ⟨d, hd, hlower⟩ := written_names h
      exact ⟨.parameters d, ⟨hd, id⟩, hlower⟩

/-- The entry without its lines. -/
abbrev flatEntry (e : String × Node) : String × Node := (e.1, flat e.2)

/-- An entry of an object literal is written under its key. -/
theorem written_member {e : String × Node} (h : Written .expression e.2) :
    ∃ d : Derivation .member, d.Sound ∧ flatEntry d.lower = flatEntry e := by
  obtain ⟨body, hbody, hkey⟩ := exists_literalText e.1
  obtain ⟨d, ⟨hread, htied⟩, hlower⟩ := h
  refine ⟨.underString .double body nowhere nowhere d, ⟨?_, htied⟩, Prod.ext hkey hlower⟩
  exact List.forall_mem_cons.mpr ⟨hbody, List.forall_mem_cons.mpr ⟨by simp, hread⟩⟩

/-- Entries are written with commas between them. -/
theorem written_members {e : String × Node} {es : List (String × Node)}
    (h : ∀ f ∈ e :: es, Written .expression f.2) :
    ∃ d : Derivation .members, d.Sound ∧ d.lower.map flatEntry = (e :: es).map flatEntry := by
  induction es generalizing e with
  | nil =>
      obtain ⟨d, hd, hlower⟩ := written_member (h e List.mem_cons_self)
      exact ⟨.oneMember d, hd, congrArg (fun f => [f]) hlower⟩
  | cons f rest ih =>
      obtain ⟨he, hrest⟩ := List.forall_mem_cons.mp h
      obtain ⟨d, ⟨hread, htied⟩, hlower⟩ := written_member he
      obtain ⟨ds, ⟨hreads, htieds⟩, hlowers⟩ := ih hrest
      refine ⟨.moreMembers d nowhere ds, ⟨?_, ?_⟩, ?_⟩
      · exact List.forall_mem_append.mpr ⟨hread, List.forall_mem_cons.mpr ⟨by simp, hreads⟩⟩
      · rintro (h | h)
        · exact htied h
        · exact htieds h
      · rw [Derivation.lower, List.map_cons, hlower, hlowers]
        rfl

/-- An entry with a new key comes last. -/
theorem put_of_notMem {α : Type} {es : Entries α} {key : String} (h : key ∉ es.map Prod.fst)
    (a : α) : es.put key a = es ++ [(key, a)] := by
  induction es with
  | nil => rfl
  | cons e rest ih =>
      rw [List.map_cons, List.mem_cons, not_or] at h
      obtain ⟨hne, hrest⟩ := h
      rw [Entries.put, if_neg (Ne.symm hne), ih hrest]
      rfl

/-- Entries under different keys stay as they are. -/
theorem ofList_of_nodup {α : Type} {es : List (String × α)} (h : (es.map Prod.fst).Nodup) :
    Entries.ofList es = es := by
  induction es using List.reverseRecOn with
  | nil => rfl
  | append_singleton es e ih =>
      rw [List.map_append, List.nodup_append] at h
      obtain ⟨hes, -, hdisjoint⟩ := h
      have hkey : e.1 ∉ es.map Prod.fst := fun hmem =>
        hdisjoint e.1 hmem e.1 (List.mem_singleton.mpr rfl) rfl
      rw [Entries.ofList, List.foldl_append]
      show Entries.put (Entries.ofList es) e.1 e.2 = _
      rw [ih hes, put_of_notMem hkey]

/-! ### Nodes -/

/-- Every well-formed node has a tree where it stands. -/
theorem written_of_wellFormed {place : Standing} {n : Node} (h : n.WellFormed place) :
    Written place n := by
  induction h with
  | block _ ih =>
      obtain ⟨d, ⟨hread, htied⟩, hlower⟩ := written_statements ih
      refine ⟨.block nowhere d nowhere, ⟨?_, htied⟩, ?_⟩
      · simpa [Derivation.Readable, Derivation.lexemes, or_imp, forall_and] using hread
      · simp [Derivation.lower, Node.relined, hlower]
  | bareReturn =>
      refine ⟨.ended (.bareReturn nowhere) nowhere, ⟨?_, id⟩, rfl, _, _, rfl, by decide⟩
      simp [Derivation.Readable, Derivation.lexemes]
  | giveBack _ ih =>
      obtain ⟨e, ⟨hread, htied⟩, hlower⟩ := ih
      refine ⟨.ended (.giveBack nowhere e) nowhere, ⟨?_, htied⟩, ?_, _, _, rfl, by decide⟩
      · simpa [Derivation.Readable, Derivation.lexemes, or_imp, forall_and] using hread
      · simp [Derivation.lower, Node.relined, hlower]
  | @bareDeclaration x _ _ hx =>
      refine ⟨.ended (.bareDeclaration .wordVar rfl nowhere x nowhere) nowhere, ⟨?_, id⟩, rfl, _, _,
        rfl, by decide⟩
      simpa [Derivation.Readable, Derivation.lexemes] using hx
  | @declaration x _ _ hx _ ih =>
      obtain ⟨e, ⟨hread, htied⟩, hlower⟩ := ih
      refine ⟨.ended (.declaration .wordVar rfl nowhere x nowhere nowhere e) nowhere, ⟨?_, htied⟩,
        ?_, _, _, rfl, by decide⟩
      · simpa [Derivation.Readable, Derivation.lexemes, or_imp, forall_and] using ⟨hx, hread⟩
      · simp [Derivation.lower, Node.relined, hlower]
  | branch _ _ _ ihc ihq iha =>
      obtain ⟨e, ⟨hread, htied⟩, hlower⟩ := ihc
      obtain ⟨b, ⟨hread₁, htied₁⟩, hlower₁⟩ := ihq
      obtain ⟨b', ⟨hread₂, htied₂⟩, hlower₂⟩ := iha
      refine ⟨.chosen (.choice nowhere nowhere e nowhere b (.elseBlock nowhere b')), ⟨?_, ?_⟩, ?_,
        _, _, rfl, by decide⟩
      · simpa [Derivation.Readable, Derivation.lexemes, or_imp, forall_and] using
          ⟨hread, hread₁, hread₂⟩
      · simp [Derivation.Tied, htied, htied₁, htied₂]
      · simp [Derivation.lower, Node.relined, hlower, hlower₁, hlower₂]
  | statement _ ih =>
      obtain ⟨e, ⟨hread, htied⟩, hlower⟩ := ih
      refine ⟨.ended (.value (.alone (.uncut e.enclosed))) nowhere, ⟨?_, htied⟩, ?_, _, _, rfl,
        by decide⟩
      · simpa [Derivation.Readable, Derivation.lexemes, or_imp, forall_and] using hread
      · simp [Derivation.lower, hlower]
  | integer hk =>
      obtain ⟨digits, hdigits, rfl⟩ := exists_integer hk
      exact ⟨.alone (.uncut (.head (.integer digits nowhere))),
        ⟨List.forall_mem_singleton.mpr hdigits, id⟩, rfl⟩
  | @string s =>
      obtain ⟨body, hbody, rfl⟩ := exists_literalText s
      exact ⟨.alone (.uncut (.head (.string .double body nowhere))),
        ⟨List.forall_mem_singleton.mpr hbody, id⟩, rfl⟩
  | @name x _ hx =>
      exact ⟨.alone (.uncut (.head (.name x nowhere))),
        ⟨List.forall_mem_singleton.mpr (Token.readable_name.mpr hx), id⟩, rfl⟩
  | @operation op _ _ _ _ _ _ iha ihb =>
      obtain ⟨a, ⟨hread, htied⟩, hlower⟩ := iha
      obtain ⟨b, ⟨hread₁, htied₁⟩, hlower₁⟩ := ihb
      refine ⟨.loosened (.binary (.raise (.bare (.uncut a.enclosed)) _) op rfl nowhere
        (.raise (.bare (.uncut b.enclosed)) _)), ⟨?_, ?_⟩, ?_⟩
      · simpa [Derivation.Readable, Derivation.lexemes, or_imp, forall_and] using ⟨hread, hread₁⟩
      · simp [Derivation.Tied, htied, htied₁]
      · simp [Derivation.lower, Node.operation, Node.relined, hlower, hlower₁]
  | call _ _ ihc iha =>
      obtain ⟨c, ⟨hread, htied⟩, hlower⟩ := ihc
      obtain ⟨gs, ⟨hread₁, htied₁⟩, hlower₁⟩ := written_arguments iha
      refine ⟨.alone (.uncut (.call c.enclosed nowhere gs nowhere)), ⟨?_, ?_⟩, ?_⟩
      · simpa [Derivation.Readable, Derivation.lexemes, or_imp, forall_and] using ⟨hread, hread₁⟩
      · simp [Derivation.Tied, htied, htied₁]
      · simp [Derivation.lower, Node.relined, hlower, hlower₁]
  | @assign x _ _ hx _ ih =>
      obtain ⟨e, ⟨hread, htied⟩, hlower⟩ := ih
      refine ⟨.assign x nowhere nowhere e, ⟨?_, htied⟩, ?_⟩
      · simpa [Derivation.Readable, Derivation.lexemes, or_imp, forall_and] using ⟨hx, hread⟩
      · simp [Derivation.lower, Node.relined, hlower]
  | @function name _ _ _ hx hp _ ih =>
      obtain ⟨ps, ⟨hread, htied⟩, rfl⟩ := written_parameters hp
      obtain ⟨b, ⟨hread₁, htied₁⟩, hlower₁⟩ := ih
      cases name with
      | none =>
          refine ⟨.alone (.uncut (.head (.lambda nowhere nowhere ps nowhere b))), ⟨?_, htied₁⟩, ?_⟩
          · simpa [Derivation.Readable, Derivation.lexemes, or_imp, forall_and] using
              ⟨hread, hread₁⟩
          · simp [Derivation.lower, Node.relined, hlower₁]
      | some x =>
          have hname : IsName x := hx x rfl
          refine ⟨.alone (.uncut (.head (.function
            (.named nowhere x nowhere nowhere ps nowhere b)))), ⟨?_, htied₁⟩, ?_⟩
          · simpa [Derivation.Readable, Derivation.lexemes, or_imp, forall_and] using
              ⟨hname, hread, hread₁⟩
          · simp [Derivation.lower, Node.relined, hlower₁]
  | @record entries _ hk _ ih =>
      cases entries with
      | nil =>
          refine ⟨.alone (.uncut (.head (.emptyRecord nowhere nowhere))), ⟨?_, id⟩, rfl⟩
          simp [Derivation.Readable, Derivation.lexemes]
      | cons e rest =>
          obtain ⟨ms, ⟨hread, htied⟩, hlower⟩ := written_members ih
          refine ⟨.alone (.uncut (.head (.record nowhere ms nowhere))), ⟨?_, htied⟩, ?_⟩
          · simpa [Derivation.Readable, Derivation.lexemes, or_imp, forall_and] using hread
          · -- the keys of the tree are those of the entries, so none is written twice
            have hkeys : (ms.lower.map Prod.fst).Nodup := by
              have hsame := congrArg (List.map Prod.fst) hlower
              rw [List.map_map, List.map_map] at hsame
              exact hsame ▸ hk
            have hentries := ofList_of_nodup hkeys
            show Node.record (Node.relinedEntries _ (Entries.ofList ms.lower)) 0 =
              Node.record (Node.relinedEntries _ (e :: rest)) 0
            rw [hentries, Node.relinedEntries_eq_map, Node.relinedEntries_eq_map]
            exact congrArg (fun es => Node.record es 0) hlower
  | @field _ x _ hx _ ih =>
      obtain ⟨e, ⟨hread, htied⟩, hlower⟩ := ih
      refine ⟨.alone (.field (.uncut e.enclosed) nowhere x nowhere), ⟨?_, htied⟩, ?_⟩
      · simpa [Derivation.Readable, Derivation.lexemes, or_imp, forall_and] using ⟨hread, hx⟩
      · simp [Derivation.lower, Node.relined, hlower]
  | @assignField _ _ x _ hx _ _ ihr ihv =>
      obtain ⟨r, ⟨hread, htied⟩, hlower⟩ := ihr
      obtain ⟨e, ⟨hread₁, htied₁⟩, hlower₁⟩ := ihv
      refine ⟨.assignField (.uncut r.enclosed) nowhere x nowhere nowhere e, ⟨?_, ?_⟩, ?_⟩
      · simpa [Derivation.Readable, Derivation.lexemes, or_imp, forall_and] using
          ⟨hread, hx, hread₁⟩
      · simp [Derivation.Tied, htied, htied₁]
      · simp [Derivation.lower, Node.relined, hlower, hlower₁]
  | @callMethod _ x _ _ hx _ _ ihr iha =>
      obtain ⟨r, ⟨hread, htied⟩, hlower⟩ := ihr
      obtain ⟨gs, ⟨hread₁, htied₁⟩, hlower₁⟩ := written_arguments iha
      refine ⟨.alone (.uncut (.method (.uncut r.enclosed) nowhere x nowhere nowhere gs nowhere)),
        ⟨?_, ?_⟩, ?_⟩
      · simpa [Derivation.Readable, Derivation.lexemes, or_imp, forall_and] using
          ⟨hread, hx, hread₁⟩
      · simp [Derivation.Tied, htied, htied₁]
      · simp [Derivation.lower, Node.relined, hlower, hlower₁]

/-! ### Programs -/

/-- Every well-formed block is a program, on other lines. -/
theorem exists_source_of_wellFormed {n : Node} (h : n.WellFormed .block) :
    ∃ source n', program source = .ok n' ∧ n'.relined (fun _ => 0) = n.relined fun _ => 0 := by
  cases h with
  | block hns =>
      obtain ⟨d, ⟨hread, htied⟩, hlower⟩ :=
        written_statements fun n hn => written_of_wellFormed (hns n hn)
      have hreadable : ∀ t ∈ d.tokens, t.Readable := fun t ht => by
        obtain ⟨x, hx, rfl⟩ := List.mem_map.mp ht
        exact hread x hx
      have hset := Typeset.of_spaced fun t ht => (hreadable t ht).1
      let source := String.ofList (Typeset.spaced d.tokens)
      have hscan : (scan source.toList).tokens = d.tokens ∧ (scan source.toList).bad = none := by
        rw [String.toList_ofList]
        exact hset.scan
      have hsmall : ∀ x ∈ (scan source.toList).lexemes, x.token.oversize? = none := fun x hx => by
        have hx : x.token ∈ (scan source.toList).tokens := List.mem_map_of_mem hx
        rw [hscan.1] at hx
        exact (hreadable _ hx).2
      obtain ⟨n', hn', hflat⟩ := exists_program_of_tokens (d := .program d) hscan.2 hsmall
        hscan.1.symm htied
      refine ⟨source, n', hn', hflat.trans ?_⟩
      rw [Derivation.lower, Node.relined, Node.relined, Node.relinedAll_eq_map,
        Node.relinedAll_eq_map, hlower]

/-- **Programs are the well-formed blocks.** What is read of a text is a well-formed block, and for
every well-formed block there is a text that is read as it, line numbers aside. -/
theorem program_image :
    (∀ source n, program source = .ok n → n.WellFormed .block) ∧
    ∀ n : Node, n.WellFormed .block → ∃ source n', program source = .ok n' ∧
      n'.relined (fun _ => 0) = n.relined fun _ => 0 :=
  ⟨fun _ _ => wellFormed_of_program, fun _ => exists_source_of_wellFormed⟩

namespace Image

/-- A call of the function in a field, which is no call of a method, and an object under keys that
are no names. -/
def node : Node :=
  .block [.call (.field (.name "o" 0) "f" 0) [] 0,
    .record [("", .constant (.integer 7) 0), ("\x22\\\n", .name "o" 0)] 0] 0

theorem isName_o : IsName "o" := ⟨⟨'o', [], rfl, rfl, List.forall_mem_nil _⟩, fun k => by
  cases k <;> decide⟩

theorem isName_f : IsName "f" := ⟨⟨'f', [], rfl, rfl, List.forall_mem_nil _⟩, fun k => by
  cases k <;> decide⟩

theorem wellFormed_node : node.WellFormed .block := by
  have hseven : 7 < Text.numeralBound :=
    Nat.lt_of_lt_of_le (by decide) (pow_le_numeralBound (n := 1) (by decide))
  have hcall : Node.WellFormed .expression (.call (.field (.name "o" 0) "f" 0) [] 0) :=
    .call (.field isName_f (.name isName_o)) (List.forall_mem_nil _)
  refine .block (List.forall_mem_cons.mpr ⟨.statement hcall, ?_⟩)
  refine List.forall_mem_singleton.mpr (.statement (.record (by decide) ?_))
  exact List.forall_mem_cons.mpr ⟨.integer hseven, List.forall_mem_singleton.mpr (.name isName_o)⟩

end Image

/-- Such a call and such keys can be written, and what is read of a text is well-formed. -/
theorem image_callOfField :
    (∃ source n', program source = .ok n' ∧
      n'.relined (fun _ => 0) = Image.node.relined fun _ => 0) ∧
    program "(o.f)()" = .ok (.block [.call (.field (.name "o" 1) "f" 1) [] 1] 1) ∧
    Node.WellFormed .block (.block [.call (.field (.name "o" 1) "f" 1) [] 1] 1) := by
  have h : program "(o.f)()" = .ok (.block [.call (.field (.name "o" 1) "f" 1) [] 1] 1) := by
    with_unfolding_all rfl
  exact ⟨program_image.2 _ Image.wellFormed_node, h, program_image.1 _ _ h⟩

end Scriptlet.Source
