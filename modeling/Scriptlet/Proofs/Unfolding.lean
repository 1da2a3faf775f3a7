import Scriptlet.Proofs.Settling
import Scriptlet.Proofs.Towers

/-!
# Texts of Cyclic Objects

Objects may hold each other and themselves, so there is no last object to begin with when one is
written. `Unfolds` says which text a value has, inside the objects that are being written around it:
an occurrence of one of these is an ellipsis, and every other object is written in full, with its
entries inside itself. What was written before, on another way down, is of no account, so what two
entries share is written in both.

On each way down no object is written twice, and there are only so many. So the text is finite, and
there is no other. It takes some levels to write it, as many as the objects are deep inside one
another, and where there are fewer it is not written at all: a tower of objects may be too high for
any number of levels that is given beforehand.

## Main definitions

* `Store.Unfolds`: the text of a value inside some objects.
* `Session.Ran`: the sessions that source texts lead to, run one after another.

## Main results

* `Store.Unfolds.unique`, `Store.unfolds_ellipsis_iff`: what is written is determined.
* `Store.unfolds_of_render`: what is written is the text of the value.
* `Store.exists_unfolds`: a value that a script may get hold of has a text.
* `displays_unfolding`: values of a run, as they are shown and printed.
-/

namespace Scriptlet

open Eval (Takes)
open Filter (atTop)

namespace Store

/-- The text of a value inside the objects `path`, the innermost one first. -/
inductive Unfolds (s : Store) : (path : List Ref) → Value → String → Prop
  | undefined {path : List Ref} : s.Unfolds path .undefined "undefined"
  | integer {path : List Ref} {k : Int} (h : k.natAbs < Text.numeralBound) :
      s.Unfolds path (.integer k) (toString k)
  | string {path : List Ref} {text : String} : s.Unfolds path (.string text) (stringText text)
  /-- A node in which there are no objects, written as if no part of it took levels. -/
  | node {path : List Ref} {n : Node} {text : String} {levels : Nat}
      (h : n.describe .flat (fun _ _ _ => .error .tooDeep) levels [] = .ok text) :
      s.Unfolds path (.node n) text
  /-- One of the objects around it. -/
  | met {path : List Ref} {r : Ref} (h : r ∈ path) : s.Unfolds path (.object r) ellipsis
  | function {path : List Ref} {r : Ref} {o : Object} (h : r ∉ path) (ho : s.object? r = some o)
      (he : o.entries = []) (hc : o.callable = true) :
      s.Unfolds path (.object r) ("<function " ++ o.name ++ ">")
  | empty {path : List Ref} {r : Ref} {o : Object} (h : r ∉ path) (ho : s.object? r = some o)
      (he : o.entries = []) (hc : o.callable = false) : s.Unfolds path (.object r) "\x7b\x7d"
  /-- Any other object has its entries inside itself, in their order. -/
  | entries {path : List Ref} {r : Ref} {o : Object} {texts : List String} (h : r ∉ path)
      (ho : s.object? r = some o) (he : o.entries ≠ []) (hl : texts.length = o.entries.length)
      (ht : ∀ p ∈ o.entries.zip texts, s.Unfolds (r :: path) p.1.2 p.2) :
      s.Unfolds path (.object r)
        (entriesText (List.zipWith (fun e text => e.1 ++ ": " ++ text) o.entries texts))

variable {s : Store} {path : List Ref} {v : Value} {r g : Ref}

/-! ### What is written is determined -/

/-- If no part of a description takes levels, it does not depend on how many there are. -/
theorem eq_of_describe_flat {n : Node} {levels levels' : Nat} {text text' : String}
    (h : n.describe .flat (fun _ _ _ => .error .tooDeep) levels [] = .ok text)
    (h' : n.describe .flat (fun _ _ _ => .error .tooDeep) levels' [] = .ok text') :
    text = text' := by
  have more {few : Nat} {text : String} (hle : few ≤ max levels levels')
      (h : n.describe .flat (fun _ _ _ => .error .tooDeep) few [] = .ok text) :
      n.describe .flat (fun _ _ _ => .error .tooDeep) (max levels levels') [] = .ok text := by
    have hshort : NoText.ShortOf (n.describe .flat (fun _ _ _ => .error .tooDeep) few [])
        (n.describe .flat (fun _ _ _ => .error .tooDeep) (max levels levels') []) :=
      n.shortOf_describe (.refl .flat) (fun _ _ _ _ _ => .tooDeep _) hle []
    rw [hshort (by rw [h]; exact nofun), h]
  exact Except.ok.inj ((more (le_max_left ..) h).symm.trans (more (le_max_right ..) h'))

/-- Rows of texts are the same if each text is the only one for its element. -/
theorem eq_of_forall_zip {α : Type} {R : α → String → Prop} {as : List α}
    {texts texts' : List String} (hl : texts.length = as.length) (hl' : texts'.length = as.length)
    (h : ∀ p ∈ as.zip texts, ∀ text, R p.1 text → p.2 = text)
    (h' : ∀ p ∈ as.zip texts', R p.1 p.2) : texts = texts' := by
  induction as generalizing texts texts' with
  | nil => rw [List.length_eq_zero_iff.mp hl, List.length_eq_zero_iff.mp hl']
  | cons a rest ih =>
      obtain ⟨text, texts, rfl⟩ := List.exists_cons_of_length_eq_add_one hl
      obtain ⟨text', texts', rfl⟩ := List.exists_cons_of_length_eq_add_one hl'
      obtain ⟨hfirst, hrest⟩ := List.forall_mem_cons.mp h
      obtain ⟨hfirst', hrest'⟩ := List.forall_mem_cons.mp h'
      have htext : text = text' := hfirst text' hfirst'
      rw [htext, ih (Nat.succ.inj hl) (Nat.succ.inj hl') hrest hrest']

/-- A value has at most one text. -/
theorem Unfolds.unique {text text' : String} (h : s.Unfolds path v text)
    (h' : s.Unfolds path v text') : text = text' := by
  induction h generalizing text' with
  | undefined | integer | string =>
      cases h'
      rfl
  | node h =>
      cases h' with
      | node h' => exact eq_of_describe_flat h h'
  | met h =>
      cases h' with
      | met => rfl
      | function hn | empty hn | entries hn => exact absurd h hn
  | function hn ho he hc =>
      cases h' with
      | met h => exact absurd h hn
      | function _ ho' =>
          obtain rfl := Option.some.inj (ho.symm.trans ho')
          rfl
      | empty _ ho' _ hc' =>
          obtain rfl := Option.some.inj (ho.symm.trans ho')
          exact nomatch hc.symm.trans hc'
      | entries _ ho' he' =>
          obtain rfl := Option.some.inj (ho.symm.trans ho')
          exact absurd he he'
  | empty hn ho he hc =>
      cases h' with
      | met h => exact absurd h hn
      | function _ ho' _ hc' =>
          obtain rfl := Option.some.inj (ho.symm.trans ho')
          exact nomatch hc.symm.trans hc'
      | empty => rfl
      | entries _ ho' he' =>
          obtain rfl := Option.some.inj (ho.symm.trans ho')
          exact absurd he he'
  | entries hn ho he hl _ ih =>
      cases h' with
      | met h => exact absurd h hn
      | function _ ho' he' | empty _ ho' he' =>
          obtain rfl := Option.some.inj (ho.symm.trans ho')
          exact absurd he' he
      | entries _ ho' _ hl' ht' =>
          obtain rfl := Option.some.inj (ho.symm.trans ho')
          rw [eq_of_forall_zip (R := fun e text => s.Unfolds _ e.2 text) hl hl'
            (fun p hp text => ih p hp) ht']

/-- An object is an ellipsis exactly if it is one of the objects around it. -/
theorem unfolds_ellipsis_iff : s.Unfolds path (.object r) ellipsis ↔ r ∈ path := by
  refine ⟨fun h => ?_, .met⟩
  generalize htext : ellipsis = text at h
  -- every other text of an object begins with another character
  have hhead := congrArg (fun t => t.toList.head?) htext
  cases h with
  | met h => exact h
  | function | empty => simp [ellipsis] at hhead
  | entries => simp [ellipsis, entriesText] at hhead

end Store

/-! ### What is written is the text -/

/-- What `print` writes of a value that has a text: a string is written without its quotes. -/
def Value.printedAs (v : Value) (text : String) : String :=
  match v with
  | .string plain => plain
  | _ => text

/-- A row of elements that could be written, each with a label, has a text for each. -/
theorem exists_of_mapM_labelled {α : Type} {text? : α → Except NoText String}
    (label : α → String → String) {as : List α} {labelled : List String}
    (h : as.mapM (fun a => do return label a (← text? a)) = .ok labelled) :
    ∃ texts, texts.length = as.length ∧ labelled = List.zipWith label as texts ∧
      ∀ p ∈ as.zip texts, text? p.1 = .ok p.2 := by
  induction as generalizing labelled with
  | nil =>
      obtain rfl := Except.ok.inj h
      exact ⟨[], rfl, rfl, List.forall_mem_nil _⟩
  | cons a rest ih =>
      rw [List.mapM_cons] at h
      cases htext : text? a with
      | error why =>
          rw [htext] at h
          cases h
      | ok text =>
          rw [htext] at h
          cases hrest : rest.mapM (fun a => do return label a (← text? a)) with
          | error why =>
              rw [hrest] at h
              cases h
          | ok more =>
              rw [hrest] at h
              obtain rfl := Except.ok.inj h
              obtain ⟨texts, hl, rfl, htexts⟩ := ih hrest
              exact ⟨text :: texts, congrArg Nat.succ hl, rfl,
                List.forall_mem_cons.mpr ⟨htext, htexts⟩⟩

namespace Store

variable {s : Store} {g : Ref} {v : Value} {depth : TextDepth} {levels : Nat} {text : String}

/-- The description of a value that is neither an object nor a string is its text. -/
theorem unfolds_of_describe {object : (levels : Nat) → List Node → Ref → Except NoText String}
    (hv : s.Public v) (hobject : ∀ r, v ≠ .object r) (hstring : ∀ text, v ≠ .string text)
    (h : v.describe depth object levels [] = .ok text) (path : List Ref) :
    s.Unfolds path v text := by
  cases v with
  | undefined =>
      obtain rfl := Except.ok.inj (NoText.eq_ok_of_within h)
      exact .undefined
  | integer k =>
      obtain ⟨hk, rfl⟩ := NoText.of_numeral_eq_ok (NoText.eq_ok_of_within h)
      exact .integer hk
  | string plain => exact absurd rfl (hstring plain)
  | object r => exact absurd rfl (hobject r)
  | node n =>
      have hn : n.Plain := hv
      rw [Value.describe, hn.describe_eq depth object (fun _ _ _ => .error .tooDeep)] at h
      have hflat : NoText.ShortOf (n.describe depth (fun _ _ _ => .error .tooDeep) levels [])
          (n.describe .flat (fun _ _ _ => .error .tooDeep) levels []) :=
        n.shortOf_describe (TextDepth.flat_atMost depth) (fun _ _ _ _ _ => .tooDeep _) le_rfl []
      exact .node ((hflat (by simp [h])).trans h)

/-- **What is written of a value is its text**, however many levels there were for it. -/
theorem unfolds_of_render (hs : s.Sealed g) (hv : s.Public v) {path : List Ref}
    (h : s.render depth levels 0 path [] v = .ok text) : s.Unfolds path v text := by
  induction levels using Nat.strong_induction_on generalizing path v text with
  | _ levels ih =>
  cases levels with
  | zero => cases h
  | succ levels =>
      cases v with
      | string plain =>
          obtain rfl := Except.ok.inj h
          exact .string
      | undefined | integer | node => exact unfolds_of_describe hv nofun nofun h path
      | object r =>
          obtain ⟨o, ho, -⟩ := hv
          rw [render] at h
          split at h
          next hmet =>
            obtain rfl := Except.ok.inj h
            exact .met (List.contains_iff_mem.mp hmet)
          next hmet =>
          have hr : r ∉ path := fun hmem => hmet (List.contains_iff_mem.mpr hmem)
          simp only [ho] at h
          split at h
          next he =>
            have hempty := List.isEmpty_iff.mp he
            obtain rfl := Except.ok.inj h
            cases hc : o.callable with
            | true => exact .function hr ho hempty hc
            | false => exact .empty hr ho hempty hc
          next he =>
            cases hentries : o.entries.mapM (fun e : String × Value => do
                return e.1 ++ ": " ++ (← s.render depth levels depth.entry (r :: path) [] e.2)) with
            | error why =>
                rw [hentries] at h
                cases h
            | ok entries =>
                rw [hentries] at h
                obtain rfl := Except.ok.inj h
                obtain ⟨texts, hl, rfl, htexts⟩ := exists_of_mapM_labelled
                  (fun e : String × Value => (e.1 ++ ": " ++ ·)) hentries
                refine .entries hr ho (fun hempty => he (List.isEmpty_iff.mpr hempty)) hl ?_
                intro p hp
                have hentry := htexts p hp
                rw [render_eq_sub] at hentry
                have hmem := (List.of_mem_zip hp).1
                exact ih (levels - depth.entry) (by omega) ((hs.holds r o ho).entries _ hmem) hentry

/-- What `print` writes of a value comes from its text. -/
theorem exists_unfolds_of_printed (hs : s.Sealed g) (hv : s.Public v)
    (h : s.printed depth levels v = .ok text) :
    ∃ full, s.Unfolds [] v full ∧ text = v.printedAs full := by
  cases v with
  | string plain => exact ⟨_, .string, (Except.ok.inj h).symm⟩
  | undefined => exact ⟨_, .undefined, (Except.ok.inj h).symm⟩
  | integer | node =>
      have hdescribed : s.describe depth levels _ = .ok text := h
      exact ⟨text, unfolds_of_describe hv nofun nofun hdescribed [], rfl⟩
  | object r => exact ⟨text, unfolds_of_render hs hv (NoText.eq_ok_of_within h), rfl⟩

/-- **Every value that a script may get hold of has a text**, in which an object is cut off exactly
where it is met inside itself. It is shown and printed with as many levels as that takes. -/
theorem exists_unfolds (hs : s.Sealed g) (hv : s.Public v) (hw : s.Writable v) :
    ∃ text, s.Unfolds [] v text ∧ ∀ depth,
      (∃ need, ∀ levels, s.display depth levels v =
        if need ≤ levels then .ok text else .error .tooDeep) ∧
      ∃ need, ∀ levels, s.printed depth levels v =
        if need ≤ levels then .ok (v.printedAs text) else .error .tooDeep := by
  have shown (depth : TextDepth) : ∃ text, s.Unfolds [] v text ∧
      ∀ᶠ levels in atTop, s.display depth levels v = .ok text := by
    rcases settles_display hs depth hv with ⟨text, htext⟩ | ⟨hlarge, -⟩
    · obtain ⟨levels, hlevels⟩ := htext.exists
      exact ⟨text, unfolds_of_render hs hv hlevels, htext⟩
    · exact absurd hw hlarge
  obtain ⟨text, hunfolds, -⟩ := shown .flat
  refine ⟨text, hunfolds, fun depth => ⟨?_, ?_⟩⟩
  · obtain ⟨text', hunfolds', htext⟩ := shown depth
    obtain rfl := hunfolds.unique hunfolds'
    exact NoText.exists_need (fun hle => s.shortOf_display hle v) htext
  · rcases settles_printed hs depth hv with ⟨written, hwritten⟩ | ⟨hlarge, -⟩
    · obtain ⟨levels, hlevels⟩ := hwritten.exists
      obtain ⟨full, hfull, rfl⟩ := exists_unfolds_of_printed hs hv hlevels
      obtain rfl := hunfolds.unique hfull
      exact NoText.exists_need (fun hle => s.shortOf_printed hle v) hwritten
    · exact absurd hw hlarge

/-- The same for several values, with the texts of all in a row. -/
theorem exists_unfolds_all (hs : s.Sealed g) {values : List Value}
    (hv : ∀ v ∈ values, s.Public v ∧ s.Writable v) :
    ∃ texts, texts.length = values.length ∧ (∀ p ∈ values.zip texts, s.Unfolds [] p.1 p.2) ∧
      ∀ depth, ∀ᶠ levels in atTop, values.mapM (s.printed depth levels) =
        .ok (List.zipWith Value.printedAs values texts) := by
  induction values with
  | nil => exact ⟨[], rfl, List.forall_mem_nil _, fun depth => .of_forall fun _ => rfl⟩
  | cons v rest ih =>
      obtain ⟨⟨hpublic, hw⟩, hrest⟩ := List.forall_mem_cons.mp hv
      obtain ⟨text, hunfolds, htext⟩ := exists_unfolds hs hpublic hw
      obtain ⟨texts, hl, hunfoldsAll, htexts⟩ := ih hrest
      refine ⟨text :: texts, congrArg Nat.succ hl, List.forall_mem_cons.mpr ⟨hunfolds, hunfoldsAll⟩,
        fun depth => ?_⟩
      obtain ⟨-, need, hprinted⟩ := htext depth
      filter_upwards [htexts depth, Filter.eventually_ge_atTop need] with levels hrest hle
      rw [List.mapM_cons, hprinted, if_pos hle, hrest]
      rfl

/-- Values that a script may get hold of are printed with their texts, if there are levels for all
of them. -/
theorem exists_takes_print_unfolds {t : Session} (hs : t.store.Sealed g) {values : List Value}
    (hv : ∀ v ∈ values, t.store.Public v ∧ t.store.Writable v) :
    ∃ texts, texts.length = values.length ∧ (∀ p ∈ values.zip texts, t.store.Unfolds [] p.1 p.2) ∧
      ∀ stack, ∃ need u, Takes (·.output = t.output) t
        (fun levels => Builtin.print.apply stack levels values) need (.ok .undefined) u ∧
      u.output =
        t.output ++ (" ".intercalate (List.zipWith Value.printedAs values texts) ++ "\n") := by
  obtain ⟨texts, hl, hunfolds, htexts⟩ := exists_unfolds_all hs hv
  refine ⟨texts, hl, hunfolds, fun stack => ?_⟩
  obtain ⟨u, -, houtput, hrun⟩ :=
    Builtin.eventually_print hs stack (fun v h => (hv v h).1) (htexts stack.text)
  obtain ⟨need, htakes⟩ := Builtin.exists_takes_print stack values hrun nofun
  refine ⟨need, _, htakes, ?_⟩
  show u.output ++ _ = _
  rw [houtput]

end Store

/-! ### Runs -/

/-- The sessions that source texts lead to when they are run one after another in one global frame,
however each of them ends. -/
inductive Session.Ran : Session → Prop
  | start {s : Session} (h : s.store = Store.empty.addGlobal) : s.Ran
  | text {s t : Session} {source : String} {program : Node} {stack : Stack} {levels : Nat}
      {result : Except Exit Value} (h : s.Ran) (hp : Source.program source = .ok program)
      (hrun : (evaluate stack levels program Store.empty.fresh).runIn s = (result, t)) : t.Ran

/-- Whatever was run before, the objects are sealed. -/
theorem Session.Ran.sealed {s : Session} (h : s.Ran) : s.store.Sealed Store.empty.fresh := by
  induction h with
  | start h =>
      rw [h]
      exact Store.sealed_addGlobal
  | @text s t source program stack levels result _ hp hrun ih =>
      have hv : (Visit.mk program Store.empty.fresh s).Proper Store.empty.fresh :=
        ⟨Source.plain_of_program hp, ih, ih.isFrame⟩
      obtain ⟨-, hsealed, -⟩ := seals_evaluateSpaced stack levels 0 _ hv
      have hrun : (evaluateSpaced stack levels 0 program Store.empty.fresh).runIn s =
          (result, t) := hrun
      rwa [hrun] at hsealed

/-- **Cyclic objects are written, and cut off exactly where they are cyclic.** Whatever was run
before, each value of a run whose integers can be written has one text: the one that `Unfolds` says,
in which an object is an ellipsis exactly where it is inside itself. That text, and no other, is
shown in error messages, and printed, however many values are printed at once: it takes so many
levels, and with fewer nothing is written. -/
theorem displays_unfolding {s : Session} (hs : s.Ran) {source : String} {program : Node}
    (hp : Source.program source = .ok program) {stack : Stack} {levels : Nat} {m : Moment}
    (hm : Reaches stack levels 0 ⟨program, Store.empty.fresh, s⟩ m) :
    (∀ v, m.Has v → m.store.Writable v → ∃ text,
      (∀ text', m.store.Unfolds [] v text' ↔ text' = text) ∧ ∀ depth,
        (∃ need, ∀ levels,
          m.store.display depth levels v =
            (if need ≤ levels then .ok text else .error .tooDeep) ∧
          (Eval.shown depth levels v).runIn m.session =
            (if need ≤ levels then .ok text else .error .tooDeep, m.session)) ∧
        ∃ need, ∀ levels, m.store.printed depth levels v =
          if need ≤ levels then .ok (v.printedAs text) else .error .tooDeep) ∧
    (∀ path r, m.store.Unfolds path (.object r) ellipsis ↔ r ∈ path) ∧
    ∀ values, (∀ v ∈ values, m.Has v ∧ m.store.Writable v) → ∃ texts,
      texts.length = values.length ∧ (∀ p ∈ values.zip texts, m.store.Unfolds [] p.1 p.2) ∧
      ∀ stack, ∃ need t, Takes (·.output = m.session.output) m.session
        (fun levels => Builtin.print.apply stack levels values) need (.ok .undefined) t ∧
      t.output = m.session.output ++
        (" ".intercalate (List.zipWith Value.printedAs values texts) ++ "\n") := by
  have hproper := hm.proper ⟨Source.plain_of_program hp, hs.sealed, hs.sealed.isFrame⟩
  refine ⟨fun v hv hw => ?_, fun path r => Store.unfolds_ellipsis_iff, fun values hvalues => ?_⟩
  · obtain ⟨text, hunfolds, htext⟩ :=
      Store.exists_unfolds hproper.sealed (hproper.public_of_has hv) hw
    refine ⟨text, fun text' => ⟨fun h => h.unique hunfolds, fun h => h ▸ hunfolds⟩, fun depth => ?_⟩
    obtain ⟨⟨need, hdisplay⟩, hprinted⟩ := htext depth
    refine ⟨⟨need, fun levels => ⟨hdisplay levels, ?_⟩⟩, hprinted⟩
    rw [Eval.shown, Eval.runIn_bind_of_ok (Eval.runIn_store _)]
    have hshown : m.session.store.display depth levels v = _ := hdisplay levels
    rw [hshown]
    split <;> rfl
  · exact Store.exists_takes_print_unfolds hproper.sealed fun v hv =>
      ⟨hproper.public_of_has (hvalues v hv).1, (hvalues v hv).2⟩

namespace Unfolding

/-- Makes an object that is shared by two entries of another one. -/
def source : String := "a = \x7bx: 's'\x7d; o = \x7bl: a, r: a, p: print\x7d;"

/-- The program of this text. -/
def program : Node :=
  .block [.assign "a" (.record [("x", .constant (.string "s") 1)] 1) false 1,
    .assign "o" (.record [("l", .name "a" 1), ("r", .name "a" 1), ("p", .name "print" 1)] 1)
      false 1] 1

theorem program_source : Source.program source = .ok program := by
  with_unfolding_all rfl

/-- The session when it has been run. -/
def session : Session :=
  ((evaluate .standard 40 program ⟨0⟩).runIn (Visit.start program).session).2

/-- What is found in the outer object. -/
def found : List Value := [.object ⟨14⟩, .object ⟨13⟩, .object ⟨1⟩, .string "s"]

theorem mem_found_of_entry {r : Ref} {o : Object} {e : String × Value}
    (ho : session.store.object? r = some o) (he : e ∈ o.entries) (hr : .object r ∈ found) :
    e.2 ∈ found := by
  have hshared : session.store.object? ⟨13⟩ =
      some ⟨"object", none, none, [("x", .string "s"), ("this", .object ⟨13⟩)]⟩ := rfl
  have houter : session.store.object? ⟨14⟩ = some ⟨"object", none, none,
      [("l", .object ⟨13⟩), ("r", .object ⟨13⟩), ("p", .object ⟨1⟩), ("this", .object ⟨14⟩)]⟩ := rfl
  have hprint : session.store.object? ⟨1⟩ =
      some ⟨"print", none, some (.builtin .print), []⟩ := rfl
  simp only [found, List.mem_cons, Value.object.injEq, reduceCtorEq, List.not_mem_nil, or_false]
    at hr
  rcases hr with rfl | rfl | rfl
  · obtain rfl := Option.some.inj (houter.symm.trans ho)
    revert e
    simp [found]
  · obtain rfl := Option.some.inj (hshared.symm.trans ho)
    revert e
    simp [found]
  · obtain rfl := Option.some.inj (hprint.symm.trans ho)
    cases he

theorem writable_outer : session.store.Writable (.object ⟨14⟩) := by
  have hfound {v w : Value} (h : session.store.Within v w) (hv : v ∈ found) : w ∈ found := by
    induction h with
    | self => exact hv
    | entry ho he _ ih => exact ih (mem_found_of_entry ho he hv)
    | literal => simp [found] at hv
  intro k hk
  have hnone := hfound hk List.mem_cons_self
  simp [found] at hnone

end Unfolding

/-- The shared object is written twice, and each object is an ellipsis inside itself only. -/
theorem unfolds_sharedObject :
    (Visit.start Unfolding.program).session.Ran ∧
    Source.program Unfolding.source = .ok Unfolding.program ∧
    Reaches .standard 40 0
        ⟨Unfolding.program, Store.empty.fresh, (Visit.start Unfolding.program).session⟩
        (.ends (Visit.start Unfolding.program) (.ok .undefined) Unfolding.session) ∧
    Moment.Has (.ends (Visit.start Unfolding.program) (.ok .undefined) Unfolding.session)
      (.object ⟨14⟩) ∧
    Unfolding.session.store.Writable (.object ⟨14⟩) ∧
    Unfolding.session.store.Unfolds [] (.object ⟨14⟩)
      ("\x7b l: \x7b x: \x22s\x22, this: ... \x7d, r: \x7b x: \x22s\x22, this: ... \x7d, " ++
        "p: <function print>, this: ... \x7d") := by
  have hran : (Visit.start Unfolding.program).session.Ran := .start rfl
  have hends : Reaches .standard 40 0
      ⟨Unfolding.program, Store.empty.fresh, (Visit.start Unfolding.program).session⟩
      (.ends (Visit.start Unfolding.program) (.ok .undefined) Unfolding.session) := .ends rfl
  have hhas : Moment.Has (.ends (Visit.start Unfolding.program) (.ok .undefined) Unfolding.session)
      (.object ⟨14⟩) := .inr ⟨⟨0⟩, _, rfl, .inl ⟨"o", List.mem_of_getLast? rfl⟩⟩
  obtain ⟨text, hunfolds, hwritten⟩ := (displays_unfolding hran Unfolding.program_source
    hends).1 _ hhas Unfolding.writable_outer
  obtain ⟨⟨need, hdisplay⟩, -⟩ := hwritten Stack.standard.text
  refine ⟨hran, Unfolding.program_source, hends, hhas, Unfolding.writable_outer,
    (hunfolds _).mpr ?_⟩
  have htext : Unfolding.session.store.display Stack.standard.text 40 (.object ⟨14⟩) =
      .ok ("\x7b l: \x7b x: \x22s\x22, this: ... \x7d, r: \x7b x: \x22s\x22, this: ... \x7d, " ++
        "p: <function print>, this: ... \x7d") := by
    decide +kernel
  have hshown := htext.symm.trans (hdisplay 40).1
  split at hshown
  · exact Except.ok.inj hshown
  · cases hshown

/-! ### Towers -/

namespace Store

/-- What is found in a tower is a lower one. -/
theorem Tower.within {s : Store} {height : Nat} {v w : Value} (h : s.Tower height v)
    (hw : s.Within v w) : ∃ lower, s.Tower lower w := by
  induction hw generalizing height with
  | self => exact ⟨height, h⟩
  | @entry r o e w ho he _ ih =>
      cases h with
      | storey hinner ho' hnew =>
          obtain rfl := Option.some.inj (ho.symm.trans ho')
          rcases List.mem_pair.mp he with rfl | rfl
          · exact ih hinner
          · exact ih (.storey hinner ho' hnew)
  | literal => cases h

/-- The integers in a tower can be written, as there are none. -/
theorem Tower.writable {s : Store} {height : Nat} {v : Value} (h : s.Tower height v) :
    s.Writable v := by
  intro k hk
  obtain ⟨lower, hlower⟩ := h.within hk
  cases hlower

end Store

/-- A script comes to a moment at which a name is bound to an object that no level the standard
platform has is enough to write: six thousand objects are one inside the other. -/
theorem not_displays_tower :
    Source.program (Tower.source 6000) = .ok (Tower.program 6000) ∧
      ∃ m v, Reaches .standard 9990 0 (Visit.start (Tower.program 6000)) m ∧ m.Has v ∧
        m.store.Writable v ∧ ∀ levels ≤ 9990,
          m.store.display Stack.standard.text levels v = .error .tooDeep := by
  obtain ⟨v, t, hv, -, hsteps⟩ := Tower.exists_last false 6000 9981
  obtain ⟨entries, p, hframe, hvalue, -, -⟩ := hv.object
  have hmem : ("o", v) ∈ entries := by
    cases hlookup : entries.lookup "o" with
    | none =>
        rw [hlookup] at hvalue
        subst hvalue
        cases hv.tower
    | some w =>
        rw [hlookup, Option.getD_some] at hvalue
        obtain ⟨before, after, hentries, -⟩ := List.lookup_eq_some_iff.mp hlookup
        simp [hentries, hvalue]
  refine ⟨Tower.program_source 6000, _, v, .part (Nat.zero_le _) (.statement hsteps) .begins,
    .inr ⟨_, _, hframe, .inl ⟨"o", hmem⟩⟩, hv.tower.writable, fun levels hle => ?_⟩
  have hfew : ¬6000 * (1 + 1) + 2 + 1 ≤ levels := by omega
  exact (hv.tower.render_eq Stack.standard.text levels
    (fun _ _ _ hq => absurd hq List.not_mem_nil) []).trans (if_neg hfew)

end Scriptlet
