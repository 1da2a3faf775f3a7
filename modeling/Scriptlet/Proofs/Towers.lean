import Scriptlet.Proofs.Joining
import Scriptlet.Proofs.Layout
import Scriptlet.Proofs.Takes

/-!
# Towers of Objects

A script that is nothing but a row of statements, without a function and without a deep expression,
can still make objects that are deep inside one another: each statement puts the object that it
finds under a name into a new one. Evaluating such a script takes no more levels the longer it is,
but the text of the object does. So `print` is cut off on a tower that is too high, and on one
that is a little lower where its calls are noted as well.

## Main definitions

* `Store.Tower`: objects inside one another, and a value in which they begin.
* `Tower.source`, `Tower.program`: a script that makes a tower and prints it.

## Main results

* `Store.Tower.render_eq`: how many levels the text of a tower takes.
* `Tower.program_source`: the program that the script is.
* `Tower.runIn_steps`: the statements make a tower.
* `Tower.executeProgram_eq`: how the script ends.
-/

namespace Scriptlet

open Eval (Takes)

namespace Store

variable {s : Store} {height : Nat} {v : Value}

/-- So many objects inside one another, with `undefined` in the innermost one. Each has the next one
in an entry, and itself under `this`. An object is newer than the one inside it. -/
inductive Tower (s : Store) : (height : Nat) → Value → Prop
  | ground : Tower s 0 .undefined
  | storey {height : Nat} {v : Value} {r : Ref} (h : Tower s height v)
      (ho : s.object? r = some ⟨"object", none, none, [("a", v), ("this", .object r)]⟩)
      (hnew : ∀ q, v = .object q → q.index < r.index) : Tower s (height + 1) (.object r)

/-- The text of a tower. -/
def towerText : (height : Nat) → String
  | 0 => "undefined"
  | height + 1 => entriesText ["a: " ++ towerText height, "this: " ++ ellipsis]

/-- A tower is as it was where no record has changed. -/
theorem Tower.mono {t : Store} (h : s.Tower height v)
    (ht : ∀ r o, s.object? r = some o → o.name = "object" → t.object? r = some o) :
    t.Tower height v := by
  induction h with
  | ground => exact .ground
  | storey _ ho hnew ih => exact .storey ih (ht _ _ ho rfl) hnew

/-- **The text of a tower takes some levels for each object**, and some for what is in the innermost
one. -/
theorem Tower.render_eq (h : s.Tower height v) (depth : TextDepth) (levels : Nat)
    {within : List Ref} (hw : ∀ r, v = .object r → ∀ q ∈ within, r.index < q.index)
    (enclosing : List Node) :
    s.render depth levels 0 within enclosing v =
      if height * (depth.entry + 1) + depth.atom "JSUndefined" + 1 ≤ levels then
        .ok (towerText height)
      else .error .tooDeep := by
  induction h generalizing levels within with
  | ground =>
      cases levels with
      | zero => rw [if_neg (by omega)]; rfl
      | succ levels =>
          show NoText.within (depth.atom "JSUndefined") levels (.ok "undefined") = _
          rw [NoText.within]
          by_cases hle : depth.atom "JSUndefined" ≤ levels
          · rw [if_pos hle, if_pos (by omega)]
            rfl
          · rw [if_neg hle, if_neg (by omega)]
  | @storey height v r htower ho hnew ih =>
      cases levels with
      | zero => rw [if_neg (by omega)]; rfl
      | succ levels =>
          -- the objects around are newer, so none of them is met again
          have hout : within.contains r = false := by
            refine Bool.eq_false_iff.mpr fun hin => ?_
            exact Nat.lt_irrefl _ (hw r rfl r (List.contains_iff_mem.mp hin))
          have hinner : ∀ q, v = .object q → ∀ p ∈ r :: within, q.index < p.index := by
            intro q hq p hp
            rcases List.mem_cons.mp hp with rfl | hp
            · exact hnew q hq
            · exact (hnew q hq).trans (hw r rfl p hp)
          have hentry := ih (levels - depth.entry) hinner
          rw [← render_eq_sub] at hentry
          have hthis : 0 < levels - depth.entry →
              s.render depth levels depth.entry (r :: within) enclosing (.object r) =
                .ok ellipsis := by
            intro hpos
            obtain ⟨below, hbelow⟩ := Nat.exists_eq_add_one_of_ne_zero (Nat.ne_of_gt hpos)
            rw [render_eq_sub, hbelow, render]
            simp
          simp only [render, hout, ho, List.isEmpty_cons, List.mapM_cons, List.mapM_nil, hentry,
            Bool.false_eq_true, if_false, Nat.add_one_mul]
          by_cases hle : height * (depth.entry + 1) + depth.atom "JSUndefined" + 1 ≤
              levels - depth.entry
          · rw [if_pos hle, if_pos (by omega), hthis (by omega)]
            rfl
          · rw [if_neg hle, if_neg (by omega)]
            rfl

/-- What the description of a tower takes that is not empty. -/
def towerDepth (depth : TextDepth) (height : Nat) : Nat :=
  height * (depth.entry + 1) + depth.atom "JSUndefined" + 1 + depth.atom "JSObject"

/-- So it is with the description of a tower, if there is an object in it, and with what `print`
writes. -/
theorem Tower.describe_eq (h : s.Tower (height + 1) v) (depth : TextDepth) (levels : Nat) :
    s.describe depth levels v =
        (if towerDepth depth (height + 1) ≤ levels then .ok (towerText (height + 1))
        else .error .tooDeep) ∧
      s.printed depth levels v = s.describe depth levels v := by
  cases h with
  | @storey _ _ r htower ho hnew =>
      refine ⟨?_, rfl⟩
      rw [describe, Value.describe, NoText.within,
        (Tower.storey htower ho hnew).render_eq depth _ (fun _ _ _ hq => absurd hq List.not_mem_nil)
          [], towerDepth]
      by_cases hatom : depth.atom "JSObject" ≤ levels
      · rw [if_pos hatom]
        by_cases hle : (height + 1) * (depth.entry + 1) + depth.atom "JSUndefined" + 1 ≤
            levels - depth.atom "JSObject"
        · rw [if_pos hle, if_pos (by omega)]
        · rw [if_neg hle, if_neg (by omega)]
      · rw [if_neg hatom, if_neg (by omega)]

end Store

/-! ### Printing a value -/

section

variable {s : Session} {v : Value} {text : String} {need : Nat}

/-- The session in which a line has been printed, which may have been noted. -/
def Session.printed (s : Session) (traced : Bool) (text : String) : Session :=
  ⟨s.store, s.output ++ (text ++ "\n"),
    if traced then s.events.push (.printing [text]) else s.events⟩

/-- A note takes what its text takes, below the frames of the note. -/
theorem takes_notePrinting {P : Session → Prop} (hs : P s) (stack : Stack) (hneed : 0 < need)
    (hdescribed : ∀ levels, s.store.describe stack.text levels v =
      if need ≤ levels then .ok text else .error .tooDeep) :
    Takes P s (fun levels => notePrinting stack levels [v])
      (if stack.traced then need + stack.above .record else 0) (.ok ())
      { s with events := if stack.traced then s.events.push (.printing [text]) else s.events } := by
  unfold notePrinting
  cases htraced : stack.traced with
  | false => exact .pure ()
  | true =>
      have htexts (levels : Nat) : [v].mapM (s.store.describe stack.text levels) =
          if need ≤ levels then .ok [text] else .error .tooDeep := by
        rw [List.mapM_cons, List.mapM_nil, hdescribed]
        split <;> rfl
      refine ⟨fun levels hle => ?_, fun levels hlt => ⟨s, hs, ?_⟩⟩
      · have hroom : need ≤ levels - stack.above .record := by
          have := show need + stack.above .record ≤ levels from hle
          omega
        have hreserve : stack.above .record ≤ levels := by omega
        rw [if_pos rfl, Eval.runIn_bind_of_ok (Eval.runIn_reserve_of_le hreserve s),
          Eval.runIn_bind_of_ok (Eval.runIn_store s), htexts, if_pos hroom]
        rfl
      · have hshort : ¬need ≤ levels - stack.above .record := by
          have := show levels < need + stack.above .record from hlt
          omega
        rw [if_pos rfl]
        by_cases hreserve : stack.above .record ≤ levels
        · rw [Eval.runIn_bind_of_ok (Eval.runIn_reserve_of_le hreserve s),
            Eval.runIn_bind_of_ok (Eval.runIn_store s), htexts, if_neg hshort]
          rfl
        · rw [Eval.runIn_bind, Eval.reserve, if_neg hreserve]
          rfl

/-- **Printing one value takes what its text takes**, and to note it takes still more. -/
theorem takes_print (stack : Stack) (hstack : stack.print ≤ need + stack.above .print)
    (habove : stack.above .print ≤ stack.above .record) (hneed : 0 < need)
    (hprinted : ∀ levels, s.store.printed stack.text levels v =
      if need ≤ levels then .ok text else .error .tooDeep)
    (hdescribed : ∀ levels, s.store.describe stack.text levels v =
      if need ≤ levels then .ok text else .error .tooDeep) :
    Takes (·.output = s.output) s (fun levels => Builtin.print.apply stack levels [v])
      (need + stack.above (if stack.traced then .record else .print)) (.ok .undefined)
      (s.printed stack.traced text) := by
  have hsame : (fun u : Session => u.output = s.output) s := rfl
  let noted : Session :=
    { s with events := if stack.traced then s.events.push (.printing [text]) else s.events }
  have hline : Takes (·.output = s.output) noted (fun levels => printLine stack levels [v])
      (need + stack.above .print) (.ok .undefined) (s.printed stack.traced text) := by
    have htexts (levels : Nat) : [v].mapM (s.store.printed stack.text levels) =
        if need ≤ levels then .ok [text] else .error .tooDeep := by
      rw [List.mapM_cons, List.mapM_nil, hprinted]
      split <;> rfl
    refine ⟨fun levels hle => ?_, fun levels hlt => ⟨noted, rfl, ?_⟩⟩
    · rw [runIn_printLine, show noted.store = s.store from rfl, htexts, if_pos (by omega)]
      rfl
    · rw [runIn_printLine, show noted.store = s.store from rfl, htexts, if_neg (by omega)]
      rfl
  refine .of_eq (.bind (.reserve hsame stack.print)
    (.bind (takes_notePrinting hsame stack hneed hdescribed) hline)) ?_
  split <;> omega

end

/-! ### A script that makes a tower -/

/-- A block ends as its last statement does, if the others have been run. -/
theorem runIn_block_concat {eval : Evaluator} {done : List Node} {n : Node} {frame : Ref}
    {s t u : Session} {result : Except Exit Value} (line : Int)
    (hdone : (runStatements eval done frame).runIn s = (.ok (), t))
    (h : (eval .statement n frame).runIn t = (result, u)) :
    (evaluateWith eval (.block (done ++ [n]) line) frame).runIn s =
      (result.map fun _ => .undefined, u) := by
  show (runStatements eval (done ++ [n]) frame >>= fun _ => pure Value.undefined).runIn s = _
  have hlast : (runStatements eval [n] frame).runIn t = (result.map fun _ => (), u) := by
    show ((eval .statement n frame >>= fun _ => pure ()) >>= fun _ => pure ()).runIn t = _
    rw [Eval.runIn_bind, Eval.runIn_bind, h]
    cases result <;> rfl
  rw [runStatements_append, Eval.runIn_bind, Eval.runIn_bind_of_ok hdone, hlast]
  cases result <;> rfl

namespace Tower

/-- Puts what is bound to a name into a new object, which is then bound to the name. -/
def step (line : Int) : Node := .assign "o" (.record [("a", .name "o" line)] line) false line

/-- Prints what is bound to the name. -/
def printing (line : Int) : Node := .call (.name "print" line) [.name "o" line] line

/-- So many objects, one around the other, from some line on. -/
def steps : (height : Nat) → (line : Int) → List Node
  | 0, _ => []
  | height + 1, line => step line :: steps height (line + 2)

/-- Makes a tower and prints it. -/
def program (height : Nat) : Node := .block (steps height 1 ++ [printing (1 + 2 * height)]) 1

/-- The text of one step. -/
def stepText : String := "o = \x7ba: o\x7d"

/-- The text of the program. -/
def source : (height : Nat) → String
  | 0 => "print(o)"
  | height + 1 => stepText ++ "\n;\n" ++ source height

/-- Two lines below, the steps of a tower are the same. -/
theorem relined_steps (height : Nat) (line : Int) :
    (steps height line).map (Node.relined (· + 2)) = steps height (line + 2) := by
  induction height generalizing line with
  | zero => rfl
  | succ height ih =>
      rw [steps, steps, List.map_cons, ih]
      rfl

/-- The script is the program. -/
theorem program_source (height : Nat) : Source.program (source height) = .ok (program height) := by
  induction height with
  | zero => with_unfolding_all rfl
  | succ height ih =>
      have hstep : Source.program stepText = .ok (.block [step 1] 1) := by with_unfolding_all rfl
      have huntied : Source.Untied stepText := Source.untied_of_detached (by decide +kernel)
      have hbreaks : Source.breaks stepText = 0 := by with_unfolding_all rfl
      have hne : (Source.scan stepText.toList).lexemes ≠ [] := by
        with_unfolding_all exact List.cons_ne_nil _ _
      have hprinting : (printing (1 + 2 * height)).relined (· + 2) =
          printing (1 + 2 * (height + 1 : Nat)) := by
        have hline : (1 + 2 * height + 2 : Int) = 1 + 2 * (height + 1 : Nat) := by omega
        rw [← hline]
        rfl
      rw [source, Source.program_join huntied hstep ih, if_neg hne, hbreaks, List.map_append,
        List.map_singleton]
      show Except.ok (Node.block (step 1 :: ((steps height 1).map (Node.relined (· + 2)) ++
        [(printing (1 + 2 * height)).relined (· + 2)])) 1) = _
      rw [relined_steps, hprinting]
      rfl

/-- The script is not high, however high the tower is. -/
theorem height_program (height : Nat) : (program height).height ≤ 4 := by
  have hsteps (line last : Int) : Node.heightAll (steps height line ++ [printing last]) ≤ 3 := by
    induction height generalizing line with
    | zero => exact Nat.le_succ 2
    | succ height ih =>
        rw [steps, List.cons_append, Node.heightAll]
        exact Nat.max_le.mpr ⟨le_rfl, ih (line + 2)⟩
  exact Nat.succ_le_succ (hsteps 1 _)

/-- There is room to make the program on the standard platform. -/
theorem parse_source (traced : Bool) (height : Nat) :
    (Platform.standard.tracing traced).parse (source height) = .ok (program height) :=
  Platform.parse_eq_ok_iff.mpr ⟨program_source height,
    Platform.lowers_standard_of_height (program_source height)
      ((height_program height).trans (by decide))⟩

/-! #### What the steps do -/

variable {s : Session} {frame : Ref} {height : Nat} {v : Value}

/-- The session after a step. -/
def raised (s : Session) (frame : Ref) : Session :=
  let r := s.store.fresh
  let opened := s.add (.record none)
  ((opened.put r "a" (opened.store.read frame "o")).put r "this" (.object r)).put frame "o"
    (.object r)

/-- A step puts one object around what is there. -/
theorem runIn_step (traced : Bool) (levels : Nat) (line : Int) (frame : Ref) (s : Session) :
    (evaluate (Platform.standard.tracing traced).stack (levels + 8) (step line) frame).runIn s =
      (.ok .undefined, raised s frame) := rfl

/-- Whether a name is bound to a tower in a global frame, in which `print` is what it should be. -/
structure Holds (s : Store) (frame : Ref) (height : Nat) (v : Value) : Prop where
  tower : s.Tower height v
  object : ∃ entries p, s.object? frame = some ⟨"env", none, none, entries⟩ ∧
    (entries.lookup "o").getD .undefined = v ∧ entries.lookup "print" = some (.object p) ∧
    s.action? p = some (.builtin .print)

/-- A step makes a tower higher. -/
theorem Holds.raised (h : Holds s.store frame height v) :
    Holds (raised s frame).store frame (height + 1) (.object s.store.fresh) := by
  obtain ⟨entries, p, hframe, ho, hprint, haction⟩ := h.object
  have hne : frame ≠ s.store.fresh := by
    rintro rfl
    exact Nat.lt_irrefl _ (Store.index_lt_of_object? hframe)
  have hopened : (s.store.add (.record none)).object? frame = some ⟨"env", none, none, entries⟩ :=
    (Store.object?_add_of_ne _ _ hne).trans hframe
  have hread : (s.store.add (.record none)).read frame "o" = v := by
    rw [Store.read_of_parent_eq_none hopened rfl, Store.own?, hopened]
    exact ho
  have hstore : (Tower.raised s frame).store = ((((s.store.add (.record none)).put s.store.fresh
      "a" v).put s.store.fresh "this" (.object s.store.fresh)).put frame "o"
        (.object s.store.fresh)) := by rw [← hread]; rfl
  rw [hstore]
  -- neither the frame nor the new object is in the tower that is there
  refine ⟨.storey (h.tower.mono fun r o hr hname => ?_) ?_ fun q hq => ?_, ?_⟩
  · have hr' : r ≠ s.store.fresh := by
      rintro rfl
      exact Nat.lt_irrefl _ (Store.index_lt_of_object? hr)
    have hrframe : r ≠ frame := by
      rintro rfl
      obtain rfl := Option.some.inj (hr.symm.trans hframe)
      exact absurd hname (show ¬"env" = "object" by decide)
    rw [Store.object?_put_of_ne _ hrframe, Store.object?_put_of_ne _ hr',
      Store.object?_put_of_ne _ hr', Store.object?_add_of_ne _ _ hr', hr]
  · rw [Store.object?_put_of_ne _ hne.symm, Store.object?_put_self, Store.object?_put_self,
      Store.object?_add_self]
    rfl
  · subst hq
    cases h.tower with
    | storey _ hq => exact Store.index_lt_of_object? hq
  · refine ⟨entries.put "o" (.object s.store.fresh), p, ?_, ?_, ?_, ?_⟩
    · rw [Store.object?_put_self, Store.object?_put_of_ne _ hne, Store.object?_put_of_ne _ hne,
        hopened]
      rfl
    · rw [Entries.lookup_put_self, Option.getD_some]
    · rw [Entries.lookup_put_of_ne _ (by decide), hprint]
    · rw [Store.action?_put, Store.action?_put, Store.action?_put, Store.action?_add haction]

/-- **The steps make a tower**, on few levels. -/
theorem runIn_steps (traced : Bool) (levels : Nat) (line : Int)
    (h : Holds s.store frame height v) (more : Nat) :
    ∃ w t, Holds t.store frame (height + more) w ∧ t.output = s.output ∧
      (runStatements (evaluateParts (Platform.standard.tracing traced).stack (levels + 8))
        (steps more line) frame).runIn s = (.ok (), t) := by
  induction more generalizing s v height line with
  | zero => exact ⟨v, s, h, rfl, rfl⟩
  | succ more ih =>
      obtain ⟨w, t, hw, houtput, hrun⟩ := ih (line + 2) h.raised
      refine ⟨w, t, ?_, houtput, ?_⟩
      · rwa [Nat.add_right_comm] at hw
      · rw [steps]
        exact (Eval.runIn_bind_of_ok (Eval.runIn_bind_of_ok
          (runIn_step traced levels line frame s) _) _).trans hrun

/-- The levels that the script takes with a tower that is not empty. -/
def need (traced : Bool) (height : Nat) : Nat := 2 * height + if traced then 21 else 13

/-- The last statement takes what the text of the tower takes. -/
theorem takes_printing (traced : Bool) (h : Holds s.store frame (height + 1) v) (line : Int) :
    Takes (·.output = s.output) s
      (fun levels =>
        evaluate (Platform.standard.tracing traced).stack levels (printing line) frame)
      (need traced height + 1) (.ok .undefined)
      (s.printed traced (Store.towerText (height + 1))) := by
  obtain ⟨entries, p, hframe, ho, hprint, haction⟩ := h.object
  have hread (x : String) : s.store.read frame x = (entries.lookup x).getD .undefined := by
    rw [Store.read_of_parent_eq_none hframe rfl, Store.own?, hframe]
    rfl
  have hsame : (fun u : Session => u.output = s.output) s := rfl
  have htext (levels : Nat) := h.tower.describe_eq Stack.standard.text levels
  have hprinted := takes_print (Platform.standard.tracing traced).stack
    (show 7 ≤ (height + 1) * 2 + 2 + 1 + 2 + 6 by omega) (show 6 ≤ 14 by decide)
    (show 0 < (height + 1) * 2 + 2 + 1 + 2 by omega)
    (fun levels => (htext levels).2.trans (htext levels).1) fun levels => (htext levels).1
  have hname : Takes (·.output = s.output) s (fun levels =>
      evaluate (Platform.standard.tracing traced).stack levels (.name "o" line) frame) 3 (.ok v)
      s := by
    have hvalue := hread "o"
    rw [ho] at hvalue
    rw [← hvalue]
    exact takes_name (P := (·.output = s.output)) rfl "o" line 0
  have hcallee : s.store.read frame "print" = .object p := by rw [hread, hprint, Option.getD_some]
  refine .of_eq (takes_evaluateSpaced (n := printing line) hsame (takes_call hsame hcallee haction
    (.bind (takes_operand hname) (takes_invoke_of_builtin haction hprinted))) 0) ?_
  cases traced with
  | false =>
      show max (max (2 + 1 + 1) (max (2 + 1 + 3) ((height + 1) * 2 + 2 + 1 + 2 + 6))) 1 + 1 + 0 =
        2 * height + 13 + 1
      omega
  | true =>
      show max (max (2 + 1 + 1) (max (2 + 1 + 3) ((height + 1) * 2 + 2 + 1 + 2 + 14))) 1 + 1 + 0 =
        2 * height + 21 + 1
      omega

/-- The script comes to the last statement with a tower. -/
theorem exists_last (traced : Bool) (height levels : Nat) :
    ∃ w t, Holds t.store Store.empty.fresh height w ∧ t.output = "" ∧
      (runStatements (evaluateParts (Platform.standard.tracing traced).stack (levels + 8))
        (steps height 1) Store.empty.fresh).runIn (Visit.start (program height)).session =
          (.ok (), t) := by
  have hstart : Holds (Visit.start (program height)).session.store Store.empty.fresh 0 .undefined :=
    ⟨.ground, _, ⟨1⟩, rfl, rfl, rfl, rfl⟩
  obtain ⟨w, t, hw, houtput, hrun⟩ := runIn_steps traced levels 1 hstart height
  rw [Nat.zero_add] at hw
  exact ⟨w, t, hw, houtput, hrun⟩

/-- **The script prints its tower, or nothing**, as there are levels for it. -/
theorem executeProgram_eq {on : Platform} {traced : Bool}
    (hon : on.stack = (Platform.standard.tracing traced).stack) (hlimit : 9 ≤ on.limit)
    (height : Nat) :
    (executeProgram on (program (height + 1))).ending =
        (if need traced (height + 1) ≤ on.limit then .finished else .tooDeep) ∧
      (executeProgram on (program (height + 1))).output =
        if need traced (height + 1) ≤ on.limit then Store.towerText (height + 1) ++ "\n"
        else "" := by
  obtain ⟨levels, hlevels⟩ := Nat.exists_eq_add_of_le' hlimit
  obtain ⟨w, t, hw, houtput, hsteps⟩ := exists_last traced (height + 1) levels
  have hlast := takes_printing traced hw (1 + 2 * (height + 1 : Nat))
  have hblock {result : Except Exit Value} {u : Session}
      (h : (evaluate (Platform.standard.tracing traced).stack (levels + 8)
        (printing (1 + 2 * (height + 1 : Nat))) Store.empty.fresh).runIn t = (result, u)) :
      (evaluate on.stack on.limit (program (height + 1)) Store.empty.fresh).runIn
          (Session.empty.started (program (height + 1))) =
        ((result.map fun _ => .undefined).mapError (Exit.onLine 1), u) := by
    rw [hon, hlevels, evaluate, runIn_evaluateSpaced_succ (Nat.zero_le _)]
    have hn : (evaluateParts (Platform.standard.tracing traced).stack (levels + 8) .statement
        (printing (1 + 2 * (height + 1 : Nat))) Store.empty.fresh).runIn t = (result, u) := h
    have hrun : (evaluateWith (evaluateParts (Platform.standard.tracing traced).stack (levels + 8))
        (program (height + 1)) Store.empty.fresh).runIn
          (Session.empty.started (program (height + 1))) =
        (result.map fun _ => .undefined, u) := runIn_block_concat 1 hsteps hn
    rw [hrun]
    rfl
  by_cases hneed : need traced (height + 1) ≤ on.limit
  · have henough : need traced height + 1 ≤ levels + 8 := by
      rw [need] at hneed ⊢
      omega
    obtain ⟨hwritten, hending⟩ :=
      executeProgram_of_evaluate (hblock (hlast.enough _ henough)) nofun
    rw [if_pos hneed, if_pos hneed, hending, hwritten]
    refine ⟨rfl, ?_⟩
    show t.output ++ _ = _
    rw [houtput, String.empty_append]
  · have hshort : levels + 8 < need traced height + 1 := by
      rw [need] at hneed ⊢
      omega
    obtain ⟨u, hu, hdeep⟩ := hlast.short _ hshort
    obtain ⟨hwritten, hending⟩ := executeProgram_of_evaluate (hblock hdeep) nofun
    rw [if_neg hneed, if_neg hneed, hending, hwritten]
    exact ⟨rfl, hu.trans houtput⟩

end Tower

end Scriptlet
