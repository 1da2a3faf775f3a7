import Mathlib.Data.List.MinMax
import Scriptlet.Proofs.Settling
import Scriptlet.Proofs.Towers

/-!
# Programs Without Functions End

Calls go through values that a run finds in the store, and only a function that was written can lead
back into the program. Where none is written there is none in the store: whatever a script does to
its objects, what it calls is built in. Then every visit is of a node right below that of the visit
around it, so no more visits are open at a time than the tree is high.

Such a program comes to an end by itself: it takes some levels, and with these it ends in one way,
however many more there are. It may take more than a platform has, not because it would go on
forever, but because the tree is high or because a text is deep. A script that only puts objects
into one another shows that the second can happen to a tree of four nodes in height.

## Main definitions

* `Nests`: visits that are open at a time.
* `Node.Terminates`: a program that comes to an end by itself.

## Main results

* `Nests.length_le_height`: no more visits are open than the tree is high.
* `functionFree_ends`: a program without functions ends.
-/

namespace Scriptlet

namespace Node

/-! ### Height -/

/-- The height of some nodes is that of the highest. -/
theorem heightAll_eq (ns : List Node) : heightAll ns = (ns.map height).foldr max 0 := by
  induction ns with
  | nil => rfl
  | cons n rest ih => rw [heightAll, ih, List.map_cons, List.foldr_cons]

/-- The height of entries is that of their nodes. -/
theorem heightEntries_eq (entries : List (String × Node)) :
    heightEntries entries = heightAll (entries.map Prod.snd) := by
  induction entries with
  | nil => rfl
  | cons e rest ih => rw [heightEntries, ih, List.map_cons, heightAll]

/-- A node is one higher than the highest of the nodes right below it. -/
theorem height_eq (n : Node) : n.height = (n.children.map height).foldr max 0 + 1 := by
  cases n <;> simp [height, children, heightAll_eq, heightEntries_eq]

/-- No node is without height. -/
theorem height_pos (n : Node) : 0 < n.height := by
  rw [height_eq]
  exact Nat.succ_pos _

/-- A child is lower than its node. -/
theorem height_lt_of_mem_children {n m : Node} (h : m ∈ n.children) : m.height < n.height := by
  have hle : m.height ≤ (n.children.map height).foldr max 0 :=
    List.le_max_of_le' 0 (List.mem_map_of_mem h) le_rfl
  rw [height_eq n]
  exact Nat.lt_succ_of_le hle

/-! ### No functions -/

/-- A node is free of functions if it is none itself and the nodes right below it are. -/
theorem functionFree_of_children {n : Node} (h : n.isFunction = false)
    (hc : ∀ m ∈ n.children, m.FunctionFree) : n.FunctionFree := by
  intro m hm
  cases hm with
  | self => exact h
  | child hchild hrest => exact hc _ hchild _ hrest

end Node

/-- Whether no function was written, neither in the node of a visit nor in what it finds. -/
structure Visit.FunctionFree (v : Visit) : Prop where
  node : v.node.FunctionFree
  store : v.session.store.Closureless

/-- Whether evaluations of nodes without functions make none. -/
def KeepsClosureless (run : Node → Ref → Eval Value) : Prop :=
  ∀ v : Visit, v.FunctionFree → ∀ result t,
    (run v.node v.frame).runIn v.session = (result, t) → t.store.Closureless

section

variable {eval : Evaluator} {v w : Visit} {role : Role} {s t : Session}

/-- Where no function was written, no body is entered: the parts of a visit are nodes right below
its node. -/
theorem Part.mem_children_of_closureless (h : Part eval v role w)
    (hw : w.session.store.Closureless) : w.node ∈ v.node.children := by
  refine h.mem_children ?_
  rintro rfl
  cases h with
  | @body v i parameters body home hi he =>
      refine hw i.function parameters body home ?_
      rw [Session.enter, Store.action?_putAll]
      exact Store.action?_add he.1

/-- A step of a visit makes no function. -/
theorem Step.closureless (h : Step eval v s t) (hkeeps : ∀ role, KeepsClosureless (eval role))
    (hv : v.node.FunctionFree) (hs : s.store.Closureless) : t.store.Closureless := by
  cases h with
  | @part v w role result t hp hw =>
      exact hkeeps role w ⟨hv.child (hp.mem_children_of_closureless hs), hs⟩ _ _ hw
  | @put v w object name x t hp hw =>
      have hnode := hv.child (hp.part.mem_children_of_closureless hs)
      exact (hkeeps .operand w ⟨hnode, hs⟩ _ _ hw).put _ _ _
  | function | named => exact absurd rfl hv.ne_function
  | record => exact hs.add rfl
  | this => exact hs.put _ _ _
  | enter _ he => exact absurd he.1 (hs _ _ _ _)
  | builtin _ _ hr =>
      rw [Builtin.store_apply hr]
      exact hs

/-- On a course of a node without functions there is no closure. -/
theorem Course.closureless (h : Course eval v s t) (hkeeps : ∀ role, KeepsClosureless (eval role))
    (hv : v.node.FunctionFree) (hs : s.store.Closureless) : t.store.Closureless := by
  induction h with
  | refl => exact hs
  | tail _ hstep ih => exact hstep.closureless hkeeps hv ih

/-- The parts of a visit are lower than the visit, and no function was written in them either. -/
theorem Part.functionFree (h : Part eval v role w) (hkeeps : ∀ role, KeepsClosureless (eval role))
    (hv : v.FunctionFree) : w.FunctionFree ∧ w.node.height < v.node.height := by
  have hw := h.course.closureless hkeeps hv.node hv.store
  have hmem := h.mem_children_of_closureless hw
  exact ⟨⟨hv.node.child hmem, hw⟩, Node.height_lt_of_mem_children hmem⟩

end

/-- An evaluation of a node without functions makes none. -/
theorem keepsClosureless_evaluateSpaced (stack : Stack) (levels gap : Nat) :
    KeepsClosureless (evaluateSpaced stack levels gap) := by
  intro v hv result t h
  refine evaluateSpaced_induction (motive := fun _ _ v t => v.FunctionFree → t.store.Closureless)
    Visit.FunctionFree.store id ?_ h hv
  intro levels v t hparts hcourse hv
  exact hcourse.closureless (fun _ _ hw _ _ h => hparts h hw) hv.node hv.store

/-- So it is with the evaluation of parts. -/
theorem keepsClosureless_evaluateParts (stack : Stack) (levels : Nat) (role : Role) :
    KeepsClosureless (evaluateParts stack levels role) :=
  keepsClosureless_evaluateSpaced stack levels (stack.part role)

/-! ### Visits that are open at a time -/

/-- Visits that are open at a time, from the outside in: a visit, a part of it, a part of that, and
so on. -/
inductive Nests (stack : Stack) : (levels gap : Nat) → Visit → List Visit → Prop
  | innermost {levels gap : Nat} {v : Visit} : Nests stack levels gap v [v]
  | inside {levels : Nat} {v w : Visit} {role : Role} {ws : List Visit}
      (hrule : stack.rule v.node.kind ≤ levels) (hp : Part (evaluateParts stack levels) v role w)
      (h : Nests stack levels (stack.part role) w ws) : Nests stack (levels + 1) 0 v (v :: ws)
  | skip {levels gap : Nat} {v : Visit} {ws : List Visit} (h : Nests stack levels gap v ws) :
      Nests stack (levels + 1) (gap + 1) v ws

section

variable {stack : Stack} {levels gap : Nat} {v w : Visit} {ws : List Visit} {t : Session}

/-- Whatever visit begins in a visit, some visits are open around it at that time. -/
theorem Reaches.exists_nests (h : Reaches stack levels gap v (.begins w)) :
    ∃ ws, Nests stack levels gap v ws ∧ ws.getLast? = some w := by
  generalize hm : Moment.begins w = m at h
  induction h with
  | begins =>
      obtain rfl := Moment.begins.inj hm
      exact ⟨_, .innermost, rfl⟩
  | ends | calls | passes => cases hm
  | skip _ ih =>
      obtain ⟨ws, hws, hlast⟩ := ih hm
      exact ⟨ws, .skip hws, hlast⟩
  | part hrule hp _ ih =>
      obtain ⟨ws, hws, hlast⟩ := ih hm
      refine ⟨_ :: ws, .inside hrule hp hws, ?_⟩
      rw [List.getLast?_cons, hlast, Option.getD_some]

/-- **No more visits are open at a time than the tree is high**, where no function was written. -/
theorem Nests.length_le_height (h : Nests stack levels gap v ws) (hv : v.FunctionFree) :
    ws.length ≤ v.node.height := by
  induction h with
  | @innermost _ _ v => exact v.node.height_pos
  | @inside levels v w role ws _ hp _ ih =>
      -- no body is entered, so the part is below the node
      obtain ⟨hw, hlt⟩ := hp.functionFree (keepsClosureless_evaluateParts stack levels) hv
      have hle := ih hw
      rw [List.length_cons]
      omega
  | skip _ ih => exact ih hv

end

/-! ### Programs -/

/-- A program without functions starts without one. -/
theorem Visit.functionFree_start {program : Node} (h : program.FunctionFree) :
    (start program).FunctionFree :=
  ⟨h, Store.closureless_addGlobal⟩

/-- A function is written with the word for it. -/
theorem Source.functionFree_of_program {source : String} {program : Node}
    (h : Source.program source = .ok program)
    (hwords : ∀ x ∈ (scan source.toList).lexemes, x.token ≠ .keyword .wordFunction) :
    program.FunctionFree := by
  intro m hm
  have hworded := worded_of_program h
  rcases hasText_or_supplies_of_program hworded hm with rfl | ⟨xs, hxs, hown⟩ | ⟨_, -, hsupplied⟩
  · obtain ⟨ns, rfl, -⟩ := hworded
    rfl
  · cases m with
    | function =>
        cases hown with
        | named | lambda => exact absurd rfl (hwords _ (hxs.subset List.mem_cons_self))
    | _ => rfl
  · cases hsupplied <;> rfl

/-- A program without functions goes the same way with every number of levels that is large
enough. -/
theorem Node.FunctionFree.eventually_inOwnGlobal {program : Node} (h : program.FunctionFree)
    (hplain : program.Plain) (stack : Stack) :
    ∃ x t, x ≠ .error .tooDeep ∧
      ∀ᶠ levels in Filter.atTop, (inOwnGlobal stack levels program).runIn .empty = (x, t) := by
  have hs : (Session.empty.started program).store.Ready Store.empty.fresh :=
    ⟨Store.sealed_addGlobal, Store.closureless_addGlobal⟩
  obtain ⟨x, t, hrun, hx, -⟩ := settles_evaluateSpaced hplain h stack 0 Store.empty.fresh hs
  -- a run of the program depends on the evaluation alone
  have hsame {many few : Nat}
      (he : (evaluate stack many program Store.empty.fresh).runIn (Session.empty.started program) =
        (evaluate stack few program Store.empty.fresh).runIn (Session.empty.started program)) :
      (inOwnGlobal stack many program).runIn .empty =
        (inOwnGlobal stack few program).runIn .empty := by
    rw [runIn_inOwnGlobal, runIn_inOwnGlobal]
    refine Eval.runIn_bind_congr ?_ fun _ _ _ => rfl
    rw [Eval.runIn_discard, Eval.runIn_discard, Eval.refuseReturn, Eval.refuseReturn,
      Eval.runIn_tryCatch, Eval.runIn_tryCatch]
    exact he ▸ rfl
  obtain ⟨few, hfew⟩ := hrun.exists
  refine ⟨((inOwnGlobal stack few program).runIn .empty).1,
    ((inOwnGlobal stack few program).runIn .empty).2, fun hdeep => ?_, ?_⟩
  · rcases exit_of_inOwnGlobal hdeep with hstray | ⟨⟨u, hu⟩, -⟩
    · cases hstray
    · exact hx (Prod.mk.inj (hfew.symm.trans hu)).1
  · filter_upwards [hrun] with many hmany
    exact hsame (hmany.trans hfew.symm)

/-- What a run of a program has done that ends so. -/
def Report.ofRun : Except Exit Unit → Session → Report
  | .ok _, t => ⟨t.output, t.events.toList, .finished⟩
  | .error x, t => ⟨t.output, t.events.toList, .ofExit x⟩

/-- A run that was not cut off does not end too deep. -/
theorem Report.ending_ofRun_ne_tooDeep {x : Except Exit Unit} (hx : x ≠ .error .tooDeep)
    (t : Session) : (ofRun x t).ending ≠ .tooDeep := by
  rcases x with exit | _
  · cases exit with
    | tooDeep => exact absurd rfl hx
    | returned | mistake | fault => exact nofun
  · exact nofun

/-- Running a program comes to what its run has done. -/
theorem executeProgram_of_runIn {on : Platform} {program : Node} {x : Except Exit Unit}
    {t : Session} (h : (inOwnGlobal on.stack on.limit program).runIn .empty = (x, t)) :
    executeProgram on program = .ofRun x t := by
  rw [executeProgram, h]
  cases x <;> rfl

/-- Whether a program ends by itself, in a global frame of its own. -/
structure Node.Terminates (stack : Stack) (program : Node) : Prop where
  /-- Whatever visit begins, some visits are open around it. -/
  around : ∀ levels w, Reaches stack levels 0 (Visit.start program) (.begins w) →
    ∃ ws, Nests stack levels 0 (Visit.start program) ws ∧ ws.getLast? = some w
  /-- No more visits are open at a time than the tree is high. -/
  nested : ∀ levels ws, Nests stack levels 0 (Visit.start program) ws →
    ws.length ≤ program.height
  /-- There is one way to end, which is taken under every limit that has room for it. -/
  ends : ∃ need report, report.ending ≠ .tooDeep ∧ ∀ on : Platform, on.stack = stack →
    (need ≤ on.limit → executeProgram on program = report) ∧
    (on.limit < need → (executeProgram on program).ending = .tooDeep)

/-- A program without functions comes to an end, however deep it must go. -/
theorem Node.FunctionFree.terminates {program : Node} (h : program.FunctionFree)
    (hplain : program.Plain) (stack : Stack) : program.Terminates stack where
  around _ _ hw := hw.exists_nests
  nested _ _ hws := hws.length_le_height (Visit.functionFree_start h)
  ends := by
    obtain ⟨x, t, hx, hrun⟩ := h.eventually_inOwnGlobal hplain stack
    obtain ⟨need, htakes⟩ := Eval.exists_takes
      (fun hle => shortOf_inOwnGlobal stack hle program) hx hrun
    refine ⟨need, .ofRun x t, Report.ending_ofRun_ne_tooDeep hx t, fun on hon => ?_⟩
    subst hon
    refine ⟨fun hle => executeProgram_of_runIn (htakes.enough on.limit hle), fun hlt => ?_⟩
    obtain ⟨u, -, hdeep⟩ := htakes.short on.limit hlt
    rw [executeProgram_of_runIn hdeep]
    rfl

/-- **Programs without functions end.** A text without the word for a function has no function in
its program. A program without functions comes to an end by itself on every stack: no more visits
are open at a time than the tree is high, and it takes so many levels. Where there is room for
these, the text ends as the program does, and never too deep; elsewhere it is cut off. -/
theorem functionFree_ends {source : String} {program : Node}
    (h : Source.program source = .ok program) :
    ((∀ x ∈ (Source.scan source.toList).lexemes, x.token ≠ .keyword .wordFunction) →
      program.FunctionFree) ∧
    (program.FunctionFree → ∀ stack, program.Terminates stack ∧
      ∃ need report, report.ending ≠ .tooDeep ∧ ∀ on : Platform, on.stack = stack →
        (on.HasRoom source need → execute on source = report) ∧
        (¬on.HasRoom source need → (execute on source).ending = .tooDeep)) := by
  refine ⟨Source.functionFree_of_program h, fun hfree stack => ?_⟩
  have hterminates := hfree.terminates (Source.plain_of_program h) stack
  obtain ⟨need, report, hreport, hends⟩ := hterminates.ends
  refine ⟨hterminates, need, report, hreport, fun on hon => ⟨fun ⟨hlowers, hle⟩ => ?_, ?_⟩⟩
  · rw [execute_of_lowers h hlowers]
    exact (hends on hon).1 hle
  · intro hroom
    cases hlowers : on.lowers (Source.tokenTexts source) with
    | false =>
        rw [execute_of_not_lowers h hlowers]
    | true =>
        rw [execute_of_lowers h hlowers]
        exact (hends on hon).2 (Nat.lt_of_not_le fun hle => hroom ⟨hlowers, hle⟩)

namespace Height

/-- A record that holds itself is printed and then called in the place of `print`. -/
def source : String :=
  "var o = \x7b\x7d; o.me = o; print(o); print = 1; global.o = global; print(o);"

def program : Node :=
  .block [.assign "o" (.record [] 1) true 1, .assignField (.name "o" 1) "me" (.name "o" 1) 1,
    .call (.name "print" 1) [.name "o" 1] 1, .assign "print" (.constant (.integer 1) 1) false 1,
    .assignField (.name "global" 1) "o" (.name "global" 1) 1,
    .call (.name "print" 1) [.name "o" 1] 1] 1

end Height

/-- This one ends, though not normally, and no more than three visits are open at a time. -/
theorem functionFree_ends_cyclic :
    Source.program Height.source = .ok Height.program ∧ Height.program.FunctionFree ∧
    (∀ levels ws, Nests .standard levels 0 (Visit.start Height.program) ws → ws.length ≤ 3) ∧
    ∃ need, Platform.standard.HasRoom Height.source need ∧ ∀ on : Platform,
      on.stack = .standard → on.HasRoom Height.source need →
        (execute on Height.source).ending = .mistaken (.notAFunction "1") (some 1) := by
  have hprogram : Source.program Height.source = .ok Height.program := by with_unfolding_all rfl
  have hheight : Height.program.height = 3 := by decide
  have hending : (execute .standard Height.source).ending =
      .mistaken (.notAFunction "1") (some 1) := by decide +kernel
  obtain ⟨hwords, hends⟩ := functionFree_ends hprogram
  have hfree := hwords (by decide +kernel)
  obtain ⟨hterminates, need, report, -, hreport⟩ := hends hfree .standard
  have hroom : Platform.standard.HasRoom Height.source need := by
    by_contra hnot
    cases hending.symm.trans ((hreport .standard rfl).2 hnot)
  refine ⟨hprogram, hfree, hheight ▸ hterminates.nested, need, hroom, fun on hon hon' => ?_⟩
  rw [(hreport on hon).1 hon', ← (hreport .standard rfl).1 hroom, hending]

/-! ### Too deep a text -/

/-- There is no function in the script. -/
theorem Tower.functionFree_program (height : Nat) : (Tower.program height).FunctionFree := by
  have hname (x : String) (line : Int) : (Node.name x line).FunctionFree :=
    Node.functionFree_of_children rfl nofun
  have hstep (line : Int) : (step line).FunctionFree := by
    refine Node.functionFree_of_children rfl (List.forall_mem_singleton.mpr ?_)
    exact Node.functionFree_of_children rfl (List.forall_mem_singleton.mpr (hname "o" line))
  have hprinting (line : Int) : (printing line).FunctionFree := by
    refine Node.functionFree_of_children rfl ?_
    exact List.forall_mem_cons.mpr ⟨hname _ _, List.forall_mem_singleton.mpr (hname _ _)⟩
  have hsteps (line : Int) : ∀ n ∈ steps height line, n.FunctionFree := by
    induction height generalizing line with
    | zero => exact List.forall_mem_nil _
    | succ height ih => exact List.forall_mem_cons.mpr ⟨hstep line, ih (line + 2)⟩
  refine Node.functionFree_of_children rfl ?_
  exact List.forall_mem_append.mpr ⟨hsteps 1, List.forall_mem_singleton.mpr (hprinting _)⟩

/-- Six thousand objects inside one another are too many to print, though nothing in the program is
a function and no node of it is deep. -/
theorem not_ends_tower :
    Source.program (Tower.source 6000) = .ok (Tower.program 6000) ∧
      (Tower.program 6000).FunctionFree ∧ (Tower.program 6000).height ≤ 4 ∧
      (execute .standard (Tower.source 6000)).ending = .tooDeep := by
  refine ⟨Tower.program_source 6000, Tower.functionFree_program 6000, Tower.height_program 6000, ?_⟩
  have hparse : Platform.standard.parse (Tower.source 6000) = .ok (Tower.program 6000) :=
    Tower.parse_source false 6000
  rw [execute_of_parse hparse]
  exact (Tower.executeProgram_eq rfl (show 9 ≤ 9990 by decide) 5999).1

end Scriptlet
