import Scriptlet.Proofs.Guarded
import Scriptlet.Proofs.Location

/-!
# The Code of a Run

A run evaluates no other nodes than those of the program. The bodies of functions are the only
nodes that it finds in the store, and each of them was put there by a function of the program.

## Main definitions

* `Store.CodeOf`: the bodies of all functions in a store are in a program.
* `KeepsCode`: an evaluation that makes functions of nodes of the program only.

## Main results

* `Step.codeOf`: what a step of a visit keeps.
* `keepsCode_evaluateSpaced`: what an evaluation keeps.
* `Reaches.contains`: every node that is evaluated in a run is in the program.
-/

namespace Scriptlet

/-- Whether the bodies of all functions in a store are in a program. -/
def Store.CodeOf (p : Node) (s : Store) : Prop :=
  ∀ r parameters body home, s.action? r = some (.closure parameters body home) → p.Contains body

/-- Whether a visit evaluates a node of a program, and the functions that it finds are of the
program too. -/
structure Visit.CodeOf (p : Node) (v : Visit) : Prop where
  node : p.Contains v.node
  store : v.session.store.CodeOf p

/-- Whether evaluations of nodes of a program make no other functions than the program has. -/
def KeepsCode (p : Node) (run : Node → Ref → Eval Value) : Prop :=
  ∀ v : Visit, v.CodeOf p → ∀ result t,
    (run v.node v.frame).runIn v.session = (result, t) → t.store.CodeOf p

namespace Store.CodeOf

variable {p : Node} {s : Store}

/-- A new object that is no function, or one of the program. -/
theorem add (h : s.CodeOf p) {o : Object} (ho : ∀ parameters body home,
    o.action = some (.closure parameters body home) → p.Contains body) : (s.add o).CodeOf p := by
  intro r ps body home ha
  rcases action?_add_eq_some ha with ha | ⟨-, ha⟩
  · exact h r ps body home ha
  · exact ho ps body home ha

/-- An object that is not called brings no code. -/
theorem add_passive (h : s.CodeOf p) {o : Object} (ho : o.action = none) : (s.add o).CodeOf p :=
  h.add fun _ _ _ ha => nomatch ho.symm.trans ha

/-- Setting a name brings no code. -/
theorem put (h : s.CodeOf p) (r : Ref) (name : String) (v : Value) : (s.put r name v).CodeOf p := by
  intro q ps body home ha
  rw [action?_put] at ha
  exact h q ps body home ha

/-- Nor does setting some names. -/
theorem putAll (h : s.CodeOf p) (r : Ref) (pairs : List (String × Value)) :
    (s.putAll r pairs).CodeOf p := by
  intro q ps body home ha
  rw [action?_putAll] at ha
  exact h q ps body home ha

end Store.CodeOf

/-- A run begins without functions of the program. -/
theorem Store.codeOf_addGlobal (p : Node) : Store.empty.addGlobal.CodeOf p := by
  intro r ps body home ha
  obtain ⟨_, -, hb⟩ := Store.exists_of_action?_addGlobal ha
  cases hb

/-- At the start of a program there is no other code. -/
theorem Visit.codeOf_start (p : Node) : (Visit.start p).CodeOf p :=
  ⟨.self, Store.codeOf_addGlobal p⟩

/-- The first part of a node is below it. -/
theorem Node.mem_children_of_first? {n m : Node} (h : n.first? = some m) : m ∈ n.children := by
  cases n with
  | call | giveBack | branch | field | assignField | callMethod =>
      obtain rfl := Option.some.inj h
      exact List.mem_cons_self
  | block | literal | name | assign | function | record => cases h

section

variable {eval : Evaluator} {p : Node} {v w : Visit} {role : Role}
  {s t : Session}

/-- Arguments are below the call. -/
theorem Prepares.mem_children {f : Ref} {receiver : Value} {arguments : List Node}
    (h : Prepares eval v f receiver arguments s) {n : Node} (hn : n ∈ arguments) :
    n ∈ v.node.children := by
  cases h with
  | call | callMethod => exact List.mem_cons_of_mem _ hn

/-- The parts of a visit are nodes right below its node, except for the bodies of functions. -/
theorem Part.mem_children (h : Part eval v role w) (hrole : role ≠ .body) :
    w.node ∈ v.node.children := by
  cases h with
  | first h => exact Node.mem_children_of_first? h
  | statement => exact List.mem_append_right _ List.mem_cons_self
  | argument hp => exact hp.mem_children (List.mem_append_right _ List.mem_cons_self)
  | body => exact absurd rfl hrole
  | assigned => exact List.mem_cons_self
  | @chosen _ _ _ _ _ b =>
      cases b with
      | true => exact List.mem_cons_of_mem _ List.mem_cons_self
      | false => exact List.mem_cons_of_mem _ (List.mem_cons_of_mem _ List.mem_cons_self)
  | entry => exact List.mem_map.mpr ⟨_, List.mem_append_right _ List.mem_cons_self, rfl⟩
  | fieldValue => exact List.mem_cons_of_mem _ List.mem_cons_self

/-- The parts of a visit are nodes below its node, and bodies of functions in the store. -/
theorem Part.contains (h : Part eval v role w) (hv : p.Contains v.node)
    (hw : w.session.store.CodeOf p) : p.Contains w.node := by
  by_cases hrole : role = .body
  · subst hrole
    cases h with
    | @body v i ps body home hi he =>
        -- the function is still there when its body begins
        refine hw i.function ps body home ?_
        rw [Session.enter, Store.action?_putAll]
        exact Store.action?_add he.1
  · exact hv.trans (.child (h.mem_children hrole) .self)

/-- A step of a visit makes functions of the program only. -/
theorem Step.codeOf (h : Step eval v s t) (hkeeps : ∀ role, KeepsCode p (eval role))
    (hv : p.Contains v.node) (hs : s.store.CodeOf p) : t.store.CodeOf p := by
  cases h with
  | @part v w role result t hp hw => exact hkeeps role w ⟨hp.contains hv hs, hs⟩ _ _ hw
  | @put v w object name x t hp hw =>
      exact (hkeeps .operand w ⟨hp.part.contains hv hs, hs⟩ _ _ hw).put _ _ _
  | function =>
      refine hs.add fun ps body home ha => ?_
      obtain ⟨rfl, rfl, rfl⟩ := Action.closure.inj (Option.some.inj ha)
      exact hv.trans (.child List.mem_cons_self .self)
  | named | this => exact hs.put _ _ _
  | record => exact hs.add_passive rfl
  | enter => exact (hs.add_passive rfl).putAll _ _
  | builtin _ _ hr =>
      rw [Builtin.store_apply hr]
      exact hs

/-- On a course there is code of the program only. -/
theorem Course.codeOf (h : Course eval v s t) (hkeeps : ∀ role, KeepsCode p (eval role))
    (hv : p.Contains v.node) (hs : s.store.CodeOf p) : t.store.CodeOf p := by
  induction h with
  | refl => exact hs
  | tail _ hstep ih => exact hstep.codeOf hkeeps hv ih

/-- A part of a visit finds only code of the program. -/
theorem Part.codeOf (h : Part eval v role w) (hkeeps : ∀ role, KeepsCode p (eval role))
    (hv : v.CodeOf p) : w.CodeOf p := by
  have hw := h.course.codeOf hkeeps hv.node hv.store
  exact ⟨h.contains hv.node hw, hw⟩

end

/-- An evaluation makes functions of the program only. -/
theorem keepsCode_evaluateSpaced (p : Node) (stack : Stack) (levels gap : Nat) :
    KeepsCode p (evaluateSpaced stack levels gap) := by
  intro v hv result t h
  refine evaluateSpaced_induction (motive := fun _ _ v t => v.CodeOf p → t.store.CodeOf p)
    Visit.CodeOf.store id ?_ h hv
  intro levels v t hparts hcourse hv
  exact hcourse.codeOf (fun _ _ hw _ _ h => hparts h hw) hv.node hv.store

/-- So does a part of an evaluation. -/
theorem Part.codeOf_evaluateParts {stack : Stack} {levels : Nat} {p : Node} {v w : Visit}
    {role : Role} (h : Part (evaluateParts stack levels) v role w) (hv : v.CodeOf p) :
    w.CodeOf p :=
  h.codeOf (fun role => keepsCode_evaluateSpaced p stack levels (stack.part role)) hv

/-- Every node that is evaluated in a run is in the program. -/
theorem Reaches.contains {stack : Stack} {levels gap : Nat} {p : Node} {v w : Visit}
    (h : Reaches stack levels gap v (.begins w)) (hv : v.CodeOf p) : p.Contains w.node := by
  generalize hm : Moment.begins w = m at h
  induction h with
  | begins =>
      obtain rfl := Moment.begins.inj hm
      exact hv.node
  | ends | calls | passes => cases hm
  | skip _ ih => exact ih hv hm
  | part _ hp _ ih => exact ih (hp.codeOf_evaluateParts hv) hm

end Scriptlet
