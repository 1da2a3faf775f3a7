import Mathlib.Data.List.Induction
import Scriptlet.Proofs.Idle

/-!
# Entering a Function

A call makes a frame, sets `this` in it and then each parameter, from left to right. Where a
parameter comes twice, or is called `this`, a name is set that is there already: it keeps the place
where it arrived first, and has the value that arrived last. Both follow from how `put` treats one
entry, for any number of pairs (`Entries.names_ofList`, `Entries.lookup_ofList_of_notMem`).

## Main definitions

* `Object.HoldsArguments`: the frame that parameters and arguments ask for.
* `Session.Opens`: a session in which nothing was done but to make such a frame.

## Main results

* `Invocation.Enters.opens`: what a call has done when the body begins.
* `object?_of_function`: a function remembers its name, its parameters, its body and its frame.
* `call_opens`: how a call of a function goes.
-/

namespace Scriptlet

/-! ### Pairs that are put one after another -/

namespace Entries

variable {α : Type}

/-- The names of pairs that are put one after another, each where it arrived first. -/
theorem names_ofList (pairs : List (String × α)) :
    (ofList pairs).names = (pairs.map Prod.fst).eraseDups := by
  induction pairs using List.reverseRecOn with
  | nil => rfl
  | append_singleton before p ih =>
      have hput : ofList (before ++ [p]) = (ofList before).put p.1 p.2 := by simp [ofList]
      rw [hput, names_put, ih, List.map_append, List.eraseDups_append]
      by_cases hp : p.1 ∈ before.map Prod.fst
      · rw [if_pos (List.mem_eraseDups.mpr hp)]
        simp [List.removeAll, hp]
      · rw [if_neg (List.mem_eraseDups.not.mpr hp)]
        simp [List.removeAll, hp, List.eraseDups_cons]

/-- A name that is not put keeps its content. -/
theorem lookup_foldl_put_of_notMem {pairs : List (String × α)} {name : String}
    (h : name ∉ pairs.map Prod.fst) (entries : Entries α) :
    (pairs.foldl (fun entries p => entries.put p.1 p.2) entries).lookup name =
      entries.lookup name := by
  induction pairs generalizing entries with
  | nil => rfl
  | cons p rest ih =>
      rw [List.map_cons, List.mem_cons, not_or] at h
      rw [List.foldl_cons, ih h.2, lookup_put_of_ne _ h.1]

/-- A name has the content that arrived last. -/
theorem lookup_ofList_of_notMem (before : List (String × α)) {after : List (String × α)}
    {name : String} (h : name ∉ after.map Prod.fst) (a : α) :
    (ofList (before ++ (name, a) :: after)).lookup name = some a := by
  rw [ofList, List.foldl_append, List.foldl_cons, lookup_foldl_put_of_notMem h, lookup_put_self]

end Entries

namespace Store

theorem object?_putAll_self (s : Store) (r : Ref) (pairs : List (String × Value)) :
    (s.putAll r pairs).object? r = (s.object? r).map fun o =>
      { o with entries := pairs.foldl (fun entries p => entries.put p.1 p.2) o.entries } := by
  induction pairs generalizing s with
  | nil =>
      show s.object? r = _
      simp
  | cons p rest ih =>
      show ((s.put r p.1 p.2).putAll r rest).object? r = _
      rw [ih, object?_put_self, Option.map_map]
      rfl

/-- A frame that is made and filled has what was put. -/
theorem object?_enter_self (s : Store) (home : Ref) (pairs : List (String × Value)) :
    ((s.add (.frame home)).putAll s.fresh pairs).object? s.fresh =
      some { Object.frame home with entries := Entries.ofList pairs } := by
  rw [object?_putAll_self, object?_add_self]
  rfl

theorem object?_fresh (s : Store) : s.object? s.fresh = none :=
  Array.getElem?_size

end Store

/-! ### The frame of a call -/

/-- Whether an object owns what parameters and arguments ask for: `this` and then the parameters,
each where it comes first among them and with the argument where it comes last. -/
structure Object.HoldsArguments (o : Object) (parameters : List String) (receiver : Value)
    (arguments : List Value) : Prop where
  names : o.entries.names = ("this" :: parameters).eraseDups
  parameter : ∀ (k : Nat) (name : String), parameters[k]? = some name →
    name ∉ parameters.drop (k + 1) → o.entries.lookup name = arguments[k]?
  this : "this" ∉ parameters → o.entries.lookup "this" = some receiver

/-- Whether nothing was done from one session to another but to make a frame inside `home`, with
what parameters and arguments ask for. -/
structure Session.Opens (s t : Session) (home : Ref) (parameters : List String) (receiver : Value)
    (arguments : List Value) : Prop where
  /-- The frame is new. -/
  fresh : s.store.object? s.store.fresh = none
  frame : ∃ o, t.store.object? s.store.fresh = some o ∧ o.parent = some home ∧ o.action = none ∧
    o.HoldsArguments parameters receiver arguments
  others : ∀ r, r ≠ s.store.fresh → t.store.object? r = s.store.object? r
  output : t.output = s.output
  events : t.events = s.events

/-- What is put by a call that has as many arguments as there are parameters. -/
theorem Invocation.holdsArguments {i : Invocation} {parameters : List String}
    (h : i.arguments.length = parameters.length) (o : Object) :
    Object.HoldsArguments { o with entries := Entries.ofList (i.names parameters) } parameters
      i.receiver i.arguments := by
  have hfst : (parameters.zip i.arguments).map Prod.fst = parameters :=
    List.map_fst_zip (Nat.le_of_eq h.symm)
  refine ⟨?_, fun k name hk hlast => ?_, fun hthis => ?_⟩
  · show (Entries.ofList (i.names parameters)).names = _
    rw [Entries.names_ofList, Invocation.names, List.map_cons, hfst]
  · obtain ⟨hlt, hname⟩ := List.getElem?_eq_some_iff.mp hk
    have hgiven : k < i.arguments.length := h ▸ hlt
    have hpair : k < (parameters.zip i.arguments).length := by
      rw [List.length_zip]
      omega
    have hafter : name ∉ ((parameters.zip i.arguments).drop (k + 1)).map Prod.fst := by
      rwa [List.map_drop, hfst]
    have hsplit : i.names parameters =
        (("this", i.receiver) :: (parameters.zip i.arguments).take k) ++
          (name, i.arguments[k]) :: (parameters.zip i.arguments).drop (k + 1) := by
      rw [Invocation.names, List.cons_append, ← hname, ← List.getElem_zip (h := hpair),
        ← List.drop_eq_getElem_cons hpair, List.take_append_drop]
    show (Entries.ofList (i.names parameters)).lookup name = _
    rw [hsplit, Entries.lookup_ofList_of_notMem _ hafter, List.getElem?_eq_getElem hgiven]
  · have hafter : "this" ∉ (parameters.zip i.arguments).map Prod.fst := by rwa [hfst]
    exact Entries.lookup_ofList_of_notMem [] hafter i.receiver

/-- What a call has done when the body begins. -/
theorem Invocation.Enters.opens {i : Invocation} {parameters : List String} {body : Node}
    {home : Ref} (h : i.Enters parameters body home) :
    i.session.Opens (i.session.enter home (i.names parameters)) home parameters i.receiver
      i.arguments where
  fresh := i.session.store.object?_fresh
  frame := ⟨_, i.session.store.object?_enter_self home _, rfl, rfl, i.holdsArguments h.2 _⟩
  others _ hr := (Store.object?_putAll_of_ne hr _).trans (Store.object?_add_of_ne _ _ hr)
  output := rfl
  events := rfl

/-! ### Functions and their calls -/

section

variable {stack : Stack} {levels gap : Nat} {s t : Session}

/-- A function remembers its name, its parameters, its body and its frame. -/
theorem object?_of_function {name : Option String} {parameters : List String} {body : Node}
    {line : Int} {home f : Ref}
    (h : (evaluateSpaced stack levels gap (.function name parameters body line) home).runIn s =
      (.ok (.object f), t)) :
    ∃ o, t.store.object? f = some o ∧ o.name = name.getD anonymousName ∧
      o.action = some (.closure parameters body home) := by
  obtain ⟨_, -, -, hrule⟩ := exists_evaluateWith_of_ok h
  obtain ⟨hf, rfl⟩ := Prod.mk.inj hrule
  obtain rfl := Value.object.inj (Except.ok.inj hf)
  -- setting the name of a named function takes nothing back, whatever object the frame is
  have hgrows := Store.grows_putAll
    (s.store.add (.function (name.getD anonymousName) (.closure parameters body home))) home
    (name.toList.map fun name => (name, .object s.store.fresh))
  obtain ⟨o, ho, hpersists⟩ := hgrows _ _ (s.store.object?_add_self _)
  exact ⟨o, ho, hpersists.name, hpersists.action⟩

/-- A block has no value of its own. -/
theorem eq_undefined_of_block {statements : List Node} {line : Int} {frame : Ref} {x : Value}
    (h : (evaluateSpaced stack levels gap (.block statements line) frame).runIn s = (.ok x, t)) :
    x = .undefined := by
  obtain ⟨_, -, -, hrule⟩ := exists_evaluateWith_of_ok h
  obtain ⟨_, _, -, hpure⟩ := Eval.exists_of_runIn_bind_eq_ok hrule
  exact (Except.ok.inj (Prod.mk.inj hpure).1).symm

/-- **A call sets up the frame that the parameters ask for.** Take any function that has been made,
of a block and with any parameters, in any frame and session, and call it later on, with any
receiver and arguments. A rule that calls it needs levels for that, and is cut off without them. If
there are not as many arguments as parameters, that is a mistake, which says the name of the
function and both numbers, and nothing is done. If there are, the body is evaluated in a new frame
inside the one where the function was made, and nothing else was done before it is. The frame owns
`this` and then each parameter, in the order in which they come first; a parameter has the argument
where it comes last, and `this` is the receiver unless a parameter is called so. The call ends as
the body does, but for a `return` in it, whose value is that of the call; without one, the value is
`undefined`. -/
theorem call_opens {name : Option String} {parameters : List String}
    {statements : List Node} {blockLine line : Int} {home f : Ref} {s₀ s₁ : Session}
    (hmade : (evaluateSpaced stack levels gap
      (.function name parameters (.block statements blockLine) line) home).runIn s₀ =
        (.ok (.object f), s₁))
    (hlater : s₁.store.Grows s.store) {eval : Evaluator} {levels' gap' : Nat}
    (heval : eval.run .body = evaluateSpaced eval.stack levels' gap') (receiver : Value)
    (arguments : List Value) :
    (invoke eval f receiver arguments).runIn s =
      (if eval.stack.enter ≤ eval.levels then (call eval f receiver arguments).runIn s
        else (.error .tooDeep, s)) ∧
    (arguments.length ≠ parameters.length → (call eval f receiver arguments).runIn s =
      (.error (.mistake (.argumentCount (name.getD anonymousName) parameters.length
        arguments.length) none), s)) ∧
    (arguments.length = parameters.length → ∃ entered ended left,
      s.Opens entered home parameters receiver arguments ∧
      (evaluateSpaced eval.stack levels' gap' (.block statements blockLine) s.store.fresh).runIn
        entered = (ended, left) ∧
      (call eval f receiver arguments).runIn s = (Except.catchReturn ended, left) ∧
      ∀ x, Except.catchReturn ended = .ok x →
        ended = .ok .undefined ∧ x = .undefined ∨ ended = .error (.returned x)) := by
  obtain ⟨made, hmade, hname, haction⟩ := object?_of_function hmade
  obtain ⟨o, ho, hpersists⟩ := hlater f made hmade
  rw [← hpersists.name] at hname
  rw [← hpersists.action] at haction
  have hclosure : s.store.action? f =
      some (.closure parameters (.block statements blockLine) home) :=
    Option.bind_eq_some_iff.mpr ⟨o, ho, haction⟩
  refine ⟨?_, fun hlength => ?_, fun hlength => ?_⟩
  · rw [invoke, Eval.runIn_bind_of_ok (Eval.runIn_store s), Evaluator.admits, hclosure]
    by_cases hroom : eval.stack.enter ≤ eval.levels
    · rw [if_pos hroom, if_pos (decide_eq_true hroom)]
    · rw [if_neg hroom, if_neg (by simpa using hroom)]
      rfl
  · obtain ⟨oname, parent, action, entries⟩ := o
    obtain rfl : action = some (.closure parameters (.block statements blockLine) home) := haction
    obtain rfl : oname = name.getD anonymousName := hname
    rw [call, Eval.runIn_bind_of_ok (Eval.runIn_store s), ho]
    dsimp only
    rw [if_neg hlength]
    rfl
  · have henters : Invocation.Enters ⟨f, receiver, arguments, s⟩ parameters
        (.block statements blockLine) home := ⟨hclosure, hlength⟩
    rcases hbody : (evaluateSpaced eval.stack levels' gap' (.block statements blockLine)
      s.store.fresh).runIn (s.enter home (Invocation.names ⟨f, receiver, arguments, s⟩ parameters))
      with ⟨ended, left⟩
    have hcall : (call eval f receiver arguments).runIn s = (Except.catchReturn ended, left) := by
      rw [henters.runIn_call, Eval.runIn_catchReturn, heval, hbody]
    refine ⟨_, ended, left, henters.opens, hbody, hcall, fun x hx => ?_⟩
    rcases ended with y | y
    · cases y with
      | returned y => exact .inr (congrArg (Except.error ∘ Exit.returned) (Except.ok.inj hx))
      | mistake | fault | tooDeep => cases hx
    · obtain rfl := Except.ok.inj hx
      obtain rfl := eq_undefined_of_block hbody
      exact .inl ⟨rfl, rfl⟩

end

namespace Entering

/-- A function with a parameter that comes twice, and one that is called `this`. -/
def parameters : List String := ["a", "this", "a", "b"]

def body : Node := .block [.giveBack (.name "a" 1) 1] 1

/-- There is a global frame, and nothing has been done. -/
def session : Session := ⟨Store.empty.addGlobal, "", #[]⟩

def made : Session :=
  ((evaluate .standard 9 (.function (some "f") parameters body 1) Store.empty.fresh).runIn
    session).2

def arguments : List Value := [.integer 1, .string "t", .integer 3, .integer 4]

/-- The evaluation of the parts of a node that calls the function. -/
def caller : Evaluator := evaluateParts .standard 40

end Entering

/-- The parameter has the argument where it comes last and stands where it comes first, and so does
`this`, in the place of the receiver. -/
theorem call_opens_repeated :
    (evaluate .standard 9 (.function (some "f") Entering.parameters Entering.body 1)
      Store.empty.fresh).runIn Entering.session =
      (.ok (.object Entering.session.store.fresh), Entering.made) ∧
    (call Entering.caller Entering.session.store.fresh .undefined []).runIn Entering.made =
      (.error (.mistake (.argumentCount "f" 4 0) none), Entering.made) ∧
    (∃ entered o, Entering.made.Opens entered Store.empty.fresh Entering.parameters .undefined
        Entering.arguments ∧
      entered.store.object? Entering.made.store.fresh = some o ∧
      o.entries.names = ["this", "a", "b"] ∧ o.entries.lookup "a" = some (.integer 3) ∧
      o.entries.lookup "this" = some (.string "t") ∧ o.entries.lookup "b" = some (.integer 4)) ∧
    ((call Entering.caller Entering.session.store.fresh .undefined Entering.arguments).runIn
      Entering.made).1 = .ok (.integer 3) := by
  have hmade : (evaluate .standard 9 (.function (some "f") Entering.parameters Entering.body 1)
      Store.empty.fresh).runIn Entering.session =
      (.ok (.object Entering.session.store.fresh), Entering.made) := by with_unfolding_all rfl
  have hbody : Entering.caller.run .body = evaluateSpaced Entering.caller.stack 40 3 := rfl
  have hnone := call_opens hmade (.refl _) hbody .undefined []
  have hall := call_opens hmade (.refl _) hbody .undefined Entering.arguments
  obtain ⟨entered, _, _, hopens, -⟩ := hall.2.2 rfl
  obtain ⟨o, ho, -, -, hholds⟩ := hopens.frame
  refine ⟨hmade, hnone.2.1 nofun, ⟨entered, o, hopens, ho, ?_, ?_, ?_, ?_⟩, ?_⟩
  · exact hholds.names.trans (by decide)
  · exact hholds.parameter 2 "a" rfl (by decide)
  · exact hholds.parameter 1 "this" rfl (by decide)
  · exact hholds.parameter 3 "b" rfl (by decide)
  · with_unfolding_all rfl

end Scriptlet
