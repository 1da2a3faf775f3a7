import Scriptlet.Proofs.Code
import Scriptlet.Proofs.Takes

/-!
# Evaluations That Come to an End

Calls go through values that a run finds in the store, and only a function that was written can lead
back into the program. Where none is written there is none in the store: whatever a script does to
its objects, what it calls is built in. Then every visit inside a visit is of a node below its node,
and a text of cyclic objects comes to an end in any case. So an evaluation of such a node takes only
so many levels, and goes the same way whenever there are as many.

How many it takes depends on what it meets on the way, such as the objects that it prints, and there
is no number that could be read off the node. So evaluations are looked at for all numbers of levels
at once, and said to *settle* if they go the same way from some number on.

## Main definitions

* `Node.FunctionFree`, `Store.Closureless`: there are no functions but those that are built in.
* `Store.Ready`: stores in which evaluations come to an end.
* `Eval.Settles`: an evaluation that goes the same way with every number of levels that is large
  enough.

## Main results

* `Eval.Settles.bind`: one evaluation after another.
* `settles_evaluateSpaced`: the evaluation of a node without functions.
-/

namespace Scriptlet

open Filter

/-! ### No functions -/

namespace Node

/-- Whether a node is a function. -/
def isFunction : Node → Bool
  | function .. => true
  | _ => false

/-- Whether there is no function in a node, at any depth. -/
def FunctionFree (n : Node) : Prop := ∀ m, n.Contains m → m.isFunction = false

namespace FunctionFree

variable {n : Node}

/-- The nodes below one without functions are without functions. -/
theorem child (h : n.FunctionFree) {m : Node} (hm : m ∈ n.children) : m.FunctionFree :=
  fun k hk => h k (.child hm hk)

/-- A node without functions is none itself. -/
theorem ne_function (h : n.FunctionFree) {name : Option String} {parameters : List String}
    {body : Node} {line : Int} : n ≠ .function name parameters body line := by
  rintro rfl
  cases h _ .self

end FunctionFree

end Node

/-- Whether no function in a store was written. -/
def Store.Closureless (s : Store) : Prop :=
  ∀ r parameters body home, s.action? r ≠ some (.closure parameters body home)

namespace Store.Closureless

variable {s : Store}

/-- An object that is not called is no closure. -/
theorem add (h : s.Closureless) {o : Object} (ho : o.action = none) : (s.add o).Closureless := by
  intro r parameters body home ha
  rcases action?_add_eq_some ha with ha | ⟨-, ha⟩
  · exact h r parameters body home ha
  · cases ho.symm.trans ha

/-- Setting a name makes no closure. -/
theorem put (h : s.Closureless) (r : Ref) (name : String) (v : Value) :
    (s.put r name v).Closureless := by
  intro q parameters body home ha
  rw [action?_put] at ha
  exact h q parameters body home ha

end Store.Closureless

/-- What is there at the start is built in. -/
theorem Store.closureless_addGlobal : Store.empty.addGlobal.Closureless := by
  intro r parameters body home ha
  obtain ⟨_, -, hb⟩ := Store.exists_of_action?_addGlobal ha
  cases hb

/-- Whether evaluations of nodes without functions come to an end in a store: it is sealed, and no
function in it was written. -/
structure Store.Ready (g : Ref) (s : Store) : Prop where
  sealed : s.Sealed g
  closureless : s.Closureless

/-- A store stays ready when a name is set to something public. -/
theorem Store.Ready.put {g : Ref} {s : Store} (h : s.Ready g) (r : Ref) (name : String) {v : Value}
    (hv : s.Public v) : (s.put r name v).Ready g :=
  ⟨h.sealed.put r name hv, h.closureless.put r name v⟩

/-- A store stays ready when a record is made. -/
theorem Store.Ready.add_record {g : Ref} {s : Store} (h : s.Ready g) :
    (s.add (.record none)).Ready g :=
  ⟨h.sealed.add_record, h.closureless.add rfl⟩

/-! ### Evaluations for all numbers of levels -/

namespace Eval

variable {α β : Type}

/-- Whether an evaluation goes the same way in a session with every number of levels that is large
enough. It is not cut off then, and leaves a store in which others come to an end. -/
def Settles (g : Ref) (s : Session) (e : (levels : Nat) → Eval α) (P : Store → α → Prop) : Prop :=
  ∃ x t, (∀ᶠ levels in atTop, (e levels).runIn s = (x, t)) ∧ x ≠ .error .tooDeep ∧
    s.store.Grows t.store ∧ t.store.Ready g ∧ ∀ a, x = .ok a → P t.store a

namespace Settles

variable {g : Ref} {s t : Session} {e : (levels : Nat) → Eval α} {P : Store → α → Prop}

/-- Only how an evaluation goes with many levels counts. -/
theorem congr {e' : (levels : Nat) → Eval α} (h : Settles g s e P)
    (he : ∀ᶠ levels in atTop, (e' levels).runIn s = (e levels).runIn s) : Settles g s e' P := by
  obtain ⟨x, t, hrun, h⟩ := h
  refine ⟨x, t, ?_, h⟩
  filter_upwards [he, hrun] with levels he hrun
  exact he.trans hrun

/-- Some levels less are as good. -/
theorem sub (h : Settles g s e P) (k : Nat) : Settles g s (fun levels => e (levels - k)) P := by
  obtain ⟨x, t, hrun, h⟩ := h
  exact ⟨x, t, (tendsto_sub_atTop_nat k).eventually hrun, h⟩

/-! #### Steps -/

/-- What ends at once, in a later store. -/
theorem step {x : Except Exit α} (hrun : ∀ levels, (e levels).runIn s = (x, t))
    (hx : x ≠ .error .tooDeep) (hgrows : s.store.Grows t.store) (ht : t.store.Ready g)
    (ha : ∀ a, x = .ok a → P t.store a) : Settles g s e P :=
  ⟨x, t, .of_forall hrun, hx, hgrows, ht, ha⟩

/-- A value that is known before. -/
theorem pure (hs : s.store.Ready g) {a : α} (ha : P s.store a) :
    Settles g s (fun _ => Pure.pure a) P := by
  refine .step (fun _ => rfl) nofun (.refl _) hs fun b hb => ?_
  obtain rfl := Except.ok.inj hb
  exact ha

/-- An exit that takes no levels. -/
theorem throw (hs : s.store.Ready g) {x : Exit} (hx : x ≠ .tooDeep) :
    Settles g s (fun _ => MonadExcept.throw x) P :=
  .step (fun _ => rfl) (fun h => hx (Except.error.inj h)) (.refl _) hs nofun

/-- Reading a name. -/
theorem read (hs : s.store.Ready g) (r : Ref) (name : String) :
    Settles g s (fun _ => Eval.read r name) Store.Public := by
  refine .step (runIn_read r name s |> fun h _ => h) nofun (.refl _) hs fun v hv => ?_
  obtain rfl := Except.ok.inj hv
  exact hs.sealed.public_read r name

/-- Setting a name. -/
theorem put (hs : s.store.Ready g) (r : Ref) (name : String) {v : Value} (hv : s.store.Public v) :
    Settles g s (fun _ => Eval.put r name v) fun _ _ => True :=
  .step (fun _ => runIn_put r name v s) nofun (s.store.grows_put r name v) (hs.put r name hv)
    fun _ _ => trivial

/-- There are enough levels at some point. -/
theorem reserve (hs : s.store.Ready g) (need : Nat) :
    Settles g s (fun levels => Eval.reserve levels need) fun _ _ => True := by
  refine (pure hs (a := ()) trivial).congr ?_
  filter_upwards [eventually_ge_atTop need] with levels hle
  exact runIn_reserve_of_le hle s

/-- A text that settles. -/
theorem written (hs : s.store.Ready g) {large : Prop} {text : (levels : Nat) → Except NoText String}
    (h : NoText.Settles large text) :
    Settles g s (fun levels => Eval.written (text levels)) fun _ _ => True := by
  rcases h with ⟨w, hw⟩ | ⟨-, hw⟩
  · refine (pure hs (a := w) trivial).congr ?_
    filter_upwards [hw] with levels hw
    rw [hw]
    rfl
  · refine (throw hs (x := .fault .oversizedNumeral) nofun).congr ?_
    filter_upwards [hw] with levels hw
    rw [hw]
    rfl

/-! #### Sequences -/

/-- One evaluation after another: the second one settles where the first one comes to its end. -/
theorem bind {f : (levels : Nat) → α → Eval β} {Q : Store → β → Prop} (he : Settles g s e P)
    (hf : ∀ a t, s.store.Grows t.store → t.store.Ready g → P t.store a →
      Settles g t (fun levels => f levels a) Q) :
    Settles g s (fun levels => e levels >>= f levels) Q := by
  obtain ⟨x, t, hrun, hx, hgrows, hready, ha⟩ := he
  cases x with
  | error x =>
      refine ⟨.error x, t, ?_, fun h => hx (congrArg _ (Except.error.inj h)), hgrows, hready, nofun⟩
      filter_upwards [hrun] with levels hrun
      rw [runIn_bind, hrun]
  | ok a =>
      obtain ⟨y, u, hrest, hy, hgrows', h⟩ := hf a t hgrows hready (ha a rfl)
      refine ⟨y, u, ?_, hy, hgrows.trans hgrows', h⟩
      filter_upwards [hrun, hrest] with levels hrun hrest
      rw [runIn_bind_of_ok hrun, hrest]

/-- Looking at the objects. -/
theorem store_bind {f : (levels : Nat) → Store → Eval α}
    (h : Settles g s (fun levels => f levels s.store) P) :
    Settles g s (fun levels => Eval.store >>= f levels) P :=
  h.congr (.of_forall fun _ => rfl)

/-- A result that is thrown away. -/
theorem discard (he : Settles g s e P) :
    Settles g s (fun levels => Functor.discard (e levels)) fun _ _ => True :=
  he.bind fun _ _ _ ht _ => pure ht trivial

/-- A list of evaluations, whose results stay what they are. -/
theorem mapM {f : (levels : Nat) → α → Eval β} {Q : Store → β → Prop}
    (hQ : ∀ t u b, t.Grows u → Q t b → Q u b) {as : List α} (hs : s.store.Ready g)
    (hf : ∀ a ∈ as, ∀ t : Session, s.store.Grows t.store → t.store.Ready g →
      Settles g t (fun levels => f levels a) Q) :
    Settles g s (fun levels => as.mapM (f levels)) fun t bs => ∀ b ∈ bs, Q t b := by
  induction as generalizing s with
  | nil => exact pure hs nofun
  | cons a rest ih =>
      simp only [List.mapM_cons]
      refine (hf a List.mem_cons_self s (.refl _) hs).bind fun b t hst ht hb => ?_
      have hrest := ih ht fun a' ha' u htu hu =>
        hf a' (List.mem_cons_of_mem _ ha') u (hst.trans htu) hu
      refine hrest.bind fun bs u htu hu hbs => pure hu (List.forall_mem_cons.mpr ⟨?_, hbs⟩)
      exact hQ t.store u.store b htu hb

/-- A row of evaluations comes to an end if each of them does. -/
theorem forM {f : (levels : Nat) → α → Eval Unit} {as : List α} (hs : s.store.Ready g)
    (hf : ∀ a ∈ as, ∀ t : Session, s.store.Grows t.store → t.store.Ready g →
      Settles g t (fun levels => f levels a) fun _ _ => True) :
    Settles g s (fun levels => as.forM (f levels)) fun _ _ => True := by
  induction as generalizing s with
  | nil => exact pure hs trivial
  | cons a rest ih =>
      refine (hf a List.mem_cons_self s (.refl _) hs).bind fun _ t hst ht _ => ?_
      exact ih ht fun a' ha' u htu hu => hf a' (List.mem_cons_of_mem _ ha') u (hst.trans htu) hu

/-- A mistake may get a line. -/
theorem onLine (h : Settles g s e P) (line : Int) :
    Settles g s (fun levels => Eval.onLine line (e levels)) P := by
  obtain ⟨x, t, hrun, hx, hgrows, hready, ha⟩ := h
  refine ⟨x.mapError (Exit.onLine line), t, ?_, ?_, hgrows, hready, ?_⟩
  · filter_upwards [hrun] with levels hrun
    rw [runIn_onLine, hrun]
  · cases x with
    | ok a => exact nofun
    | error x =>
        cases x with
        | mistake m l => cases l <;> exact nofun
        | tooDeep => exact absurd rfl hx
        | returned | fault => exact nofun
  · intro a hxa
    cases x with
    | ok b => exact ha a hxa
    | error x => cases hxa

end Settles

end Eval

open Eval (Settles Takes)

section

variable {g : Ref} {s : Session} {stack : Stack}

/-! ### Built-in functions -/

/-- With enough levels, a call of `print` is noted, or it cannot be described and is not noted. -/
theorem eventually_notePrinting (hs : s.store.Sealed g) (stack : Stack) {arguments : List Value}
    (h : ∀ v ∈ arguments, s.store.Public v) :
    ∃ t, ∀ᶠ levels in atTop, (notePrinting stack levels arguments).runIn s = (.ok (), t) := by
  unfold notePrinting
  split
  · have hdescribed : NoText.Settles True fun levels =>
        arguments.mapM (s.store.describe stack.text (levels - stack.above .record)) :=
      .mapM fun v hv =>
        ((Store.settles_describe hs stack.text (h v hv)).mono fun _ => trivial).sub _
    rcases hdescribed with ⟨texts, htexts⟩ | ⟨-, htexts⟩
    · refine ⟨{ s with events := s.events.push (.printing texts) }, ?_⟩
      filter_upwards [htexts, eventually_ge_atTop (stack.above .record)] with levels htexts hle
      rw [Eval.runIn_bind_of_ok (Eval.runIn_reserve_of_le hle s),
        Eval.runIn_bind_of_ok (Eval.runIn_store s), htexts]
      rfl
    · refine ⟨s, ?_⟩
      filter_upwards [htexts, eventually_ge_atTop (stack.above .record)] with levels htexts hle
      rw [Eval.runIn_bind_of_ok (Eval.runIn_reserve_of_le hle s),
        Eval.runIn_bind_of_ok (Eval.runIn_store s), htexts]
      rfl
  · exact ⟨s, .of_forall fun _ => rfl⟩

/-- With enough levels, `print` writes the texts that its arguments have with enough levels, or is
left where there is none. -/
theorem Builtin.eventually_print (hs : s.store.Sealed g) (stack : Stack) {arguments : List Value}
    (h : ∀ v ∈ arguments, s.store.Public v) {texts : Except NoText (List String)}
    (ht : ∀ᶠ levels in atTop, arguments.mapM (s.store.printed stack.text levels) = texts) :
    ∃ t, t.store = s.store ∧ t.output = s.output ∧
      ∀ᶠ levels in atTop, (Builtin.print.apply stack levels arguments).runIn s = match texts with
        | .error why => (.error why.exit, t)
        | .ok printed =>
          (.ok .undefined, { t with output := t.output ++ (" ".intercalate printed ++ "\n") }) := by
  obtain ⟨t, hnoted⟩ := eventually_notePrinting hs stack h
  obtain ⟨levels, hlevels⟩ := hnoted.exists
  obtain ⟨hstore, houtput, -⟩ := cases_of_notePrinting hlevels
  refine ⟨t, hstore, houtput, ?_⟩
  filter_upwards [hnoted, (tendsto_sub_atTop_nat (stack.above .print)).eventually ht,
    eventually_ge_atTop stack.print] with levels hnoted htexts hle
  have hline := runIn_printLine stack levels arguments t
  rw [← hstore] at htexts
  rw [htexts] at hline
  rw [Builtin.apply, Eval.runIn_bind_of_ok (Eval.runIn_reserve_of_le hle s),
    Eval.runIn_bind_of_ok hnoted]
  exact hline

/-- A call of `print` that goes one way with many levels takes so many, and is cut off before it
writes anything. -/
theorem Builtin.exists_takes_print (stack : Stack) (arguments : List Value)
    {result : Except Exit Value} {t : Session}
    (h : ∀ᶠ levels in atTop, (Builtin.print.apply stack levels arguments).runIn s = (result, t))
    (hx : result ≠ .error .tooDeep) :
    ∃ need, Takes (·.output = s.output) s
      (fun levels => Builtin.print.apply stack levels arguments) need result t := by
  obtain ⟨need, htakes⟩ :=
    Eval.exists_takes (fun hle => Builtin.shortOf_apply stack hle .print arguments) hx h
  refine ⟨need, htakes.cut fun levels u hu => ?_⟩
  obtain ⟨-, ⟨hok, -⟩ | ⟨-, houtput⟩⟩ := Builtin.cases_of_print hu
  · cases hok
  · exact houtput

/-- A call of a built-in function comes to an end. -/
theorem settles_builtin (hs : s.store.Ready g) (stack : Stack) (b : Builtin)
    {arguments : List Value} (h : ∀ v ∈ arguments, s.store.Public v) :
    Settles g s (fun levels => b.apply stack levels arguments) Store.Public := by
  cases b with
  | print =>
      have hprinted : NoText.Settles True fun levels =>
          arguments.mapM (s.store.printed stack.text levels) :=
        .mapM fun v hv =>
          (Store.settles_printed hs.sealed stack.text (h v hv)).mono fun _ => trivial
      rcases hprinted with ⟨texts, htexts⟩ | ⟨-, htexts⟩
      · obtain ⟨t, hstore, -, hrun⟩ := Builtin.eventually_print hs.sealed stack h htexts
        refine ⟨_, _, hrun, nofun, hstore ▸ .refl _, hstore ▸ hs, fun v hv => ?_⟩
        obtain rfl := Except.ok.inj hv
        trivial
      · -- an integer is too long to be written
        obtain ⟨t, hstore, -, hrun⟩ := Builtin.eventually_print hs.sealed stack h htexts
        exact ⟨_, _, hrun, nofun, hstore ▸ .refl _, hstore ▸ hs, nofun⟩
  | operator op =>
      refine (Settles.reserve hs _).bind fun _ t _ ht _ => ?_
      cases hresult : op.applyTo arguments with
      | error f => exact .throw ht nofun
      | ok v =>
          refine .pure ht ?_
          match arguments, hresult with
          | a :: b :: _, hresult =>
              obtain ⟨k, rfl⟩ := Operator.exists_integer_of_apply hresult
              trivial

/-! ### What is required of values -/

variable {α : Type} {P : Store → α → Prop}

/-- A mistake is made at some point. -/
theorem settles_mistake (hs : s.store.Ready g) (stack : Stack) (m : Mistake) :
    Settles g s (fun levels => ((evaluateParts stack levels).mistake m : Eval α)) P :=
  Settles.bind (f := fun _ _ => Eval.mistake m) (.reserve hs (stack.mistake m)) fun _ _ _ ht _ =>
    .throw ht nofun

/-- A mistake that shows a value. -/
theorem settles_mistake_shown (hs : s.store.Ready g) (stack : Stack) (purpose : Purpose) {v : Value}
    (hv : s.store.Public v) (m : String → Mistake) :
    Settles g s (fun levels => (do
      (evaluateParts stack levels).mistake (m (← (evaluateParts stack levels).shown purpose v)) :
      Eval α)) P := by
  have hshown := (Store.settles_display hs.sealed stack.text hv).sub (stack.above purpose)
  exact Settles.bind (.store_bind (.written hs hshown)) fun text t _ ht _ =>
    settles_mistake ht stack (m text)

/-- A value that should be an object. -/
theorem settles_requireObject (hs : s.store.Ready g) (stack : Stack) (purpose : String) {v : Value}
    (hv : s.store.Public v) :
    Settles g s (fun levels => requireObject (evaluateParts stack levels) purpose v)
      fun t r => t.Public (.object r) := by
  cases v with
  | object r => exact .pure hs hv
  | undefined | integer | string | node =>
      exact settles_mistake_shown hs stack .receiver hv (.notAnObject · purpose)

/-- An object that is to be called, and that is a mistake if it cannot be. -/
theorem settles_callable (hs : s.store.Ready g) {r : Ref} (hr : s.store.Public (.object r))
    {otherwise : (levels : Nat) → Eval Ref}
    (ho : Settles g s otherwise fun t f => t.Public (.object f)) :
    Settles g s (fun levels => Eval.store >>= fun store => match store.action? r with
      | some _ => pure r
      | none => otherwise levels) fun t f => t.Public (.object f) := by
  refine .store_bind ?_
  cases s.store.action? r with
  | none => exact ho
  | some a => exact .pure hs hr

/-- A value that should be a function. -/
theorem settles_requireFunction (hs : s.store.Ready g) (stack : Stack) {v : Value}
    (hv : s.store.Public v) :
    Settles g s (fun levels => requireFunction (evaluateParts stack levels) v)
      fun t f => t.Public (.object f) := by
  have hmistake := settles_mistake_shown (P := fun t f => t.Public (.object f)) hs stack .callee hv
    .notAFunction
  cases v with
  | object r => exact settles_callable hs hv hmistake
  | undefined | integer | string | node => exact hmistake

/-- A name that should be one of a method. -/
theorem settles_requireMethod (hs : s.store.Ready g) (stack : Stack) {object : Ref}
    (hobject : s.store.Public (.object object)) (name : String) :
    Settles g s (fun levels => requireMethod (evaluateParts stack levels) object name)
      fun t f => t.Public (.object f) := by
  refine (Settles.read hs object name).bind fun v t hst ht hv => ?_
  cases v with
  | undefined => exact settles_mistake_shown ht stack .method (hobject.mono hst) (.noMethod · name)
  | object r => exact settles_callable ht hv (settles_mistake ht stack _)
  | integer | string | node => exact settles_mistake ht stack _

/-- A value that should be a condition. -/
theorem settles_requireBoolean (hs : s.store.Ready g) (stack : Stack) {v : Value}
    (hv : s.store.Public v) :
    Settles g s (fun levels => requireBoolean (evaluateParts stack levels) v) fun _ _ => True := by
  unfold requireBoolean
  split
  · exact .pure hs trivial
  · exact .pure hs trivial
  · exact settles_mistake_shown hs stack .condition hv .notABoolean

/-- A name that should be undefined. -/
theorem settles_requireUndefined (hs : s.store.Ready g) (stack : Stack) (declares : Bool)
    (frame : Ref) (name : String) :
    Settles g s (fun levels => requireUndefined (evaluateParts stack levels) declares frame name)
      fun _ _ => True := by
  refine (Settles.read hs frame name).bind fun v t _ ht _ => ?_
  split
  · exact .pure ht trivial
  · exact .pure ht trivial
  · exact settles_mistake ht stack _

/-! ### Calls -/

/-- There are levels enough for a call. -/
theorem eventually_admits (stack : Stack) (s : Store) (f : Ref) :
    ∀ᶠ levels in atTop, (evaluateParts stack levels).admits s f = true := by
  filter_upwards [eventually_ge_atTop stack.enter] with levels hle
  unfold Evaluator.admits
  split
  · rfl
  · exact decide_eq_true hle

/-- Where no function was written, a call comes to an end: what is called is built in. -/
theorem settles_invoke (hs : s.store.Ready g) (stack : Stack) {f : Ref}
    (hf : s.store.Public (.object f)) (receiver : Value) {arguments : List Value}
    (h : ∀ v ∈ arguments, s.store.Public v) :
    Settles g s (fun levels => invoke (evaluateParts stack levels) f receiver arguments)
      Store.Public := by
  have hcall : Settles g s (fun levels => call (evaluateParts stack levels) f receiver arguments)
      Store.Public := by
    refine .store_bind ?_
    rcases ho : s.store.object? f with _ | ⟨name, parent, _ | action, entries⟩
    · exact settles_mistake_shown hs stack .callee hf .notAFunction
    · exact settles_mistake_shown hs stack .callee hf .notAFunction
    cases action with
    | builtin b => exact settles_builtin hs stack b h
    | constant v => exact .pure hs ((hs.sealed.holds _ _ ho).constant v rfl)
    | closure parameters body home =>
        refine absurd ?_ (hs.closureless f parameters body home)
        rw [Store.action?, ho]
        rfl
  refine hcall.congr ?_
  filter_upwards [eventually_admits stack s.store f] with levels hroom
  rw [invoke, Eval.runIn_bind_of_ok (Eval.runIn_store s), if_pos hroom]

/-! ### The rule of a node -/

/-- **The rule of a node comes to an end** if it is no function and its parts do. -/
theorem settles_evaluateWith {n : Node} {frame : Ref} (hn : n.Plain) (hfree : n.isFunction = false)
    (hparts : ∀ m ∈ n.children, ∀ role (t : Session), t.store.Ready g →
      Settles g t (fun levels => evaluateParts stack levels role m frame) Store.Public)
    (hs : s.store.Ready g) :
    Settles g s (fun levels => evaluateWith (evaluateParts stack levels) n frame) Store.Public := by
  have arguments {ns : List Node} (hns : ∀ m ∈ ns, m ∈ n.children) {t : Session}
      (ht : t.store.Ready g) :
      Settles g t (fun levels => ns.mapM fun m => evaluateParts stack levels .argument m frame)
        fun u values => ∀ v ∈ values, u.Public v :=
    .mapM (fun _ _ _ htu hv => hv.mono htu) ht fun m hm u _ hu => hparts m (hns m hm) .argument u hu
  cases hn with
  | block =>
      refine Settles.bind (.forM hs fun m hm t _ ht => ?_) fun _ _ _ ht _ => .pure ht trivial
      exact (hparts m hm .statement t ht).discard
  | literal hv => exact .pure hs (Store.public_of_plain hv)
  | @call callee ns =>
      refine (hparts callee (by simp [Node.children]) .operand s hs).bind fun v t _ ht hv => ?_
      refine (settles_requireFunction ht stack hv).bind fun f u _ hu hf => ?_
      refine (arguments (by simp +contextual [Node.children]) hu).bind fun values w huw hw hvs => ?_
      exact settles_invoke hw stack (hf.mono huw) .undefined hvs
  | name => exact .read hs frame _
  | @assign x value declares =>
      refine (settles_requireUndefined hs stack declares frame x).bind fun _ t _ ht _ => ?_
      refine (hparts value (by simp [Node.children]) .operand t ht).bind fun v u _ hu hv => ?_
      exact (Settles.put hu frame x hv).bind fun _ _ _ hw _ => .pure hw trivial
  | function => cases hfree
  | @giveBack value =>
      refine (hparts value (by simp [Node.children]) .operand s hs).bind fun v t _ ht _ => ?_
      exact .throw ht (by simp)
  | @branch condition consequence alternative =>
      refine (hparts condition (by simp [Node.children]) .operand s hs).bind fun v t _ ht hv => ?_
      refine (settles_requireBoolean ht stack hv).bind fun b u _ hu _ => ?_
      cases b with
      | true => exact hparts consequence (by simp [Node.children]) .operand u hu
      | false => exact hparts alternative (by simp [Node.children]) .operand u hu
  | @record es =>
      -- entries are set while others are still evaluated, so the record is public from the start
      have hadded : (s.store.add (.record none)).Ready g := hs.add_record
      have hpublic : (s.store.add (.record none)).Public (.object s.store.fresh) :=
        s.store.public_fresh rfl
      have hmade : Settles g s (fun _ => Eval.add (.record none)) fun t r => t.Public (.object r) :=
        .step (fun _ => Eval.runIn_add _ s) (by simp) (Store.grows_add _ _) hadded fun r hr => by
          obtain rfl := Except.ok.inj hr
          exact hpublic
      refine hmade.bind fun object t _ ht hobject => ?_
      refine Settles.bind (.forM ht fun e he u _ hu => ?_) fun _ u htu hu _ => ?_
      · refine (hparts e.2 (List.mem_map_of_mem he) .operand u hu).bind fun v w _ hw hv => ?_
        exact .put hw object e.1 hv
      · have hthis := Settles.put hu object "this" (hobject.mono htu)
        exact hthis.bind fun _ _ huw hw _ => .pure hw ((hobject.mono htu).mono huw)
  | @field receiver x =>
      refine (hparts receiver (by simp [Node.children]) .operand s hs).bind fun v t _ ht hv => ?_
      cases v with
      | object r => exact .read ht r x
      | undefined | integer | string | node => exact .pure ht hv
  | @assignField receiver value x line hr =>
      refine (hparts receiver (by simp [Node.children]) .operand s hs).bind fun v t _ ht hv => ?_
      refine (settles_requireObject ht stack _ hv).bind fun object u _ hu _ => ?_
      refine (hparts value (by simp [Node.children]) .operand u hu).bind fun v w _ hw hv => ?_
      exact (Settles.put hw object x hv).bind fun _ _ _ ht _ => .pure ht hr
  | @callMethod receiver x ns =>
      refine (hparts receiver (by simp [Node.children]) .operand s hs).bind fun v t _ ht hv => ?_
      refine (settles_requireObject ht stack _ hv).bind fun object u _ hu hobject => ?_
      refine (settles_requireMethod hu stack hobject x).bind fun f w _ hw hf => ?_
      refine (arguments (by simp +contextual [Node.children]) hw).bind fun values x hwx hx hvs => ?_
      exact settles_invoke hx stack (hf.mono hwx) (.object object) hvs

/-- **The evaluation of a node without functions comes to an end**, if there are enough levels. -/
theorem settles_evaluateSpaced {n : Node} (hn : n.Plain) (hfree : n.FunctionFree) (stack : Stack)
    (gap : Nat) (frame : Ref) (hs : s.store.Ready g) :
    Settles g s (fun levels => evaluateSpaced stack levels gap n frame) Store.Public := by
  induction n using Node.induction_children generalizing gap s with
  | h n ih =>
  have hrule :
      Settles g s (fun levels => evaluateWith (evaluateParts stack levels) n frame) Store.Public :=
    settles_evaluateWith hn (hfree n .self)
      (fun m hm role t ht => ih m hm (hn.child hm) (hfree.child hm) (stack.part role) ht) hs
  refine (((hrule.onLine n.line).sub 1).sub gap).congr ?_
  filter_upwards [eventually_ge_atTop (stack.rule n.kind + 1 + gap)] with levels hle
  obtain ⟨below, hbelow⟩ := Nat.exists_eq_add_of_le' (show 1 ≤ levels - gap by omega)
  rw [evaluateSpaced_eq_sub, hbelow, evaluateSpaced, if_pos (by omega)]
  rfl

end

end Scriptlet
