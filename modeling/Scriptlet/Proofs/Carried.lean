import Scriptlet.Proofs.Carrying

/-!
# Every Evaluation Can Be Carried Over

Where an evaluation is carried over to another session, it does there what it does here. This is
shown of what the rule of a node asks of values, of built-in functions and of calls, then of the
rule itself if it holds of the parts, and so of all evaluations.

Where lines are not kept the program has to be tidy. Then no value of a node is a node, unless that
is a statement of a block.

## Main definitions

* `Carrier.Carried`: whether an evaluation can be carried over.

## Main results

* `Carrier.carries_call`: a call.
* `Carrier.carried_evaluateWith`: the rule of a node.
* `Carrier.carried_evaluateSpaced`: an evaluation.
* `Carrier.carries_inOwnGlobal`: a run of a program.
-/

namespace Scriptlet.Carrier

/-- Whether an evaluation of plain nodes does elsewhere, as `run'`, what it does here. -/
def Carried (c : Carrier) (g : Ref) (run run' : Node → Ref → Eval Value) : Prop :=
  ∀ (b : Bool) (v : Visit), v.Proper g → c.Fits v.session.store →
    (c.keeps = false → v.node.Tidy b) →
    c.Carries g v.session (run v.node v.frame) c.value (run' (c.node v.node) (c.ref v.frame))
      fun t x => t.Public x ∧ (b = false → c.Takes x)

/-- Whether an evaluator does elsewhere what another one does here, on the same stack and with as
many levels left. -/
structure Follows (c : Carrier) (g : Ref) (eval eval' : Evaluator) : Prop where
  stack : eval'.stack = eval.stack
  levels : eval'.levels = eval.levels
  parts : ∀ role, c.Carried g (eval role) (eval' role)

variable {c : Carrier} {g : Ref} {s : Session} {eval eval' : Evaluator} {frame : Ref}

/-! ### What is required of values -/

section

variable {α β : Type} {f : α → β} {P : Store → α → Prop}

/-- A run is cut off there as it was. -/
theorem carries_tooDeep (hs : s.store.Sealed g) (hf : c.Fits s.store) :
    c.Carries g s (throw .tooDeep) f (throw .tooDeep) P :=
  .throw (x := .tooDeep) hs hf nofun

/-- As many levels must be left. -/
theorem carries_reserve (hs : s.store.Sealed g) (hf : c.Fits s.store) (levels need : Nat) :
    c.Carries g s (Eval.reserve levels need) id (Eval.reserve levels need) fun _ _ => True := by
  unfold Eval.reserve
  split
  · exact .pure hs hf trivial
  · exact carries_tooDeep hs hf

/-- A text that there may be none of. -/
theorem carries_written (hs : s.store.Sealed g) (hf : c.Fits s.store)
    (text : Except NoText String) :
    c.Carries g s (Eval.written text) id (Eval.written text) fun _ _ => True := by
  rcases text with (_ | _) | text
  · exact .fault hs hf _
  · exact carries_tooDeep hs hf
  · exact .pure hs hf trivial

/-- A mistake takes as many levels. -/
theorem carries_mistake (heval : c.Follows g eval eval') (hs : s.store.Sealed g)
    (hf : c.Fits s.store) (m : Mistake) :
    c.Carries g s (eval.mistake m) f (eval'.mistake m) P := by
  rw [Evaluator.mistake, Evaluator.mistake, heval.stack, heval.levels]
  exact (carries_reserve hs hf _ _).bind fun _ _ _ _ ht hft _ => .mistake ht hft m

/-- A mistake that shows a value. -/
theorem carries_mistake_shown (heval : c.Follows g eval eval') (hs : s.store.Sealed g)
    (hf : c.Fits s.store) (purpose : Purpose) {v : Value} (hv : s.store.Public v) (ht : c.Takes v)
    (m : String → Mistake) :
    c.Carries g s (do eval.mistake (m (← eval.shown purpose v))) f
      (do eval'.mistake (m (← eval'.shown purpose (c.value v)))) P := by
  have hshown : c.Carries g s (eval.shown purpose v) id (eval'.shown purpose (c.value v))
      fun _ _ => True := by
    rw [Evaluator.shown, Evaluator.shown, heval.stack, heval.levels]
    refine .store_bind ?_
    rw [display_value hs hf hv ht]
    exact carries_written hs hf _
  exact hshown.bind fun text t _ _ ht hft _ => carries_mistake heval ht hft (m text)

end

/-- A value that should be an object. -/
theorem carries_requireObject (heval : c.Follows g eval eval') (hs : s.store.Sealed g)
    (hf : c.Fits s.store) (purpose : String) {v : Value} (hv : s.store.Public v)
    (ht : c.Takes v) :
    c.Carries g s (requireObject eval purpose v) c.ref (requireObject eval' purpose (c.value v))
      fun t r => t.Public (.object r) := by
  have hmistake : c.Carries g s _ c.ref _ fun t r => t.Public (.object r) :=
    carries_mistake_shown heval hs hf .receiver hv ht (.notAnObject · purpose)
  cases v with
  | object r => exact .pure hs hf hv
  | undefined | integer | string | node => exact hmistake

/-- An object that should be callable. -/
theorem carries_callable (hs : s.store.Sealed g) (hf : c.Fits s.store) {r : Ref}
    (hr : s.store.Public (.object r)) {e : Eval Ref} {e' : Eval Ref}
    (he : c.Carries g s e c.ref e' fun t r => t.Public (.object r)) :
    c.Carries g s (do match (← Eval.store).action? r with | some _ => return r | none => e) c.ref
      (do match (← Eval.store).action? (c.ref r) with | some _ => return (c.ref r) | none => e')
      fun t r => t.Public (.object r) := by
  refine .store_bind ?_
  rw [action?_store]
  cases s.store.action? r with
  | none => exact he
  | some a => exact .pure hs hf hr

/-- A value that should be a function. -/
theorem carries_requireFunction (heval : c.Follows g eval eval') (hs : s.store.Sealed g)
    (hf : c.Fits s.store) {v : Value} (hv : s.store.Public v) (ht : c.Takes v) :
    c.Carries g s (requireFunction eval v) c.ref (requireFunction eval' (c.value v))
      fun t r => t.Public (.object r) := by
  have hmistake : c.Carries g s _ c.ref _ fun t r => t.Public (.object r) :=
    carries_mistake_shown heval hs hf .callee hv ht .notAFunction
  cases v with
  | object r => exact carries_callable hs hf hv hmistake
  | undefined | integer | string | node => exact hmistake

/-- A name that should be one of a method. -/
theorem carries_requireMethod (heval : c.Follows g eval eval') (hs : s.store.Sealed g)
    (hf : c.Fits s.store) {object : Ref} (ho : s.store.Public (.object object)) (name : String) :
    c.Carries g s (requireMethod eval object name) c.ref (requireMethod eval' (c.ref object) name)
      fun t r => t.Public (.object r) := by
  refine (Carries.read hs hf ho.index_lt name).bind fun v t _ hst ht hft hv => ?_
  have hnoMethod : c.Carries g t _ c.ref _ fun t r => t.Public (.object r) :=
    carries_mistake_shown heval ht hft .method (ho.mono hst) (c.takes_object _) (.noMethod · name)
  cases v with
  | undefined => exact hnoMethod
  | object r => exact carries_callable ht hft hv.1 (carries_mistake heval ht hft _)
  | integer | string | node => exact carries_mistake heval ht hft _

/-- A value that should be a condition. -/
theorem carries_requireBoolean (heval : c.Follows g eval eval') (hs : s.store.Sealed g)
    (hf : c.Fits s.store) {v : Value} (hv : s.store.Public v) (ht : c.Takes v) :
    c.Carries g s (requireBoolean eval v) id (requireBoolean eval' (c.value v))
      fun _ _ => True := by
  have hmistake : c.Carries g s _ (id : Bool → Bool) _ fun _ _ => True :=
    carries_mistake_shown heval hs hf .condition hv ht .notABoolean
  cases v with
  | integer n =>
      show c.Carries g s (requireBoolean eval (.integer n)) id (requireBoolean eval' (.integer n)) _
      unfold requireBoolean
      split
      · exact .pure hs hf trivial
      · exact .pure hs hf trivial
      · exact hmistake
  | undefined | string | object | node => exact hmistake

/-- A name that should be undefined. -/
theorem carries_requireUndefined (heval : c.Follows g eval eval') (hs : s.store.Sealed g)
    (hf : c.Fits s.store) (declares : Bool) {frame : Ref} (hr : s.store.IsFrame frame)
    (name : String) :
    c.Carries g s (requireUndefined eval declares frame name) id
      (requireUndefined eval' declares (c.ref frame) name) fun _ _ => True := by
  refine (Carries.read hs hf hr.index_lt name).bind fun v t _ _ ht hft _ => ?_
  cases declares with
  | false => exact .pure ht hft trivial
  | true =>
      cases v with
      | undefined => exact .pure ht hft trivial
      | integer | string | object | node => exact carries_mistake heval ht hft _

/-! ### Calls -/

/-- An event is noted behind those that were noted already. -/
theorem carries_note (hs : s.store.Sealed g) (hf : c.Fits s.store) (event : Event) :
    c.Carries g s (Eval.note event) id (Eval.note event) fun _ _ => True where
  seals := .note hs event
  run := by
    show (_, { c.session s with events := (c.base.events ++ s.events).push event }) = (_, _)
    rw [← Array.append_push]
    rfl
  fits := hf
  exit := nofun

/-- A text is printed behind what was printed already. -/
theorem carries_write (hs : s.store.Sealed g) (hf : c.Fits s.store) (text : String) :
    c.Carries g s (Eval.write text) id (Eval.write text) fun _ _ => True where
  seals := .write hs text
  run := by
    show (_, { c.session s with output := c.base.output ++ s.output ++ text }) = (_, _)
    rw [String.append_assoc]
    rfl
  fits := hf
  exit := nofun

section

variable {arguments : List Value}

/-- The texts of some values, which are the same elsewhere. -/
theorem mapM_texts {texts texts' : Value → Except NoText String}
    (htexts : ∀ v ∈ arguments, texts' (c.value v) = texts v) :
    (arguments.map c.value).mapM texts' = arguments.mapM texts :=
  mapM_map_eq htexts

/-- A call of `print` is noted as it was. -/
theorem carries_notePrinting (hs : s.store.Sealed g) (hf : c.Fits s.store) (stack : Stack)
    (levels : Nat) (hv : ∀ v ∈ arguments, s.store.Public v) (ht : ∀ v ∈ arguments, c.Takes v) :
    c.Carries g s (notePrinting stack levels arguments) id
      (notePrinting stack levels (arguments.map c.value)) fun _ _ => True := by
  unfold notePrinting
  split
  · refine (carries_reserve hs hf _ _).bind fun _ t hrun _ hts hft _ => ?_
    obtain ⟨rfl, -⟩ := Eval.cases_of_runIn_reserve hrun
    refine .store_bind ?_
    rw [mapM_texts fun v hmem => describe_value hts hft (hv v hmem) (ht v hmem) stack.text _]
    split
    · exact carries_note hts hft _
    · exact .pure hts hft trivial
    · exact carries_tooDeep hts hft
  · exact .pure hs hf trivial

/-- The same line is printed. -/
theorem carries_printLine (hs : s.store.Sealed g) (hf : c.Fits s.store) (stack : Stack)
    (levels : Nat) (hv : ∀ v ∈ arguments, s.store.Public v) (ht : ∀ v ∈ arguments, c.Takes v) :
    c.Carries g s (printLine stack levels arguments) c.value
      (printLine stack levels (arguments.map c.value)) fun t v => t.Public v ∧ c.Takes v := by
  refine .store_bind ?_
  have hprinted : c.Carries g s
      (arguments.mapM fun v =>
        Eval.written (s.store.printed stack.text (levels - stack.above .print) v)) (List.map id)
      ((arguments.map c.value).mapM fun v =>
        Eval.written ((c.store s.store).printed stack.text (levels - stack.above .print) v))
      fun _ bs => ∀ b ∈ bs, True := by
    refine .mapM (fun _ _ _ _ _ => trivial) hs hf fun v hmem t _ hts hft => ?_
    rw [printed_value hs hf (hv v hmem) (ht v hmem)]
    exact carries_written hts hft _
  rw [List.map_id_fun] at hprinted
  refine hprinted.bind fun printed t _ _ hts hft _ => ?_
  refine (carries_write hts hft _).bind fun _ u _ _ hu hfu _ => ?_
  exact .pure hu hfu ⟨trivial, c.takes_of_plain trivial⟩

/-- A built-in function. -/
theorem carries_builtin (hs : s.store.Sealed g) (hf : c.Fits s.store) (stack : Stack)
    (levels : Nat) (b : Builtin) (hv : ∀ v ∈ arguments, s.store.Public v)
    (ht : ∀ v ∈ arguments, c.Takes v) :
    c.Carries g s (b.apply stack levels arguments) c.value
      (b.apply stack levels (arguments.map c.value)) fun t v => t.Public v ∧ c.Takes v := by
  cases b with
  | print =>
      refine (carries_reserve hs hf _ _).bind fun _ t _ hst hts hft _ => ?_
      have hvt := fun v hmem => (hv v hmem).mono hst
      refine (carries_notePrinting hts hft stack levels hvt ht).bind fun _ u _ htu hu hfu _ => ?_
      exact carries_printLine hu hfu stack levels (fun v hmem => (hvt v hmem).mono htu) ht
  | operator op =>
      rw [Builtin.apply, Builtin.apply, applyTo_values op ht,
        operation_values stack op ht]
      refine (carries_reserve hs hf _ _).bind fun _ t _ _ hts hft _ => ?_
      cases ha : op.applyTo arguments with
      | error x => exact .fault hts hft x
      | ok v =>
          obtain ⟨n, rfl⟩ : ∃ n, v = .integer n := by
            rcases arguments with _ | ⟨v, _ | ⟨w, rest⟩⟩
            · cases ha
            · cases ha
            · exact Operator.exists_integer_of_apply ha
          exact .pure hts hft ⟨trivial, c.takes_of_plain trivial⟩

end

/-- The names that a call sets stand for values that are carried over. -/
theorem names_value (c : Carrier) (i : Invocation) (parameters : List String) :
    (i.names parameters).map (Prod.map id c.value) =
      ("this", c.value i.receiver) :: parameters.zip (i.arguments.map c.value) := by
  rw [Invocation.names, List.map_cons, List.zip_map_right]
  rfl

/-- A frame holds no node if no argument is one. -/
theorem Fits.enter {i : Invocation} (hf : c.Fits i.session.store) (hr : c.Takes i.receiver)
    (ha : ∀ v ∈ i.arguments, c.Takes v) (home : Ref) (parameters : List String) :
    c.Fits (i.session.enter home (i.names parameters)).store := by
  intro hk
  have hadded : (i.session.store.add (.frame home)).Nodeless := (hf hk).add_passive rfl rfl
  refine hadded.putAll _ (List.forall_mem_cons.mpr ⟨hr hk, ?_⟩)
  exact fun p hp => ha p.2 (List.of_mem_zip hp).2 hk

/-- A call of an object. -/
theorem carries_call (heval : c.Follows g eval eval') {i : Invocation} (hi : i.Proper g)
    (hf : c.Fits i.session.store) (hr : c.Takes i.receiver) (ha : ∀ v ∈ i.arguments, c.Takes v) :
    c.Carries g i.session (call eval i.function i.receiver i.arguments) c.value
      (call eval' (c.ref i.function) (c.value i.receiver) (i.arguments.map c.value))
      fun t v => t.Public v ∧ c.Takes v := by
  have hmistake : c.Carries g i.session _ c.value _ fun t v => t.Public v ∧ c.Takes v :=
    carries_mistake_shown heval hi.sealed hf .callee hi.function (c.takes_object _) .notAFunction
  refine .store_bind ?_
  rw [object?_store]
  rcases ho : i.session.store.object? i.function with _ | ⟨name, parent, _ | a, entries⟩
  · exact hmistake
  · exact hmistake
  have haction : i.session.store.action? i.function = some a := by
    rw [Store.action?, ho]
    rfl
  cases a with
  | builtin b =>
      dsimp only [Option.map_some, object, action]
      rw [heval.stack, heval.levels]
      exact carries_builtin hi.sealed hf _ _ b hi.arguments ha
  | constant v =>
      exact .pure hi.sealed hf
        ⟨(hi.sealed.holds _ _ ho).constant v rfl, fun hk => (hf hk).constant _ v haction⟩
  | closure parameters body home =>
      dsimp only [Option.map_some, object, action]
      rw [List.length_map]
      split
      next hlength =>
        have he : i.Enters parameters body home := ⟨haction, hlength⟩
        have hfits := hf.enter hr ha home parameters
        have hentered := heval.parts .body false _ (hi.body he) hfits fun hk =>
          (hf hk).closure _ _ _ _ haction
        have hbody := (hentered.imp fun _ _ _ hx => ⟨hx.1, hx.2 rfl⟩).catchReturn
        refine hbody.of_runIn_eq rfl ?_ ((Store.grows_add _ _).trans (Store.grows_putAll _ _ _))
        rw [session_enter, names_value, ← fresh_store]
        rfl
      next => exact .mistake hi.sealed hf _

/-! ### The rule of a node -/

/-- A part of a node that is no statement of a block. -/
theorem carries_part (heval : c.Follows g eval eval') (role : Role)
    {n : Node} (hn : n.Plain) (htidy : c.keeps = false → n.Tidy false) (hs : s.store.Sealed g)
    (hc : c.Fits s.store) (hf : s.store.IsFrame frame) :
    c.Carries g s (eval role n frame) c.value (eval' role (c.node n) (c.ref frame))
      fun t v => t.Public v ∧ c.Takes v :=
  (heval.parts role false ⟨n, frame, s⟩ ⟨hn, hs, hf⟩ hc htidy).imp fun _ _ _ h => ⟨h.1, h.2 rfl⟩

/-- The statements of a block. -/
theorem carries_runStatements (heval : c.Follows g eval eval')
    {statements : List Node} (hn : ∀ n ∈ statements, n.Plain)
    (htidy : c.keeps = false → ∀ n ∈ statements, n.Tidy true) (hs : s.store.Sealed g)
    (hc : c.Fits s.store) (hf : s.store.IsFrame frame) :
    c.Carries g s (runStatements eval statements frame) id
      (runStatements eval' (statements.map c.node) (c.ref frame)) fun _ _ => True := by
  refine .forM hs hc fun n hmem t hst ht hct => ?_
  have hstatement := heval.parts .statement true ⟨n, frame, t⟩ ⟨hn n hmem, ht, hf.mono hst⟩ hct
  exact (hstatement fun hk => htidy hk n hmem).discard

/-- The arguments of a call. -/
theorem carries_runArguments (heval : c.Follows g eval eval')
    {arguments : List Node} (hn : ∀ n ∈ arguments, n.Plain)
    (htidy : c.keeps = false → ∀ n ∈ arguments, n.Tidy false) (hs : s.store.Sealed g)
    (hc : c.Fits s.store) (hf : s.store.IsFrame frame) :
    c.Carries g s (runArguments eval arguments frame) (List.map c.value)
      (runArguments eval' (arguments.map c.node) (c.ref frame))
      fun t values => ∀ v ∈ values, t.Public v ∧ c.Takes v :=
  .mapM (fun _ _ _ htu hv => ⟨hv.1.mono htu, hv.2⟩) hs hc fun n hmem _ hst ht hct =>
    carries_part heval .argument (hn n hmem) (fun hk => htidy hk n hmem) ht hct (hf.mono hst)

/-- The entries of an object literal. -/
theorem carries_runEntries (heval : c.Follows g eval eval')
    {entries : List (String × Node)} (hn : ∀ e ∈ entries, e.2.Plain)
    (htidy : c.keeps = false → ∀ e ∈ entries, e.2.Tidy false) (object : Ref)
    (hs : s.store.Sealed g) (hc : c.Fits s.store) (hf : s.store.IsFrame frame) :
    c.Carries g s (runEntries eval entries object frame) id
      (runEntries eval' (entries.map (Prod.map id c.node)) (c.ref object) (c.ref frame))
      fun _ _ => True := by
  refine .forM hs hc fun e hmem t hst ht hct => ?_
  have hentry := carries_part heval .operand (hn e hmem) (fun hk => htidy hk e hmem) ht hct
    (hf.mono hst)
  exact hentry.bind fun v u _ _ hu hcu hv => .put hu hcu object e.1 hv.1 hv.2

/-- The object that a part of a node is required to be. -/
theorem carries_object (heval : c.Follows g eval eval') {n : Node}
    (hn : n.Plain) (htidy : c.keeps = false → n.Tidy false) (hs : s.store.Sealed g)
    (hc : c.Fits s.store) (hf : s.store.IsFrame frame) (purpose : String) :
    c.Carries g s (eval .operand n frame >>= requireObject eval purpose) c.ref
      (eval' .operand (c.node n) (c.ref frame) >>= requireObject eval' purpose)
      fun t r => t.Public (.object r) :=
  (carries_part heval .operand hn htidy hs hc hf).bind fun _ _ _ _ ht hct hv =>
    carries_requireObject heval ht hct purpose hv.1 hv.2

/-- The function that a part of a node is required to be. -/
theorem carries_function (heval : c.Follows g eval eval') {n : Node}
    (hn : n.Plain) (htidy : c.keeps = false → n.Tidy false) (hs : s.store.Sealed g)
    (hc : c.Fits s.store) (hf : s.store.IsFrame frame) :
    c.Carries g s (eval .operand n frame >>= requireFunction eval) c.ref
      (eval' .operand (c.node n) (c.ref frame) >>= requireFunction eval')
      fun t r => t.Public (.object r) :=
  (carries_part heval .operand hn htidy hs hc hf).bind fun _ _ _ _ ht hct hv =>
    carries_requireFunction heval ht hct hv.1 hv.2

/-- The rest of a call when it is known what is called. -/
theorem carries_invoke (heval : c.Follows g eval eval')
    {arguments : List Node} (hn : ∀ n ∈ arguments, n.Plain)
    (htidy : c.keeps = false → ∀ n ∈ arguments, n.Tidy false) (hs : s.store.Sealed g)
    (hc : c.Fits s.store) (hf : s.store.IsFrame frame) {f : Ref} {receiver : Value}
    (hfunction : s.store.Public (.object f)) (hreceiver : s.store.Public receiver)
    (htakes : c.Takes receiver) :
    c.Carries g s (runArguments eval arguments frame >>= invoke eval f receiver) c.value
      (runArguments eval' (arguments.map c.node) (c.ref frame) >>=
        invoke eval' (c.ref f) (c.value receiver))
      fun t v => t.Public v ∧ c.Takes v := by
  have harguments := carries_runArguments heval hn htidy hs hc hf
  refine harguments.bind fun values t _ hst ht hct hvalues => ?_
  have hi : Invocation.Proper g ⟨f, receiver, values, t⟩ :=
    ⟨ht, hfunction.mono hst, hreceiver.mono hst, fun v hv => (hvalues v hv).1⟩
  have hroom : eval'.admits (c.store t.store) (c.ref f) = eval.admits t.store f := by
    rw [Evaluator.admits, Evaluator.admits, action?_store, heval.stack, heval.levels]
    cases t.store.action? f with
    | none => rfl
    | some a => cases a <;> rfl
  refine .store_bind ?_
  rw [hroom]
  split
  · exact carries_call heval hi hct htakes fun v hv => (hvalues v hv).2
  · exact carries_tooDeep ht hct

/-- A function is made, and set under its name if it has one. -/
theorem carries_makeFunction {name : Option String} {parameters : List String} {body : Node}
    {line : Int} (hb : body.Plain) (htidy : c.keeps = false → body.Tidy false)
    (hs : s.store.Sealed g) (hc : c.Fits s.store) (hf : s.store.IsFrame frame) :
    c.Carries g s (evaluateWith eval (.function name parameters body line) frame) c.value
      (evaluateWith eval' (c.node (.function name parameters body line)) (c.ref frame))
      fun t v => t.Public v ∧ c.Takes v := by
  let made : Object := .function (name.getD anonymousName) (.closure parameters body frame)
  let names := name.toList.map fun name => (name, Value.object s.store.fresh)
  let after : Session := { s with store := (s.store.add made).putAll frame names }
  have hrun : (evaluateWith eval (.function name parameters body line) frame).runIn s =
      (.ok (.object s.store.fresh), after) := rfl
  have hseals : (evaluateWith eval (.function name parameters body line) frame).Seals g s
      Store.Public := seals_makeFunction hb hs hf
  obtain ⟨hgrows, hsealed, hpublic⟩ := hseals.of_ok hrun
  have hfits : c.Fits after.store := by
    intro hk
    refine Store.Nodeless.putAll ((hc hk).add rfl ?_ ?_) frame ?_
    · rintro _ _ _ ⟨⟩
      exact htidy hk
    · rintro _ ⟨⟩
    · intro p hp
      obtain ⟨_, -, rfl⟩ := List.mem_map.mp hp
      exact Value.nodeless_object _
  have hresult : c.Carries g after (pure (.object s.store.fresh)) c.value
      (pure (.object (c.ref s.store.fresh))) fun t v => t.Public v ∧ c.Takes v :=
    .pure hsealed hfits ⟨hpublic, c.takes_object _⟩
  refine hresult.of_runIn_eq hrun ?_ hgrows
  have hnames : names.map (Prod.map id c.value) =
      name.toList.map fun name => (name, Value.object (c.ref s.store.fresh)) := by
    simp only [names, List.map_map]
    rfl
  have hafter : c.session after = { c.session s with
      store := ((c.store s.store).add (c.object made)).putAll (c.ref frame)
        (name.toList.map fun name => (name, Value.object (c.store s.store).fresh)) } := by
    rw [session, store_putAll, store_add, hnames, ← fresh_store]
    rfl
  rw [hafter, ← fresh_store]
  rfl

/-- The end of making a record: it is set under `this`. -/
def closeRecord (record : Ref) : Eval Value := do
  Eval.put record "this" (.object record)
  return .object record

/-- The end of an object literal. -/
theorem carries_closeRecord (hs : s.store.Sealed g) (hc : c.Fits s.store) {r : Ref}
    (hr : s.store.Public (.object r)) :
    c.Carries g s (closeRecord r) c.value (closeRecord (c.ref r))
      fun t v => t.Public v ∧ c.Takes v :=
  (Carries.put hs hc r "this" hr (c.takes_object r)).bind fun _ _ _ hst ht hct _ =>
    .pure ht hct ⟨hr.mono hst, c.takes_object r⟩

/-- A record is made, filled with its entries and set under `this`. -/
theorem carries_makeRecord (heval : c.Follows g eval eval')
    {entries : List (String × Node)} {line : Int} (hn : ∀ e ∈ entries, e.2.Plain)
    (htidy : c.keeps = false → ∀ e ∈ entries, e.2.Tidy false)
    (hs : s.store.Sealed g) (hc : c.Fits s.store) (hf : s.store.IsFrame frame) :
    c.Carries g s (evaluateWith eval (.record entries line) frame) c.value
      (evaluateWith eval' (c.node (.record entries line)) (c.ref frame))
      fun t v => t.Public v ∧ c.Takes v := by
  have hadded : (s.add (.record none)).store.Sealed g := hs.add_record
  have hgrows := s.store.grows_add (.record none)
  have hpublic : (s.add (.record none)).store.Public (.object s.store.fresh) :=
    s.store.public_fresh rfl
  have hfits : c.Fits (s.add (.record none)).store := fun hk => (hc hk).add_passive rfl rfl
  have hfilled := carries_runEntries heval hn htidy s.store.fresh hadded hfits (hf.mono hgrows)
  have hmade : c.Carries g (s.add (.record none))
      (do runEntries eval entries s.store.fresh frame; closeRecord s.store.fresh) c.value
      (do
        runEntries eval' (entries.map (Prod.map id c.node)) (c.ref s.store.fresh) (c.ref frame)
        closeRecord (c.ref s.store.fresh))
      fun t v => t.Public v ∧ c.Takes v :=
    hfilled.bind fun _ _ _ hst ht hct _ => carries_closeRecord ht hct (hpublic.mono hst)
  refine hmade.of_runIn_eq rfl ?_ hgrows
  rw [session_add, ← fresh_store]
  simp only [node, Node.relined, Node.relinedEntries_eq_map]
  rfl

/-- The rule of a node, if it holds of its parts. -/
theorem carried_evaluateWith (heval : c.Follows g eval eval') :
    c.Carried g (evaluateWith eval) (evaluateWith eval') := by
  rintro b ⟨node, frame, s⟩ ⟨hplain, hs, hf⟩ hc htidy
  have operand {n : Node} (hn : n.Plain) (ht : c.keeps = false → n.Tidy false) :=
    carries_part heval .operand hn ht hs hc hf
  -- Only what sets a field has a value that may be a node.
  have settle {e e' : Eval Value}
      (h : c.Carries g s e c.value e' fun t v => t.Public v ∧ c.Takes v) :
      c.Carries g s e c.value e' fun t v => t.Public v ∧ (b = false → c.Takes v) :=
    h.imp fun _ _ _ hv => ⟨hv.1, fun _ => hv.2⟩
  cases hplain with
  | block hn =>
      have htidy' := fun hk => (htidy hk).of_block
      rw [node, Node.relined, Node.relinedAll_eq_map]
      refine settle ((carries_runStatements heval hn htidy' hs hc hf).bind ?_)
      exact fun _ _ _ _ ht hct _ => .pure ht hct ⟨trivial, c.takes_of_plain trivial⟩
  | @literal v serial line hv =>
      have hresult : c.Carries g s (pure v) c.value (pure (c.value v))
          fun t v => t.Public v ∧ c.Takes v :=
        .pure hs hc ⟨Store.public_of_plain hv, c.takes_of_plain hv⟩
      rw [c.value_of_plain hv] at hresult
      exact settle hresult
  | call hn ha =>
      have htidyCallee := fun hk => (htidy hk).of_call.1
      have htidyArguments := fun hk => (htidy hk).of_call.2
      rw [node, Node.relined, Node.relinedAll_eq_map, evaluateWith, ← bind_assoc, evaluateWith,
        ← bind_assoc]
      refine settle ((carries_function heval hn htidyCallee hs hc hf).bind ?_)
      intro f t _ hst ht hct hfunction
      exact carries_invoke heval ha htidyArguments ht hct (hf.mono hst) hfunction trivial
        (c.takes_of_plain trivial)
  | name => exact settle (.read hs hc hf.index_lt _)
  | assign hn =>
      have htidy' := fun hk => (htidy hk).of_assign
      rw [node, Node.relined]
      refine settle ((carries_requireUndefined heval hs hc _ hf _).bind ?_)
      intro _ t _ hst ht hct _
      refine (carries_part heval .operand hn htidy' ht hct (hf.mono hst)).bind ?_
      intro v u _ _ hu hcu hv
      exact (Carries.put hu hcu frame _ hv.1 hv.2).bind fun _ _ _ _ hw hcw _ =>
        .pure hw hcw ⟨trivial, c.takes_of_plain trivial⟩
  | function hn =>
      have htidy' := fun hk => (htidy hk).of_function
      exact settle (carries_makeFunction hn htidy' hs hc hf)
  | giveBack hn =>
      have hvalue := operand hn fun hk => (htidy hk).of_giveBack
      refine hvalue.bind fun v t _ _ ht hct hv => Carries.throw ht hct fun w hw => ?_
      obtain rfl := Exit.returned.inj hw
      exact hv
  | branch hn hq ha =>
      have hcondition := operand hn fun hk => (htidy hk).of_branch.1
      have htidyConsequence := fun hk => (htidy hk).of_branch.2.1
      have htidyAlternative := fun hk => (htidy hk).of_branch.2.2
      rw [node, Node.relined]
      refine settle (hcondition.bind fun v t _ hst ht hct hv => ?_)
      refine (carries_requireBoolean heval ht hct hv.1 hv.2).bind fun b u _ htu hu hcu _ => ?_
      have hfu := hf.mono (hst.trans htu)
      cases b with
      | true => exact carries_part heval .operand hq htidyConsequence hu hcu hfu
      | false => exact carries_part heval .operand ha htidyAlternative hu hcu hfu
  | record hn =>
      have htidy' := fun hk => (htidy hk).of_record
      exact settle (carries_makeRecord heval hn htidy' hs hc hf)
  | field hn =>
      have hreceiver := operand hn fun hk => (htidy hk).of_field
      rw [node, Node.relined]
      refine settle (hreceiver.bind fun v t _ _ ht hct hv => ?_)
      cases v with
      | object r => exact .read ht hct hv.1.index_lt _
      | undefined | integer | string | node => exact .pure ht hct hv
  | assignField hr hn =>
      have htidyReceiver := fun hk => (htidy hk).of_assignField.2.1
      have htidyValue := fun hk => (htidy hk).of_assignField.2.2
      rw [node, Node.relined, evaluateWith, ← bind_assoc, evaluateWith, ← bind_assoc]
      refine (carries_object heval hr htidyReceiver hs hc hf _).bind ?_
      intro object t _ hst ht hct hobject
      refine (carries_part heval .operand hn htidyValue ht hct (hf.mono hst)).bind ?_
      intro v u _ _ hu hcu hv
      refine (Carries.put hu hcu object _ hv.1 hv.2).bind fun _ _ _ _ hw hcw _ => ?_
      refine .pure hw hcw ⟨hr, ?_⟩
      rintro rfl hk
      exact absurd (htidy hk).of_assignField.1 Bool.false_ne_true
  | callMethod hr ha =>
      have htidyReceiver := fun hk => (htidy hk).of_callMethod.1
      have htidyArguments := fun hk => (htidy hk).of_callMethod.2
      rw [node, Node.relined, Node.relinedAll_eq_map, evaluateWith, ← bind_assoc, evaluateWith,
        ← bind_assoc]
      refine settle ((carries_object heval hr htidyReceiver hs hc hf _).bind ?_)
      intro object t _ hst ht hct hobject
      refine (carries_requireMethod heval ht hct hobject _).bind ?_
      intro f u _ htu hu hcu hfunction
      exact carries_invoke heval ha htidyArguments hu hcu (hf.mono (hst.trans htu)) hfunction
        (hobject.mono htu) (c.takes_object object)

/-- An evaluation, however deep it may nest. -/
theorem carried_evaluateSpaced (stack : Stack) (levels gap : Nat) :
    c.Carried g (evaluateSpaced stack levels gap) (evaluateSpaced stack levels gap) := by
  induction levels generalizing gap with
  | zero => exact fun b v hv hc _ => carries_tooDeep hv.sealed hc
  | succ levels ih =>
      intro b v hv hc htidy
      cases gap with
      | succ gap => exact ih gap b v hv hc htidy
      | zero =>
          have hparts : c.Follows g (evaluateParts stack levels) (evaluateParts stack levels) :=
            ⟨rfl, rfl, fun role => ih (stack.part role)⟩
          have hkind : (c.node v.node).kind = v.node.kind := Node.kind_relined _ _
          rw [evaluateSpaced, evaluateSpaced, hkind]
          split
          · have hrule := (carried_evaluateWith hparts b v hv hc htidy).onLine v.node.line
            rw [← Node.line_relined c.line v.node] at hrule
            exact hrule
          · exact carries_tooDeep hv.sealed hc

/-! ### Runs of a program -/

/-- A global frame comes behind what is there already. -/
theorem store_addGlobal (c : Carrier) (s : Store) :
    c.store s.addGlobal = (c.store s).addGlobal := by
  have hopened : c.store ((s.add (.frame none)).put s.fresh "global" (.object s.fresh)) =
      ((c.store s).add (.frame none)).put (c.store s).fresh "global"
        (.object (c.store s).fresh) := by
    rw [store_put, store_add, fresh_store]
    rfl
  rw [Store.addGlobal, Store.addGlobal, ← hopened]
  refine (List.foldl_hom c.store fun t b => ?_).symm
  rw [store_put, store_add, fresh_store, fresh_store]
  rfl

/-- A global frame is opened in the session in which nothing has been done. -/
theorem carries_openGlobal (c : Carrier) :
    c.Carries Store.empty.fresh .empty openGlobal c.ref openGlobal fun t r => t.IsFrame r where
  seals := by
    refine ⟨nofun, Store.sealed_addGlobal, ?_, nofun⟩
    intro r hr
    obtain rfl := Except.ok.inj hr
    exact Store.sealed_addGlobal.isFrame
  run := by
    have hopened : openGlobal.runIn (c.session .empty) = (.ok (c.store .empty).fresh,
      { c.session .empty with store := (c.store .empty).addGlobal }) := rfl
    rw [hopened, fresh_store, ← store_addGlobal]
    rfl
  fits := fun _ => Store.nodeless_empty.addGlobal
  exit := nofun

/-- A whole run. -/
theorem carries_inOwnGlobal {b : Bool} {program : Node} (hp : program.Plain)
    (htidy : c.keeps = false → program.Tidy b) (stack : Stack) (levels : Nat) :
    c.Carries Store.empty.fresh .empty (inOwnGlobal stack levels program) id
      (inOwnGlobal stack levels (c.node program)) fun _ _ => True := by
  have hlength : (c.node program).statements.length = program.statements.length := by
    cases program with
    | block statements line =>
        rw [node, Node.relined, Node.relinedAll_eq_map]
        exact List.length_map _
    | _ => rfl
  rw [inOwnGlobal, inOwnGlobal, hlength]
  refine c.carries_openGlobal.bind fun r s _ _ hs hc hr => ?_
  refine (carries_note hs hc _).bind fun _ t _ hst ht hct _ => ?_
  have hevaluated := carried_evaluateSpaced stack levels 0 b ⟨program, r, t⟩
    ⟨hp, ht, hr.mono hst⟩ hct htidy
  exact hevaluated.refuseReturn.discard.bind fun _ u _ _ hu hcu _ => carries_note hu hcu _

end Scriptlet.Carrier
