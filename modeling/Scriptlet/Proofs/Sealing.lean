import Scriptlet.Proofs.Division
import Scriptlet.Proofs.Moment
import Scriptlet.Proofs.Sealed

/-!
# Evaluations Keep Stores Sealed

An evaluation that begins in a sealed store, on a plain node and in a frame, leaves the store
sealed however it ends, and whatever it hands over a script may get hold of: its value, and the
value of a `return` on its way out.

This is said of single steps first, then of sequences, then of the rule of a node under the
assumption that it holds of its parts. The levels of evaluation tie the knot.

## Main definitions

* `Eval.Seals`: what an evaluation does to a sealed store.
* `Visit.Proper`: the visits that are assumed, and shown, to do so.

## Main results

* `Eval.Seals.bind`: one evaluation after another.
* `seals_call`: a call.
* `seals_evaluateWith`: the rule of a node.
* `seals_evaluateSpaced`: an evaluation.
-/

namespace Scriptlet

namespace Eval

/-- What an evaluation does that begins in a session with a sealed store. -/
structure Seals {α : Type} (e : Eval α) (g : Ref) (s : Session) (P : Store → α → Prop) : Prop where
  grows : s.store.Grows (e.runIn s).2.store
  sealed : (e.runIn s).2.store.Sealed g
  result : ∀ a, (e.runIn s).1 = .ok a → P (e.runIn s).2.store a
  exit : ∀ v, (e.runIn s).1 = .error (.returned v) → (e.runIn s).2.store.Public v

namespace Seals

variable {α β : Type} {g : Ref} {s t : Session} {e : Eval α} {P Q : Store → α → Prop}

/-- What holds after an evaluation that has a result. -/
theorem of_ok (h : e.Seals g s P) {a : α} (he : e.runIn s = (.ok a, t)) :
    s.store.Grows t.store ∧ t.store.Sealed g ∧ P t.store a := by
  obtain ⟨hgrows, hsealed, hresult, -⟩ := h
  rw [he] at hgrows hsealed hresult
  exact ⟨hgrows, hsealed, hresult a rfl⟩

/-- An evaluation that goes on as another one does from a later session. -/
theorem of_runIn_eq {e' : Eval α} (h : e'.Seals g t P) (he : e.runIn s = e'.runIn t)
    (hg : s.store.Grows t.store) : e.Seals g s P := by
  obtain ⟨hgrows, hsealed, hresult, hexit⟩ := h
  refine ⟨?_, ?_, ?_, ?_⟩
  · rw [he]
    exact hg.trans hgrows
  · rw [he]
    exact hsealed
  · rw [he]
    exact hresult
  · rw [he]
    exact hexit

/-- What is known of the result may be less. -/
theorem imp (h : e.Seals g s P) (hPQ : ∀ t a, s.store.Grows t → P t a → Q t a) :
    e.Seals g s Q :=
  ⟨h.grows, h.sealed, fun a ha => hPQ _ a h.grows (h.result a ha), h.exit⟩

/-! #### Steps -/

/-- A value that is known before. -/
theorem pure (hs : s.store.Sealed g) {a : α} (ha : P s.store a) :
    (Pure.pure a : Eval α).Seals g s P where
  grows := .refl _
  sealed := hs
  result := fun b hb => by
    obtain rfl := Except.ok.inj hb
    exact ha
  exit := nofun

/-- Leaving early. -/
theorem throw (hs : s.store.Sealed g) {x : Exit}
    (hx : ∀ v, x = .returned v → s.store.Public v) :
    (MonadExcept.throw x : Eval α).Seals g s P where
  grows := .refl _
  sealed := hs
  result := nofun
  exit := fun v hv => hx v (Except.error.inj hv)

/-- Being cut off leaves the session as it is. -/
theorem tooDeep (hs : s.store.Sealed g) : (MonadExcept.throw .tooDeep : Eval α).Seals g s P :=
  throw hs nofun

/-- So does a mistake. -/
theorem mistake (hs : s.store.Sealed g) (m : Mistake) : (Eval.mistake m : Eval α).Seals g s P :=
  throw hs nofun

/-- So does a fault. -/
theorem fault (hs : s.store.Sealed g) (f : Fault) : (Eval.fault f : Eval α).Seals g s P :=
  throw hs nofun

/-- Reserving levels changes nothing. -/
theorem reserve (hs : s.store.Sealed g) (levels need : Nat) :
    (Eval.reserve levels need).Seals g s fun _ _ => True := by
  unfold Eval.reserve
  split
  · exact pure hs trivial
  · exact tooDeep hs

/-- What a name reads as is public. -/
theorem read (hs : s.store.Sealed g) (r : Ref) (name : String) :
    (Eval.read r name).Seals g s Store.Public :=
  (pure hs (hs.public_read r name)).of_runIn_eq rfl (.refl _)

/-- Setting a name to something public. -/
theorem put (hs : s.store.Sealed g) (r : Ref) (name : String) {v : Value}
    (hv : s.store.Public v) : (Eval.put r name v).Seals g s fun _ _ => True :=
  (pure (hs.put r name hv) trivial : (Pure.pure () : Eval Unit).Seals g
    { s with store := s.store.put r name v } _).of_runIn_eq rfl (s.store.grows_put r name v)

/-- Whatever leaves the objects alone. -/
theorem of_store_eq (hs : s.store.Sealed g) {e : Eval Unit}
    (he : e.runIn s = (.ok (), t)) (ht : t.store = s.store) : e.Seals g s fun _ _ => True := by
  refine (pure (ht ▸ hs) trivial).of_runIn_eq he ?_
  rw [ht]
  exact .refl _

/-- Noting an event. -/
theorem note (hs : s.store.Sealed g) (event : Event) :
    (Eval.note event).Seals g s fun _ _ => True :=
  of_store_eq hs (runIn_note event s) rfl

/-- Printing a text. -/
theorem write (hs : s.store.Sealed g) (text : String) :
    (Eval.write text).Seals g s fun _ _ => True :=
  of_store_eq hs (runIn_write text s) rfl

/-- Looking at the objects. -/
theorem store_bind {f : Store → Eval α} (h : (f s.store).Seals g s P) :
    (Eval.store >>= f).Seals g s P :=
  h.of_runIn_eq rfl (.refl _)

/-! #### Sequences -/

/-- One evaluation after another. -/
theorem bind {f : α → Eval β} {Q : Store → β → Prop} (he : e.Seals g s P)
    (hf : ∀ a t, e.runIn s = (.ok a, t) → s.store.Grows t.store → t.store.Sealed g →
      P t.store a → (f a).Seals g t Q) : (e >>= f).Seals g s Q := by
  rcases h : e.runIn s with ⟨x | a, t⟩
  · have hrun : (e >>= f).runIn s = (MonadExcept.throw x : Eval β).runIn t := by
      rw [runIn_bind, h]
      rfl
    obtain ⟨hgrows, hsealed, -, hexit⟩ := he
    rw [h] at hgrows hsealed hexit
    exact (throw hsealed fun v hx => hexit v (by rw [hx])).of_runIn_eq hrun hgrows
  · obtain ⟨hgrows, hsealed, ha⟩ := he.of_ok h
    exact (hf a t h hgrows hsealed ha).of_runIn_eq (runIn_bind_of_ok h f) hgrows

/-- A result that is thrown away. -/
theorem discard (he : e.Seals g s P) : (discard e).Seals g s fun _ _ => True :=
  he.bind fun _ _ _ _ ht _ => pure ht trivial

/-- A list of evaluations, whose results stay what they are. -/
theorem mapM {f : α → Eval β} {Q : Store → β → Prop}
    (hQ : ∀ t u b, t.Grows u → Q t b → Q u b) {as : List α} (hs : s.store.Sealed g)
    (hf : ∀ a ∈ as, ∀ t, s.store.Grows t.store → t.store.Sealed g → (f a).Seals g t Q) :
    (as.mapM f).Seals g s fun t bs => ∀ b ∈ bs, Q t b := by
  induction as generalizing s with
  | nil => exact pure hs nofun
  | cons a rest ih =>
      rw [List.mapM_cons]
      refine (hf a List.mem_cons_self s (.refl _) hs).bind fun b t _ hst ht hb => ?_
      have hrest := ih ht fun a' ha' u htu hu =>
        hf a' (List.mem_cons_of_mem _ ha') u (hst.trans htu) hu
      refine hrest.bind fun bs u _ htu hu hbs => pure hu fun b' hb' => ?_
      rcases List.mem_cons.mp hb' with rfl | hb'
      · exact hQ t.store u.store b' htu hb
      · exact hbs b' hb'

/-- A row of evaluations, each from where the one before has ended. -/
theorem forM {f : α → Eval Unit} {as : List α} (hs : s.store.Sealed g)
    (hf : ∀ a ∈ as, ∀ t, s.store.Grows t.store → t.store.Sealed g →
      (f a).Seals g t fun _ _ => True) :
    (as.forM f).Seals g s fun _ _ => True := by
  induction as generalizing s with
  | nil => exact pure hs trivial
  | cons a rest ih =>
      show (f a >>= fun _ => rest.forM f).Seals g s _
      refine (hf a List.mem_cons_self s (.refl _) hs).bind fun _ t _ hst ht _ => ?_
      exact ih ht fun a' ha' u htu hu => hf a' (List.mem_cons_of_mem _ ha') u (hst.trans htu) hu

/-! #### Exits that are caught -/

/-- An exit that is caught. -/
theorem tryCatch {handler : Exit → Eval α} (he : e.Seals g s P)
    (hx : ∀ x t, s.store.Grows t.store → t.store.Sealed g →
      (∀ v, x = .returned v → t.store.Public v) → (handler x).Seals g t P) :
    (MonadExcept.tryCatch e handler).Seals g s P := by
  have hrun := runIn_tryCatch e handler s
  rcases h : e.runIn s with ⟨x | a, t⟩
  · obtain ⟨hgrows, hsealed, -, hexit⟩ := he
    rw [h] at hrun hgrows hsealed hexit
    exact (hx x t hgrows hsealed fun v hv => hexit v (by rw [hv])).of_runIn_eq hrun hgrows
  · obtain ⟨hgrows, hsealed, ha⟩ := he.of_ok h
    rw [h] at hrun
    exact (pure hsealed ha).of_runIn_eq hrun hgrows

/-- A mistake may get a line. -/
theorem onLine (h : e.Seals g s P) (line : Int) : (Eval.onLine line e).Seals g s P := by
  refine h.tryCatch fun x t _ ht hx => ?_
  cases x with
  | mistake m l =>
      cases l with
      | none => exact throw ht nofun
      | some l => exact throw ht nofun
  | returned v => exact throw ht hx
  | fault f => exact throw ht nofun
  | tooDeep => exact tooDeep ht

/-- The value of a `return` is public, so it may become the result. -/
theorem catchReturn {e : Eval Value} (h : e.Seals g s Store.Public) :
    (Eval.catchReturn e).Seals g s Store.Public := by
  refine h.tryCatch fun x t _ ht hx => ?_
  cases x with
  | returned v => exact pure ht (hx v rfl)
  | mistake m l => exact throw ht nofun
  | fault f => exact throw ht nofun
  | tooDeep => exact tooDeep ht

end Seals

end Eval

section

variable {eval : Evaluator} {g : Ref} {s : Session}

/-! ### What is required of values -/

/-- A text that there may be none of. -/
theorem seals_written (hs : s.store.Sealed g) (text : Except NoText String) :
    (Eval.written text).Seals g s fun _ _ => True := by
  rcases text with (_ | _) | text
  · exact .fault hs _
  · exact .tooDeep hs
  · exact .pure hs trivial

/-- A mistake that needs levels. -/
theorem seals_mistake {α : Type} {P : Store → α → Prop} (hs : s.store.Sealed g) (m : Mistake) :
    (eval.mistake m : Eval α).Seals g s P :=
  (Eval.Seals.reserve hs _ _).bind fun _ _ _ _ ht _ => .mistake ht m

/-- A mistake that shows a value. -/
theorem seals_mistake_shown {α : Type} {P : Store → α → Prop} (hs : s.store.Sealed g)
    (purpose : Purpose) (v : Value) (m : String → Mistake) :
    (eval.shown purpose v >>= fun shown => (eval.mistake (m shown) : Eval α)).Seals g s P :=
  Eval.Seals.bind (.store_bind (seals_written hs _)) fun _ _ _ _ ht _ => seals_mistake ht _

/-- A value that should be an object. -/
theorem seals_requireObject (hs : s.store.Sealed g) (purpose : String) {v : Value}
    (hv : s.store.Public v) :
    (requireObject eval purpose v).Seals g s fun t r => t.Public (.object r) := by
  cases v with
  | object r => exact .pure hs hv
  | undefined | integer | string | node =>
      exact seals_mistake_shown hs _ _ fun shown => .notAnObject shown purpose

/-- An object that is to be called, and that is a mistake if it cannot be. -/
theorem seals_callable (hs : s.store.Sealed g) {r : Ref} (hr : s.store.Public (.object r))
    {otherwise : Eval Ref}
    (ho : otherwise.Seals g s fun t f => t.Public (.object f)) :
    (Eval.store >>= fun store => match store.action? r with
      | some _ => pure r
      | none => otherwise : Eval Ref).Seals g s fun t f => t.Public (.object f) := by
  refine .store_bind ?_
  cases s.store.action? r with
  | none => exact ho
  | some a => exact .pure hs hr

/-- A value that should be a function. -/
theorem seals_requireFunction (hs : s.store.Sealed g) {v : Value} (hv : s.store.Public v) :
    (requireFunction eval v).Seals g s fun t f => t.Public (.object f) := by
  cases v with
  | object r => exact seals_callable hs hv (seals_mistake_shown hs _ _ .notAFunction)
  | undefined | integer | string | node => exact seals_mistake_shown hs _ _ .notAFunction

/-- A name that should be one of a method. -/
theorem seals_requireMethod (hs : s.store.Sealed g) (object : Ref) (name : String) :
    (requireMethod eval object name).Seals g s fun t f => t.Public (.object f) := by
  refine (Eval.Seals.read hs object name).bind fun v t _ _ ht hv => ?_
  cases v with
  | undefined => exact seals_mistake_shown ht _ _ fun shown => .noMethod shown name
  | object r => exact seals_callable ht hv (seals_mistake ht _)
  | integer | string | node => exact seals_mistake ht _

/-- A value that should be a condition. -/
theorem seals_requireBoolean (hs : s.store.Sealed g) (v : Value) :
    (requireBoolean eval v).Seals g s fun _ _ => True := by
  unfold requireBoolean
  split
  · exact .pure hs trivial
  · exact .pure hs trivial
  · exact seals_mistake_shown hs _ v .notABoolean

/-- A name that should be undefined. -/
theorem seals_requireUndefined (hs : s.store.Sealed g) (declares : Bool) (frame : Ref)
    (name : String) : (requireUndefined eval declares frame name).Seals g s fun _ _ => True := by
  refine (Eval.Seals.read hs frame name).bind fun v t _ _ ht _ => ?_
  split
  · exact .pure ht trivial
  · exact .pure ht trivial
  · exact seals_mistake ht _

/-! ### Calls -/

/-- An operator answers an integer. -/
theorem Operator.exists_integer_of_apply {op : Operator} {a b v : Value}
    (h : op.apply a b = .ok v) : ∃ n, v = .integer n := by
  cases op with
  | equal | unequal => exact ⟨_, (Except.ok.inj h).symm⟩
  | less | lessEqual | greater | greaterEqual =>
      rw [apply] at h
      rcases ho : order _ a b with f | o
      · rw [ho] at h
        cases h
      · rw [ho] at h
        exact ⟨_, (Except.ok.inj h).symm⟩
  | plus | minus | times =>
      rw [apply] at h
      rcases hi : integers _ a b with f | ⟨m, n⟩
      · rw [hi] at h
        cases h
      · rw [hi] at h
        exact ⟨_, (Except.ok.inj h).symm⟩
  | divide | remainder =>
      rw [apply] at h
      rcases hi : integers _ a b with f | ⟨m, n⟩
      · rw [hi] at h
        cases h
      · rw [hi] at h
        simp only [bind, Except.bind, Value.quotient_integer, Value.remainder_integer] at h
        split at h
        · cases h
        · exact ⟨_, (Except.ok.inj h).symm⟩

/-- A note of a call of `print`. -/
theorem seals_notePrinting (hs : s.store.Sealed g) (stack : Stack) (levels : Nat)
    (arguments : List Value) :
    (notePrinting stack levels arguments).Seals g s fun _ _ => True := by
  unfold notePrinting
  split
  · refine (Eval.Seals.reserve hs _ _).bind fun _ t _ _ ht _ => .store_bind ?_
    split
    · exact .note ht _
    · exact .pure ht trivial
    · exact .tooDeep ht
  · exact .pure hs trivial

/-- Printing a line. -/
theorem seals_printLine (hs : s.store.Sealed g) (stack : Stack) (levels : Nat)
    (arguments : List Value) : (printLine stack levels arguments).Seals g s Store.Public := by
  refine .store_bind ?_
  have hprinted := Eval.Seals.mapM (Q := fun _ _ => True) (fun _ _ _ _ _ => trivial) hs
    fun v (_ : v ∈ arguments) t _ ht =>
      seals_written ht (s.store.printed stack.text (levels - stack.above .print) v)
  refine hprinted.bind fun printed t _ _ ht _ => ?_
  exact (Eval.Seals.write ht _).bind fun _ u _ _ hu _ => .pure hu trivial

/-- A built-in function. -/
theorem seals_builtin (hs : s.store.Sealed g) (stack : Stack) (levels : Nat) (b : Builtin)
    (arguments : List Value) : (b.apply stack levels arguments).Seals g s Store.Public := by
  cases b with
  | print =>
      refine (Eval.Seals.reserve hs _ _).bind fun _ t _ _ ht _ => ?_
      refine (seals_notePrinting ht stack levels arguments).bind fun _ u _ _ hu _ => ?_
      exact seals_printLine hu stack levels arguments
  | operator op =>
      refine (Eval.Seals.reserve hs _ _).bind fun _ t _ _ ht _ => ?_
      cases h : op.applyTo arguments with
      | error f => exact .fault ht f
      | ok v =>
          refine .pure ht ?_
          match arguments, h with
          | a :: b :: _, h =>
              obtain ⟨n, rfl⟩ := Operator.exists_integer_of_apply h
              trivial

/-- What is assumed of a call. -/
structure Invocation.Proper (g : Ref) (i : Invocation) : Prop where
  sealed : i.session.store.Sealed g
  function : i.session.store.Public (.object i.function)
  receiver : i.session.store.Public i.receiver
  arguments : ∀ v ∈ i.arguments, i.session.store.Public v

/-- What is assumed of a visit. -/
structure Visit.Proper (g : Ref) (v : Visit) : Prop where
  plain : v.node.Plain
  sealed : v.session.store.Sealed g
  frame : v.session.store.IsFrame v.frame

/-- Whether an evaluation keeps every store sealed. -/
def KeepsSealed (g : Ref) (run : Node → Ref → Eval Value) : Prop :=
  ∀ v : Visit, v.Proper g → (run v.node v.frame).Seals g v.session Store.Public

/-- The names that a call sets stand for values that a script may get hold of. -/
theorem Invocation.Proper.names {i : Invocation} (hi : i.Proper g) (parameters : List String) :
    ∀ p ∈ i.names parameters, i.session.store.Public p.2 := by
  intro p hp
  rcases List.mem_cons.mp hp with rfl | hp
  · exact hi.receiver
  · exact hi.arguments p.2 (List.of_mem_zip hp).2

/-- The session in which a call has made its frame, some names of which may be missing. -/
theorem Invocation.Proper.sealed_enter {i : Invocation} (hi : i.Proper g)
    {parameters : List String} {body : Node} {home : Ref} (he : i.Enters parameters body home)
    {names : List (String × Value)} (hn : names <+: i.names parameters) :
    (i.session.enter home names).store.Sealed g := by
  obtain ⟨o, ho, ha⟩ := Option.bind_eq_some_iff.mp he.1
  obtain ⟨-, hhome, -⟩ := (hi.sealed.holds _ o ho).closure _ _ _ ha
  exact hi.sealed.enter hhome fun p hp => hi.names parameters p (hn.subset hp)

/-- A call enters the body of a function properly. -/
theorem Invocation.Proper.body {i : Invocation} (hi : i.Proper g) {parameters : List String}
    {body : Node} {home : Ref} (he : i.Enters parameters body home) :
    Visit.Proper g
      ⟨body, i.session.store.fresh, i.session.enter home (i.names parameters)⟩ where
  plain := by
    obtain ⟨o, ho, ha⟩ := Option.bind_eq_some_iff.mp he.1
    exact ((hi.sealed.holds _ o ho).closure _ _ _ ha).2.2
  sealed := hi.sealed_enter he List.prefix_rfl
  frame := Store.isFrame_enter _ _ _

/-- A call of an object. -/
theorem seals_call (heval : KeepsSealed g (eval .body)) {i : Invocation} (hi : i.Proper g) :
    (call eval i.function i.receiver i.arguments).Seals g i.session Store.Public := by
  refine .store_bind ?_
  rcases ho : i.session.store.object? i.function with _ | ⟨name, parent, _ | a, entries⟩
  · exact seals_mistake_shown hi.sealed _ _ .notAFunction
  · exact seals_mistake_shown hi.sealed _ _ .notAFunction
  cases a with
  | builtin b => exact seals_builtin hi.sealed _ _ b i.arguments
  | constant v => exact .pure hi.sealed ((hi.sealed.holds _ _ ho).constant v rfl)
  | closure parameters body home =>
      dsimp only
      split
      next hlength =>
        have he : i.Enters parameters body home := by
          refine ⟨?_, hlength⟩
          rw [Store.action?, ho]
          rfl
        have hbody := (heval _ (hi.body he)).catchReturn
        refine hbody.of_runIn_eq rfl ?_
        exact (Store.grows_add _ _).trans (Store.grows_putAll _ _ _)
      next => exact .mistake hi.sealed _

/-! ### The rule of a node -/

variable {frame : Ref}

/-- The statements of a block. -/
theorem seals_runStatements (heval : ∀ role, KeepsSealed g (eval role)) {statements : List Node}
    (hn : ∀ n ∈ statements, n.Plain) (hs : s.store.Sealed g) (hf : s.store.IsFrame frame) :
    (runStatements eval statements frame).Seals g s fun _ _ => True :=
  .forM hs fun n hmem t hst ht =>
    (heval .statement ⟨n, frame, t⟩ ⟨hn n hmem, ht, hf.mono hst⟩).discard

/-- The arguments of a call have public values. -/
theorem seals_runArguments (heval : ∀ role, KeepsSealed g (eval role)) {arguments : List Node}
    (hn : ∀ n ∈ arguments, n.Plain) (hs : s.store.Sealed g) (hf : s.store.IsFrame frame) :
    (runArguments eval arguments frame).Seals g s fun t values => ∀ v ∈ values, t.Public v :=
  .mapM (fun _ _ _ htu hv => hv.mono htu) hs fun n hmem t hst ht =>
    heval .argument ⟨n, frame, t⟩ ⟨hn n hmem, ht, hf.mono hst⟩

/-- The entries of an object literal. -/
theorem seals_runEntries (heval : ∀ role, KeepsSealed g (eval role))
    {entries : List (String × Node)} (hn : ∀ e ∈ entries, e.2.Plain) (object : Ref)
    (hs : s.store.Sealed g) (hf : s.store.IsFrame frame) :
    (runEntries eval entries object frame).Seals g s fun _ _ => True := by
  refine .forM hs fun e hmem t hst ht => ?_
  have hentry := heval .operand ⟨e.2, frame, t⟩ ⟨hn e hmem, ht, hf.mono hst⟩
  exact hentry.bind fun v u _ _ hu hv => .put hu object e.1 hv

/-- The object that a part of a node is required to be. -/
theorem seals_object (heval : ∀ role, KeepsSealed g (eval role)) {n : Node} (hn : n.Plain)
    (hs : s.store.Sealed g) (hf : s.store.IsFrame frame) (purpose : String) :
    (eval .operand n frame >>= requireObject eval purpose).Seals g s
      fun t r => t.Public (.object r) :=
  (heval .operand ⟨n, frame, s⟩ ⟨hn, hs, hf⟩).bind fun _ _ _ _ ht hv =>
    seals_requireObject ht purpose hv

/-- The function that a part of a node is required to be. -/
theorem seals_function (heval : ∀ role, KeepsSealed g (eval role)) {n : Node} (hn : n.Plain)
    (hs : s.store.Sealed g) (hf : s.store.IsFrame frame) :
    (eval .operand n frame >>= requireFunction eval).Seals g s fun t f => t.Public (.object f) :=
  (heval .operand ⟨n, frame, s⟩ ⟨hn, hs, hf⟩).bind fun _ _ _ _ ht hv => seals_requireFunction ht hv

/-- The rest of a call when it is known what is called. -/
theorem seals_invoke (heval : ∀ role, KeepsSealed g (eval role)) {arguments : List Node}
    (hn : ∀ n ∈ arguments, n.Plain) (hs : s.store.Sealed g) (hf : s.store.IsFrame frame) {f : Ref}
    {receiver : Value} (hfunction : s.store.Public (.object f))
    (hreceiver : s.store.Public receiver) :
    (runArguments eval arguments frame >>= invoke eval f receiver).Seals g s Store.Public := by
  refine (seals_runArguments heval hn hs hf).bind fun values t _ hst ht hvalues => ?_
  have hi : Invocation.Proper g ⟨f, receiver, values, t⟩ :=
    ⟨ht, hfunction.mono hst, hreceiver.mono hst, hvalues⟩
  refine .store_bind ?_
  split
  · exact seals_call (heval .body) hi
  · exact .tooDeep ht

/-- A function is made, and set under its name if it has one. -/
theorem seals_makeFunction {name : Option String} {parameters : List String} {body : Node}
    {line : Int} (hb : body.Plain) (hs : s.store.Sealed g) (hf : s.store.IsFrame frame) :
    (evaluateWith eval (.function name parameters body line) frame).Seals g s Store.Public := by
  let made : Object := .function (name.getD anonymousName) (.closure parameters body frame)
  let names := name.toList.map fun name => (name, Value.object s.store.fresh)
  have hpublic : (s.store.add made).Public (.object s.store.fresh) := s.store.public_fresh rfl
  have hsealed : ((s.store.add made).putAll frame names).Sealed g := by
    refine (hs.add_closure _ parameters hb hf).putAll frame fun p hp => ?_
    obtain ⟨_, -, rfl⟩ := List.mem_map.mp hp
    exact hpublic
  have hgrows := Store.grows_putAll (s.store.add made) frame names
  have hresult : (pure (.object s.store.fresh) : Eval Value).Seals g
      { s with store := (s.store.add made).putAll frame names } Store.Public :=
    .pure hsealed (hpublic.mono hgrows)
  exact hresult.of_runIn_eq rfl ((Store.grows_add _ _).trans hgrows)

/-- A record is made, filled with its entries and set under `this`. -/
theorem seals_makeRecord (heval : ∀ role, KeepsSealed g (eval role))
    {entries : List (String × Node)} {line : Int} (hn : ∀ e ∈ entries, e.2.Plain)
    (hs : s.store.Sealed g) (hf : s.store.IsFrame frame) :
    (evaluateWith eval (.record entries line) frame).Seals g s Store.Public := by
  have hadded : (s.add (.record none)).store.Sealed g := hs.add_record
  have hgrows := s.store.grows_add (.record none)
  have hpublic : (s.add (.record none)).store.Public (.object s.store.fresh) :=
    s.store.public_fresh rfl
  have hfilled := seals_runEntries heval hn s.store.fresh hadded (hf.mono hgrows)
  refine (hfilled.bind fun _ t _ hst ht _ => ?_).of_runIn_eq rfl hgrows
  have hthis := Eval.Seals.put ht s.store.fresh "this" (hpublic.mono hst)
  exact hthis.bind fun _ u _ htu hu _ => .pure hu (hpublic.mono (hst.trans htu))

/-- The rule of a node, if it holds of its parts. -/
theorem seals_evaluateWith (heval : ∀ role, KeepsSealed g (eval role)) :
    KeepsSealed g (evaluateWith eval) := by
  rintro ⟨node, frame, s⟩ ⟨hplain, hs, hf⟩
  have operand {n : Node} (hn : n.Plain) : (eval .operand n frame).Seals g s Store.Public :=
    heval .operand ⟨n, frame, s⟩ ⟨hn, hs, hf⟩
  cases hplain with
  | block hn => exact (seals_runStatements heval hn hs hf).bind fun _ _ _ _ ht _ => .pure ht trivial
  | literal hv => exact .pure hs (Store.public_of_plain hv)
  | call hc ha =>
      rw [evaluateWith, ← bind_assoc]
      refine (seals_function heval hc hs hf).bind fun f t _ hst ht hfunction => ?_
      exact seals_invoke heval ha ht (hf.mono hst) hfunction trivial
  | name => exact .read hs frame _
  | assign hn =>
      refine (seals_requireUndefined hs _ frame _).bind fun _ t _ hst ht _ => ?_
      refine (heval .operand ⟨_, frame, t⟩ ⟨hn, ht, hf.mono hst⟩).bind fun v u _ _ hu hv => ?_
      exact (Eval.Seals.put hu frame _ hv).bind fun _ _ _ _ hw _ => .pure hw trivial
  | function hn => exact seals_makeFunction hn hs hf
  | giveBack hn =>
      refine (operand hn).bind fun v t _ _ ht hv => .throw ht fun w hw => ?_
      obtain rfl := Exit.returned.inj hw
      exact hv
  | branch hc hq ha =>
      refine (operand hc).bind fun v t _ hst ht _ => ?_
      refine (seals_requireBoolean ht v).bind fun b u _ htu hu _ => ?_
      cases b with
      | true => exact heval .operand ⟨_, frame, u⟩ ⟨hq, hu, hf.mono (hst.trans htu)⟩
      | false => exact heval .operand ⟨_, frame, u⟩ ⟨ha, hu, hf.mono (hst.trans htu)⟩
  | record hn => exact seals_makeRecord heval hn hs hf
  | field hn =>
      refine (operand hn).bind fun v t _ _ ht hv => ?_
      cases v with
      | object r => exact .read ht r _
      | undefined | integer | string | node => exact .pure ht hv
  | assignField hr hn =>
      rw [evaluateWith, ← bind_assoc]
      refine (seals_object heval hr hs hf _).bind fun object t _ hst ht _ => ?_
      refine (heval .operand ⟨_, frame, t⟩ ⟨hn, ht, hf.mono hst⟩).bind fun v u _ _ hu hv => ?_
      exact (Eval.Seals.put hu object _ hv).bind fun _ _ _ _ hw _ => .pure hw hr
  | callMethod hr ha =>
      rw [evaluateWith, ← bind_assoc]
      refine (seals_object heval hr hs hf _).bind fun object t _ hst ht hobject => ?_
      refine (seals_requireMethod ht object _).bind fun f u _ htu hu hfunction => ?_
      exact seals_invoke heval ha hu (hf.mono (hst.trans htu)) hfunction (hobject.mono htu)

/-- An evaluation, however deep it may nest. -/
theorem seals_evaluateSpaced (stack : Stack) (levels gap : Nat) :
    KeepsSealed g (evaluateSpaced stack levels gap) := by
  induction levels generalizing gap with
  | zero => exact fun v hv => .tooDeep hv.sealed
  | succ levels ih =>
      intro v hv
      cases gap with
      | succ gap => exact ih gap v hv
      | zero =>
          rw [evaluateSpaced]
          split
          · have hrule : KeepsSealed g (evaluateWith (evaluateParts stack levels)) :=
              seals_evaluateWith fun role => ih (stack.part role)
            exact (hrule v hv).onLine v.node.line
          · exact .tooDeep hv.sealed

end

end Scriptlet
