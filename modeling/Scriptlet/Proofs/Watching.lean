import Scriptlet.Proofs.Accumulation
import Scriptlet.Proofs.Depth

/-!
# Runs That Are Watched

A trace shows a run while it goes on: `print` describes its arguments a second time, by another
rule, and the description is noted. Here the same rules are followed twice, with the notes and
without. A `Watched` evaluation is both of them side by side, with the calls of `print` that the one
without notes makes, in their order. It carries the proof that watching changes nothing: the two
have the same result, the same objects and the same output, and what is noted are the descriptions
of those calls.

There is one exception. A note takes levels, and there may be too few for it where there are enough
to print. So the evaluation with notes may be cut off where the other one goes on; what it has
printed and noted by then is the beginning of what there would be.

Evaluations are put together of others in three ways, one after another, by catching, and over a
list, and each of them keeps this. So the rules need only be written down once more, for watched
evaluations (`watchWith`), and `on_watch` says that on either side they are the rules of
`evaluateWith`.

## Main definitions

* `PrintCall`, `Session.Noted`: a call of `print`, and what has been noted of calls.
* `Outcome`, `Agrees`: ends of two evaluations, and evaluations that always end so.
* `Watched`: an evaluation with notes and without, and the calls of `print`.
* `watchWith`, `watch`: the rules for watched evaluations.

## Main results

* `Builtin.agrees_print`: describing what is printed changes nothing.
* `on_watch`: with the notes or without, a watched evaluation is an evaluation.
-/

namespace Scriptlet

/-! ### Calls of `print` -/

/-- A call of `print`. -/
structure PrintCall where
  /-- What is to be printed. -/
  arguments : List Value
  /-- The objects at that moment. -/
  store : Store

/-- Whether a call is noted so: as the descriptions of its arguments, with as many levels as these
take. -/
def PrintCall.NotedAs (depth : TextDepth) (c : PrintCall) (e : Event) : Prop :=
  ∃ levels described, c.arguments.mapM (c.store.describe depth levels) = .ok described ∧
    e = .printing described

/-- There is one way to note a call, however many levels there are. -/
theorem PrintCall.NotedAs.unique {depth : TextDepth} {c : PrintCall} {e e' : Event}
    (h : c.NotedAs depth e) (h' : c.NotedAs depth e') : e = e' := by
  obtain ⟨few, described, hfew, rfl⟩ := h
  obtain ⟨many, described', hmany, rfl⟩ := h'
  have more {few many : Nat} (hle : few ≤ many) : NoText.ShortOf
      (c.arguments.mapM (c.store.describe depth few))
      (c.arguments.mapM (c.store.describe depth many)) :=
    .mapM fun v _ => c.store.shortOf_describe hle v
  refine congrArg Event.printing ?_
  rcases Nat.le_total few many with hle | hle
  · have hsame := more hle (by rw [hfew]; exact nofun)
    exact Except.ok.inj (hfew.symm.trans (hsame.symm.trans hmany))
  · have hsame := more hle (by rw [hmany]; exact nofun)
    exact Except.ok.inj (hfew.symm.trans (hsame.trans hmany))

/-- Whether what was noted from one session to another are these calls. -/
def Session.Noted (depth : TextDepth) (s t : Session) (calls : List PrintCall) : Prop :=
  ∃ events, t.events.toList = s.events.toList ++ events ∧
    List.Forall₂ (PrintCall.NotedAs depth) calls events

namespace Session.Noted

variable {depth : TextDepth} {s t u : Session} {calls calls' : List PrintCall}

/-- Where no event is added, no call was noted. -/
theorem nil (h : t.events = s.events) : s.Noted depth t [] :=
  ⟨[], by rw [h, List.append_nil], .nil⟩

/-- Calls are noted one row after another. -/
theorem append (h : s.Noted depth t calls) (h' : t.Noted depth u calls') :
    s.Noted depth u (calls ++ calls') := by
  obtain ⟨events, hevents, hcalls⟩ := h
  obtain ⟨events', hevents', hcalls'⟩ := h'
  refine ⟨events ++ events', ?_, List.rel_append hcalls hcalls'⟩
  rw [hevents', hevents, List.append_assoc]

end Session.Noted

/-! ### Two evaluations side by side -/

/-- Whether two sessions differ in what was noted at most. -/
structure Session.Same (s s' : Session) : Prop where
  store : s.store = s'.store
  output : s.output = s'.output

/-- How two evaluations end, of which only the first notes anything, when the second makes some
calls of `print`. Either both end alike, and the calls are noted, unless one of them cannot be
printed either; or the first is cut off, and what it has printed and noted comes first. -/
inductive Outcome {α : Type} (depth : TextDepth) (s : Session) (x y : Except Exit α × Session)
    (calls : List PrintCall) : Prop
  | alike (result : x.1 = y.1) (session : x.2.Same y.2)
      (noted : x.1 ≠ .error (.fault .oversizedNumeral) → s.Noted depth x.2 calls)
  | cut (result : x.1 = .error .tooDeep) (output : ∃ more, y.2.output = x.2.output ++ more)
      (noted : ∃ done, done <+: calls ∧ s.Noted depth x.2 done)

/-- Whether an evaluation with notes and one without end so, with these calls, and the one without
takes no output back. -/
structure Agrees {α : Type} (depth : TextDepth) (noting quiet : Eval α)
    (calls : Session → List PrintCall) : Prop where
  outcome (s s' : Session) (h : s.Same s') :
    Outcome depth s (noting.runIn s) (quiet.runIn s') (calls s')
  output (s : Session) : ∃ more, (quiet.runIn s).2.output = s.output ++ more

/-- The calls of two evaluations, one after another. -/
def callsOfBind {α : Type} (quiet : Eval α) (calls : Session → List PrintCall)
    (next : α → Session → List PrintCall) (s : Session) : List PrintCall :=
  calls s ++ match quiet.runIn s with
    | (.ok a, t) => next a t
    | (.error _, _) => []

section

variable {α β : Type} {depth : TextDepth} {noting quiet : Eval α} {calls : Session → List PrintCall}

/-- One evaluation after another. If the first is cut off, so are both, and what the other side does
behind that takes no output back. -/
theorem Agrees.bind (h : Agrees depth noting quiet calls) {f f' : α → Eval β}
    {next : α → Session → List PrintCall} (hf : ∀ a, Agrees depth (f a) (f' a) (next a)) :
    Agrees depth (noting >>= f) (quiet >>= f') (callsOfBind quiet calls next) := by
  have houtput (s t : Session) (y : Except Exit α) (hy : quiet.runIn s = (y, t)) :
      ∃ more, ((quiet >>= f').runIn s).2.output = t.output ++ more := by
    rw [Eval.runIn_bind, hy]
    cases y with
    | ok a => exact (hf a).output t
    | error y => exact ⟨"", String.append_empty.symm⟩
  refine ⟨fun s s' hs => ?_, fun s => ?_⟩
  · have hfirst := h.outcome s s' hs
    rcases hx : noting.runIn s with ⟨x, t⟩
    rcases hy : quiet.runIn s' with ⟨y, t'⟩
    rw [hx, hy] at hfirst
    cases hfirst with
    | alike hresult hsession hnoted =>
        obtain rfl : x = y := hresult
        rw [callsOfBind, Eval.runIn_bind, Eval.runIn_bind, hx, hy]
        cases x with
        | error x =>
            refine .alike rfl hsession fun hne => ?_
            rw [List.append_nil]
            exact hnoted fun h => hne (congrArg Except.error (Except.error.inj h))
        | ok a =>
            have hnoted := hnoted nofun
            cases (hf a).outcome t t' hsession with
            | alike hresult hsession hnext =>
                exact .alike hresult hsession fun hne => hnoted.append (hnext hne)
            | cut hresult houtput hnext =>
                obtain ⟨done, hdone, hnext⟩ := hnext
                exact .cut hresult houtput
                  ⟨_, List.prefix_append_right_inj _ |>.mpr hdone, hnoted.append hnext⟩
    | cut hresult hmore hnoted =>
        obtain rfl : x = .error .tooDeep := hresult
        -- the other side goes on, and adds to its output and to its calls
        have hrun : (noting >>= f).runIn s = (.error .tooDeep, t) := by rw [Eval.runIn_bind, hx]
        rw [hrun]
        obtain ⟨more, hmore⟩ := hmore
        obtain ⟨rest, hrest⟩ := houtput s' t' y hy
        obtain ⟨done, hdone, hnoted⟩ := hnoted
        refine .cut rfl ⟨more ++ rest, ?_⟩ ⟨done, hdone.trans (List.prefix_append _ _), hnoted⟩
        rw [hrest, hmore, String.append_assoc]
  · obtain ⟨more, hmore⟩ := h.output s
    obtain ⟨rest, hrest⟩ := houtput s _ _ (Prod.eta _).symm
    exact ⟨more ++ rest, by rw [hrest, hmore, String.append_assoc]⟩

/-- Results may be changed behind an evaluation, as long as cuts and faults stay what they are. -/
theorem Agrees.map (h : Agrees depth noting quiet calls) {noting' quiet' : Eval β}
    (g : Except Exit α → Except Exit β) (hdeep : g (.error .tooDeep) = .error .tooDeep)
    (hfault : g (.error (.fault .oversizedNumeral)) = .error (.fault .oversizedNumeral))
    (hnoting : ∀ s, noting'.runIn s = (g (noting.runIn s).1, (noting.runIn s).2))
    (hquiet : ∀ s, quiet'.runIn s = (g (quiet.runIn s).1, (quiet.runIn s).2)) :
    Agrees depth noting' quiet' calls := by
  refine ⟨fun s s' hs => ?_, fun s => by rw [hquiet]; exact h.output s⟩
  rw [hnoting, hquiet]
  cases h.outcome s s' hs with
  | alike hresult hsession hnoted =>
      exact .alike (congrArg g hresult) hsession fun hne =>
        hnoted fun h => hne ((congrArg g h).trans hfault)
  | cut hresult houtput hnoted =>
      exact .cut ((congrArg g hresult).trans hdeep) houtput hnoted

end

/-! ### Evaluations without a call -/

/-- Whether an evaluation comes to the same whatever was noted before, and notes nothing. -/
class Still {α : Type} (e : Eval α) : Prop where
  agrees (depth : TextDepth) : Agrees depth e e fun _ => []

section

variable {α β : Type}

/-- An evaluation that changes no more than the objects, and looks at no more. -/
theorem Still.of_store {e : Eval α} (result : Store → Except Exit α) (change : Store → Store)
    (h : ∀ s, e.runIn s = (result s.store, { s with store := change s.store })) : Still e where
  agrees depth := by
    refine ⟨fun s s' hs => ?_, fun s => ⟨"", by rw [h, String.append_empty]⟩⟩
    rw [h, h, hs.store]
    exact .alike rfl ⟨rfl, hs.output⟩ fun _ => .nil rfl

instance Still.bind {e : Eval α} {f : α → Eval β} [he : Still e] [hf : ∀ a, Still (f a)] :
    Still (e >>= f) where
  agrees depth := by
    have h := (he.agrees depth).bind fun a => (hf a).agrees depth
    have hnone : callsOfBind e (fun _ => []) (fun _ _ => []) = fun _ => [] := by
      funext s
      rw [callsOfBind]
      rcases e.runIn s with ⟨_ | _, _⟩ <;> rfl
    rwa [hnone] at h

instance (a : α) : Still (pure a : Eval α) :=
  .of_store (fun _ => .ok a) id fun _ => rfl

instance (x : Exit) : Still (throw x : Eval α) :=
  .of_store (fun _ => .error x) id fun _ => rfl

instance : Still Eval.store :=
  .of_store .ok id fun _ => rfl

instance (o : Object) : Still (Eval.add o) :=
  .of_store (fun s => .ok s.fresh) (fun s => s.add o) fun _ => rfl

instance (r : Ref) (pairs : List (String × Value)) : Still (Eval.putAll r pairs) :=
  .of_store (fun _ => .ok ()) (fun s => s.putAll r pairs) fun _ => rfl

instance (r : Ref) (name : String) (v : Value) : Still (Eval.put r name v) :=
  inferInstanceAs (Still (Eval.putAll r [(name, v)]))

instance (r : Ref) (name : String) : Still (Eval.read r name) :=
  .of_store (fun s => .ok (s.read r name)) id fun _ => rfl

instance (m : Mistake) : Still (Eval.mistake m : Eval α) :=
  inferInstanceAs (Still (throw (.mistake m none) : Eval α))

instance (levels need : Nat) : Still (Eval.reserve levels need) := by
  unfold Eval.reserve
  split <;> infer_instance

instance (text : Except NoText String) : Still (Eval.written text) :=
  .of_store (fun _ => text.mapError NoText.exit) id (Eval.runIn_written text)

instance (eval : Evaluator) (m : Mistake) : Still (eval.mistake m : Eval α) :=
  inferInstanceAs (Still (Eval.reserve eval.levels (eval.stack.mistake m) >>= fun _ =>
    Eval.mistake m))

instance (eval : Evaluator) (purpose : Purpose) (v : Value) : Still (eval.shown purpose v) :=
  inferInstanceAs (Still (Eval.store >>= fun s =>
    Eval.written (s.display eval.stack.text (eval.levels - eval.stack.above purpose) v)))

end

/-! ### What is required of values -/

section

variable (eval : Evaluator)

instance (purpose : String) (v : Value) : Still (requireObject eval purpose v) := by
  cases v <;> (simp only [requireObject]; infer_instance)

instance (v : Value) : Still (requireFunction eval v) := by
  cases v with
  | object r =>
      have hcallable (s : Store) : Still (match s.action? r with
          | some _ => pure r
          | none => do eval.mistake (.notAFunction (← eval.shown .callee (.object r)))) := by
        split <;> infer_instance
      exact inferInstanceAs (Still (Eval.store >>= _))
  | _ => simp only [requireFunction]; infer_instance

instance (object : Ref) (name : String) : Still (requireMethod eval object name) := by
  have hmethod (v : Value) : Still (match v with
      | .undefined => do eval.mistake (.noMethod (← eval.shown .method (.object object)) name)
      | .object r => do
        match (← Eval.store).action? r with
        | some _ => return r
        | none => eval.mistake (.notAMethod name)
      | _ => eval.mistake (.notAMethod name) : Eval Ref) := by
    cases v with
    | object r =>
        have hcallable (s : Store) : Still (match s.action? r with
            | some _ => return r
            | none => eval.mistake (.notAMethod name) : Eval Ref) := by
          split <;> infer_instance
        exact inferInstanceAs (Still (Eval.store >>= _))
    | _ => dsimp only; infer_instance
  exact inferInstanceAs (Still (Eval.read object name >>= _))

instance (v : Value) : Still (requireBoolean eval v) := by
  unfold requireBoolean
  split <;> infer_instance

instance (declares : Bool) (frame : Ref) (name : String) :
    Still (requireUndefined eval declares frame name) := by
  have hmind (v : Value) : Still (match declares, v with
      | false, _ => return
      | true, .undefined => return
      | true, _ => eval.mistake (.alreadyDefined name) : Eval Unit) := by
    split <;> infer_instance
  exact inferInstanceAs (Still (Eval.read frame name >>= _))

end

/-! ### Printing -/

/-- Whether two texts are there alike: unless one of them nests too deeply, an integer is too long
for both of them or for none. -/
def NoText.Alike {α β : Type} (text : Except NoText α) (text' : Except NoText β) : Prop :=
  text ≠ .error .tooDeep → text' ≠ .error .tooDeep →
    (text = .error .oversized ↔ text' = .error .oversized)

namespace NoText.Alike

variable {α β γ δ : Type} {text : Except NoText α} {text' : Except NoText β}

/-- Two texts that are there. -/
theorem ok (a : α) (b : β) : Alike (.ok a) (.ok b) := fun _ _ => ⟨nofun, nofun⟩

/-- Texts that go on behind others. -/
theorem bind {f : α → Except NoText γ} {f' : β → Except NoText δ} (h : Alike text text')
    (hf : ∀ a b, Alike (f a) (f' b)) : Alike (text >>= f) (text' >>= f') := by
  cases text with
  | ok a =>
      cases text' with
      | ok b => exact hf a b
      | error why =>
          cases why with
          | oversized => cases (h nofun nofun).mpr rfl
          | tooDeep => exact fun _ hdeep => absurd rfl hdeep
  | error why =>
      cases why with
      | tooDeep => exact fun hdeep => absurd rfl hdeep
      | oversized =>
          intro _ hdeep
          have hne : text' ≠ .error .tooDeep := by
            rintro rfl
            exact hdeep rfl
          obtain rfl := (h nofun hne).mp rfl
          exact ⟨fun _ => rfl, fun _ => rfl⟩

/-- All of some values have texts alike if each of them has. -/
theorem mapM {f : α → Except NoText γ} {f' : α → Except NoText δ}
    (h : ∀ a, Alike (f a) (f' a)) (as : List α) : Alike (as.mapM f) (as.mapM f') := by
  induction as with
  | nil => exact ok [] []
  | cons a rest ih =>
      rw [List.mapM_cons, List.mapM_cons]
      exact (h a).bind fun b c => ih.bind fun bs cs => ok (b :: bs) (c :: cs)

end NoText.Alike

/-- A value can be printed if it can be described, and the other way round. -/
theorem Store.alike_describe_printed (s : Store) (depth : TextDepth) (levels levels' : Nat)
    (v : Value) : NoText.Alike (s.describe depth levels v) (s.printed depth levels' v) := by
  cases v with
  | undefined | string =>
      intro _ _
      show NoText.within _ levels (.ok _) = _ ↔ _
      unfold NoText.within
      split <;> exact ⟨nofun, nofun⟩
  | integer | object | node =>
      intro hdeep hdeep'
      rcases Nat.le_total levels levels' with hle | hle
      · exact iff_of_eq (congrArg (· = _) (s.shortOf_describe hle _ hdeep).symm)
      · exact iff_of_eq (congrArg (· = _) (s.shortOf_describe hle _ hdeep'))

section

variable (stack : Stack) (levels : Nat) (arguments : List Value) {s s' : Session}

/-- What becomes of a note. -/
theorem runIn_notePrinting (s : Session) :
    (notePrinting (stack.tracing true) levels arguments).runIn s =
      if stack.above .record ≤ levels then
        match arguments.mapM (s.store.describe stack.text (levels - stack.above .record)) with
        | .ok described => (.ok (), { s with events := s.events.push (.printing described) })
        | .error .oversized => (.ok (), s)
        | .error .tooDeep => (.error .tooDeep, s)
      else (.error .tooDeep, s) := by
  show (Eval.reserve levels (stack.above .record) >>= fun _ => Eval.store >>= fun store =>
    match arguments.mapM (store.describe stack.text (levels - stack.above .record)) with
    | .ok described => Eval.note (.printing described)
    | .error .oversized => return
    | .error .tooDeep => throw .tooDeep).runIn s = _
  rw [Eval.reserve]
  split
  · show (match arguments.mapM (s.store.describe stack.text (levels - stack.above .record)) with
      | .ok described => Eval.note (.printing described)
      | .error .oversized => return
      | .error .tooDeep => throw .tooDeep : Eval Unit).runIn s = _
    split <;> rfl
  · rfl

/-- A trace does not change the line that is printed. -/
theorem runIn_printLine_tracing (traced : Bool) {u : Session} (hu : u.store = s.store) :
    (printLine (stack.tracing traced) levels arguments).runIn u =
      match arguments.mapM (s.store.printed stack.text (levels - stack.above .print)) with
      | .error why => (.error why.exit, u)
      | .ok printed =>
        (.ok .undefined, { u with output := u.output ++ (" ".intercalate printed ++ "\n") }) := by
  rw [← hu]
  exact runIn_printLine _ _ _ _

/-- The line that is printed behind a note is the same as without one. What was noted is the call,
if the line can be printed. -/
theorem outcome_printLine {t : Session} {done calls : List PrintCall} (ht : t.Same s')
    (hnoted : s.Noted stack.text t done) (hdone : done <+: calls)
    (hall : ∀ printed, arguments.mapM (t.store.printed stack.text (levels - stack.above .print)) =
      .ok printed → done = calls) :
    Outcome stack.text s ((printLine (stack.tracing true) levels arguments).runIn t)
      ((printLine (stack.tracing false) levels arguments).runIn s') calls := by
  rw [runIn_printLine_tracing stack levels arguments true rfl,
    runIn_printLine_tracing stack levels arguments false ht.store.symm]
  cases hp : arguments.mapM (t.store.printed stack.text (levels - stack.above .print)) with
  | ok printed =>
      obtain rfl := hall printed hp
      exact .alike rfl ⟨ht.store, congrArg (· ++ _) ht.output⟩ fun _ => hnoted
  | error why =>
      cases why with
      | oversized => exact .alike rfl ht fun hne => absurd rfl hne
      | tooDeep =>
          exact .cut rfl ⟨"", ht.output.symm.trans String.append_empty.symm⟩ ⟨done, hdone, hnoted⟩

/-- Describing what is printed changes nothing: where it fails, printing fails alike, or there are
too few levels for it. -/
theorem Builtin.agrees_print :
    Agrees stack.text (Builtin.print.apply (stack.tracing true) levels arguments)
      (Builtin.print.apply (stack.tracing false) levels arguments)
      fun s => [⟨arguments, s.store⟩] := by
  refine ⟨fun s s' hs => ?_, fun s => (grows_apply (Prod.eta _).symm).output⟩
  have hmore := (grows_apply (Prod.eta
    ((Builtin.print.apply (stack.tracing false) levels arguments).runIn s')).symm).output
  rw [← hs.output] at hmore
  have hcut (x : Except Exit Value × Session) (hx : x = (.error .tooDeep, s)) :
      Outcome stack.text s x ((Builtin.print.apply (stack.tracing false) levels arguments).runIn s')
        [⟨arguments, s'.store⟩] := by
    rw [hx]
    exact .cut rfl hmore ⟨[], List.nil_prefix, .nil rfl⟩
  have hrun (traced : Bool) : Builtin.print.apply (stack.tracing traced) levels arguments =
      (Eval.reserve levels stack.print >>= fun _ =>
        notePrinting (stack.tracing traced) levels arguments >>= fun _ =>
          printLine (stack.tracing traced) levels arguments) := rfl
  by_cases hroom : stack.print ≤ levels
  case neg =>
    refine hcut _ ?_
    rw [hrun, Eval.reserve, if_neg hroom]
    rfl
  have hquiet : (Builtin.print.apply (stack.tracing false) levels arguments).runIn s' =
      (printLine (stack.tracing false) levels arguments).runIn s' := by
    rw [hrun, Eval.runIn_bind_of_ok (Eval.runIn_reserve_of_le hroom s')]
    rfl
  rw [hrun true, Eval.runIn_bind_of_ok (Eval.runIn_reserve_of_le hroom s), Eval.runIn_bind,
    runIn_notePrinting]
  by_cases hnote : stack.above .record ≤ levels
  case neg =>
    rw [if_neg hnote]
    exact hcut _ rfl
  rw [if_pos hnote]
  cases hd : arguments.mapM (s.store.describe stack.text (levels - stack.above .record)) with
  | ok described =>
      rw [hquiet, ← hs.store]
      exact outcome_printLine stack levels arguments ⟨hs.store, hs.output⟩
        ⟨_, Array.toList_push, .cons ⟨_, described, hd, rfl⟩ .nil⟩ List.prefix_rfl fun _ _ => rfl
  | error why =>
      cases why with
      | tooDeep => exact hcut _ rfl
      | oversized =>
          rw [hquiet]
          refine outcome_printLine stack levels arguments hs (.nil rfl) List.nil_prefix ?_
          -- what cannot be described cannot be printed
          intro printed hp
          have halike := NoText.Alike.mapM (s.store.alike_describe_printed stack.text
            (levels - stack.above .record) (levels - stack.above .print)) arguments
          rw [hd, hp] at halike
          cases (halike (by simp) (by simp)).mp rfl

end

instance (stack : Stack) (levels : Nat) (op : Operator) (arguments : List Value) :
    Still ((Builtin.operator op).apply stack levels arguments) :=
  .of_store (fun _ => if stack.operation op arguments (op.applyTo arguments) ≤ levels then
    (op.applyTo arguments).mapError .fault else .error .tooDeep) id
    (Builtin.runIn_operator stack levels arguments · op)

/-- The call of a built-in function, if it is one of `print`. -/
def Builtin.printCalls : Builtin → List Value → Session → List PrintCall
  | .print, arguments, s => [⟨arguments, s.store⟩]
  | .operator _, _, _ => []

/-- Only `print` makes a call. -/
theorem Builtin.agrees_apply (stack : Stack) (levels : Nat) (b : Builtin)
    (arguments : List Value) :
    Agrees stack.text (b.apply (stack.tracing true) levels arguments)
      (b.apply (stack.tracing false) levels arguments) (b.printCalls arguments) := by
  cases b with
  | print => exact agrees_print stack levels arguments
  | operator op => exact Still.agrees stack.text

/-! ### Watched evaluations -/

/-- An evaluation with notes, the same evaluation without them, and the calls of `print` that the
latter makes. -/
structure Watched (depth : TextDepth) (α : Type) where
  /-- The evaluation, with notes or without. -/
  on : (traced : Bool) → Eval α
  /-- The calls of `print`, in their order. -/
  calls : Session → List PrintCall
  /-- The two come to the same, unless the first is cut off. -/
  agrees : Agrees depth (on true) (on false) calls

namespace Watched

variable {α β : Type} {depth : TextDepth}

/-- An evaluation without a call. -/
def still (e : Eval α) [h : Still e] : Watched depth α := ⟨fun _ => e, fun _ => [], h.agrees depth⟩

/-- One evaluation after another. -/
protected def bind (w : Watched depth α) (f : α → Watched depth β) : Watched depth β where
  on traced := w.on traced >>= fun a => (f a).on traced
  calls := callsOfBind (w.on false) w.calls fun a => (f a).calls
  agrees := w.agrees.bind fun a => (f a).agrees

instance : Monad (Watched depth) where
  pure a := still (pure a)
  bind := Watched.bind

/-- An evaluation on a line. -/
def onLine (line : Int) (w : Watched depth α) : Watched depth α where
  on traced := Eval.onLine line (w.on traced)
  calls := w.calls
  agrees := w.agrees.map (Except.mapError (Exit.onLine line)) rfl rfl
    (Eval.runIn_onLine line (w.on true)) (Eval.runIn_onLine line (w.on false))

/-- The evaluation of a function's body. -/
def catchReturn (w : Watched depth Value) : Watched depth Value where
  on traced := Eval.catchReturn (w.on traced)
  calls := w.calls
  agrees := w.agrees.map Except.catchReturn rfl rfl (Eval.runIn_catchReturn (w.on true))
    (Eval.runIn_catchReturn (w.on false))

/-- Either side of a value that is known before. -/
@[simp] theorem on_pure (a : α) (traced : Bool) : (pure a : Watched depth α).on traced = pure a :=
  rfl

/-- Either side of an evaluation without a call. -/
@[simp] theorem on_still (e : Eval α) [Still e] (traced : Bool) :
    (still e : Watched depth α).on traced = e := rfl

/-- Either side of one evaluation after another. -/
@[simp] theorem on_bind (w : Watched depth α) (f : α → Watched depth β) (traced : Bool) :
    (w >>= f).on traced = w.on traced >>= fun a => (f a).on traced := rfl

/-- Either side of a row of evaluations. -/
theorem on_mapM (f : α → Watched depth β) (as : List α) (traced : Bool) :
    (as.mapM f).on traced = as.mapM fun a => (f a).on traced := by
  have hloop (bs : List β) : (List.mapM.loop f as bs).on traced =
      List.mapM.loop (fun a => (f a).on traced) as bs := by
    induction as generalizing bs with
    | nil => rfl
    | cons a rest ih => exact congrArg ((f a).on traced >>= ·) (funext fun b => ih (b :: bs))
  exact hloop []

/-- Either side of a row without results. -/
theorem on_forM (f : α → Watched depth PUnit) (as : List α) (traced : Bool) :
    (as.forM f).on traced = as.forM fun a => (f a).on traced := by
  induction as with
  | nil => rfl
  | cons a rest ih => exact congrArg ((f a).on traced >>= ·) (funext fun _ => ih)

end Watched

/-! ### The rules of evaluation -/

/-- What a rule evaluates the parts of its node with, watched. -/
structure Watcher where
  /-- What everything takes. -/
  stack : Stack
  /-- The levels that are left below the node. -/
  levels : Nat
  /-- The value of a part in a frame, in its role. -/
  run : Role → Node → Ref → Watched stack.text Value

/-- What a rule evaluates with, with notes or without. -/
def Watcher.on (watcher : Watcher) (traced : Bool) : Evaluator where
  stack := watcher.stack.tracing traced
  levels := watcher.levels
  run role n frame := (watcher.run role n frame).on traced

open Watched (still)

section

variable (watcher : Watcher)

/-- A watched call of a built-in function. -/
def watchBuiltin (b : Builtin) (arguments : List Value) : Watched watcher.stack.text Value where
  on traced := b.apply (watcher.stack.tracing traced) watcher.levels arguments
  calls := b.printCalls arguments
  agrees := b.agrees_apply watcher.stack watcher.levels arguments

/-- A watched call of an object. -/
def watchCall (f : Ref) (receiver : Value) (arguments : List Value) :
    Watched watcher.stack.text Value := do
  match (← still Eval.store).object? f with
  | some { name, action := some action, .. } =>
    match action with
    | .closure parameters body home =>
      if arguments.length = parameters.length then
        let frame ← still (Eval.add (.frame home))
        still (Eval.put frame "this" receiver)
        still (Eval.putAll frame (parameters.zip arguments))
        (watcher.run .body body frame).catchReturn
      else still (Eval.mistake (.argumentCount name parameters.length arguments.length))
    | .builtin b => watchBuiltin watcher b arguments
    | .constant v => return v
  | _ =>
    let text ← still ((watcher.on false).shown .callee (.object f))
    still ((watcher.on false).mistake (.notAFunction text))

/-- A watched call of an object by a rule. -/
def watchInvoke (f : Ref) (receiver : Value) (arguments : List Value) :
    Watched watcher.stack.text Value := do
  if (watcher.on false).admits (← still Eval.store) f then watchCall watcher f receiver arguments
  else still (throw .tooDeep)

/-- The rules of `evaluateWith`, for watched evaluations. What is required of values is the same
with notes and without. -/
def watchWith (node : Node) (frame : Ref) : Watched watcher.stack.text Value :=
  let eval := watcher.on false
  match node with
  | .block statements _ => do
    statements.forM fun n => discard (watcher.run .statement n frame)
    return .undefined
  | .literal v _ _ => return v
  | .call callee arguments _ => do
    let f ← still (requireFunction eval (← watcher.run .operand callee frame))
    let arguments ← arguments.mapM fun n => watcher.run .argument n frame
    watchInvoke watcher f .undefined arguments
  | .name name _ => still (Eval.read frame name)
  | .assign name value declares _ => do
    still (requireUndefined eval declares frame name)
    still (Eval.put frame name (← watcher.run .operand value frame))
    return .undefined
  | .function name parameters body _ => do
    let action := Action.closure parameters body frame
    let f ← still (Eval.add (.function (name.getD anonymousName) action))
    still (Eval.putAll frame (name.toList.map fun name => (name, .object f)))
    return .object f
  | .giveBack value _ => do still (throw (.returned (← watcher.run .operand value frame)))
  | .branch condition consequence alternative _ => do
    if ← still (requireBoolean eval (← watcher.run .operand condition frame)) then
      watcher.run .operand consequence frame
    else watcher.run .operand alternative frame
  | .record entries _ => do
    let object ← still (Eval.add (.record none))
    entries.forM fun (key, n) => do
      still (Eval.put object key (← watcher.run .operand n frame))
    still (Eval.put object "this" (.object object))
    return .object object
  | .field receiver name _ => do
    match ← watcher.run .operand receiver frame with
    | .object r => still (Eval.read r name)
    | v => return v
  | .assignField receiver name value _ => do
    let v ← watcher.run .operand receiver frame
    let object ← still (requireObject eval ("cannot assign field '" ++ name ++ "'") v)
    still (Eval.put object name (← watcher.run .operand value frame))
    return .node receiver
  | .callMethod receiver name arguments _ => do
    let v ← watcher.run .operand receiver frame
    let object ← still (requireObject eval ("cannot call method '" ++ name ++ "'") v)
    let f ← still (requireMethod eval object name)
    let arguments ← arguments.mapM fun n => watcher.run .argument n frame
    watchInvoke watcher f (.object object) arguments

end

/-- The watched evaluation of a node in a frame, when evaluations nest no deeper than `levels` and
the first `gap` of these are left out. -/
def watch (stack : Stack) : (levels gap : Nat) → Node → Ref → Watched stack.text Value
  | 0, _, _, _ => still (throw .tooDeep)
  | levels + 1, gap + 1, node, frame => watch stack levels gap node frame
  | levels + 1, 0, node, frame =>
    if stack.rule node.kind ≤ levels then
      (watchWith ⟨stack, levels, fun role => watch stack levels (stack.part role)⟩
        node frame).onLine node.line
    else still (throw .tooDeep)

section

variable (watcher : Watcher) (traced : Bool)

/-- Either side of a call. -/
theorem on_watchCall (f : Ref) (receiver : Value) (arguments : List Value) :
    (watchCall watcher f receiver arguments).on traced =
      call (watcher.on traced) f receiver arguments := by
  refine congrArg (Eval.store >>= ·) (funext fun s => ?_)
  dsimp only
  rcases s.object? f with _ | ⟨name, parent, _ | action, entries⟩
  · rfl
  · rfl
  cases action with
  | closure parameters body home =>
      dsimp only
      split <;> rfl
  | builtin | constant => rfl

/-- Either side of a call for which there must be room. -/
theorem on_watchInvoke (f : Ref) (receiver : Value) (arguments : List Value) :
    (watchInvoke watcher f receiver arguments).on traced =
      invoke (watcher.on traced) f receiver arguments := by
  refine congrArg (Eval.store >>= ·) (funext fun s => ?_)
  have hadmits : (watcher.on false).admits s f = (watcher.on traced).admits s f := rfl
  dsimp only
  rw [hadmits]
  split
  · exact on_watchCall watcher traced f receiver arguments
  · rfl

/-- With the notes or without, the rules are those of an evaluation. -/
theorem on_watchWith (n : Node) (frame : Ref) :
    (watchWith watcher n frame).on traced = evaluateWith (watcher.on traced) n frame := by
  -- the calls are the last thing that a rule comes to
  have hinvoke (f : Ref) (receiver : Value) (arguments : List Node) :
      (arguments.mapM (fun n => watcher.run .argument n frame) >>=
        watchInvoke watcher f receiver).on traced =
      (arguments.mapM (fun n => (watcher.run .argument n frame).on traced) >>=
        invoke (watcher.on traced) f receiver) := by
    rw [Watched.on_bind, Watched.on_mapM, funext (on_watchInvoke watcher traced f receiver)]
  cases n with
  | literal | name | assign | function | giveBack | assignField => rfl
  | block statements line =>
      exact congrArg (· >>= _) (Watched.on_forM _ statements traced)
  | record entries line =>
      exact congrArg (Eval.add (.record none) >>= ·) (funext fun object =>
        congrArg (· >>= _) (Watched.on_forM _ entries traced))
  | field receiver name line =>
      refine congrArg ((watcher.run .operand receiver frame).on traced >>= ·) (funext fun v => ?_)
      cases v <;> rfl
  | branch condition consequence alternative line =>
      refine congrArg ((watcher.run .operand condition frame).on traced >>= ·) (funext fun v => ?_)
      refine congrArg (requireBoolean (watcher.on traced) v >>= ·) (funext fun b => ?_)
      cases b <;> rfl
  | call callee arguments line =>
      exact congrArg ((watcher.run .operand callee frame).on traced >>= ·) (funext fun v =>
        congrArg (requireFunction (watcher.on traced) v >>= ·) (funext fun f =>
          hinvoke f .undefined arguments))
  | callMethod receiver name arguments line =>
      exact congrArg ((watcher.run .operand receiver frame).on traced >>= ·) (funext fun v =>
        congrArg (requireObject (watcher.on traced) _ v >>= ·) (funext fun object =>
          congrArg (requireMethod (watcher.on traced) object name >>= ·) (funext fun f =>
            hinvoke f (.object object) arguments)))

end

/-- With the notes or without, a watched evaluation is an evaluation. -/
theorem on_watch (stack : Stack) (levels gap : Nat) (n : Node) (frame : Ref) (traced : Bool) :
    (watch stack levels gap n frame).on traced =
      evaluateSpaced (stack.tracing traced) levels gap n frame := by
  induction levels generalizing gap n frame with
  | zero => rfl
  | succ levels ih =>
      cases gap with
      | succ gap => exact ih gap n frame
      | zero =>
          rw [watch, evaluateSpaced]
          have hrule : (stack.tracing traced).rule n.kind = stack.rule n.kind := rfl
          rw [hrule]
          split
          · refine congrArg (Eval.onLine n.line) ((on_watchWith _ traced n frame).trans ?_)
            refine congrArg (evaluateWith · n frame) ?_
            exact congrArg (Evaluator.mk _ levels) (funext fun role =>
              funext fun n => funext fun r => ih (stack.part role) n r)
          · rfl

end Scriptlet
