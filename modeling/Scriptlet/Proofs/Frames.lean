import Scriptlet.Proofs.Sealing

/-!
# Local Frames Never Leak

A run of a program makes a frame for every call of a function, and no script ever gets hold of
one: at no moment is a frame other than the global one among the values that are handed over, or
among those that objects hold. So nothing that a script can reach has a parent, and reading a
field of it never leaves it. Frames are there for functions and for other frames only, and going
up from any of them ends in the global frame.

All this is read off a sealed store. It remains to see that the parts of a visit begin where its
own evaluation has come to, in stores that are sealed at that time.

## Main definitions

* `Moment.Has`: the values that there are at a moment.
* `Moment.LeakFree`: what is said of every moment.

## Main results

* `Part.proper`: a visit hands on to its parts that its store is sealed.
* `Reaches.proper`: so it does to all moments.
* `leakFree_of_program`: local frames never leak in a run of a program.
-/

namespace Scriptlet

section

variable {g : Ref} {eval : Evaluator}

/-- What a proper visit is about to call is a function that a script may get hold of, and so is
the receiver. -/
theorem Prepares.proper {v : Visit} {f : Ref} {receiver : Value} {arguments : List Node}
    {s : Session} (h : Prepares eval v f receiver arguments s)
    (heval : ∀ role, KeepsSealed g (eval role)) (hv : v.Proper g) :
    v.session.store.Grows s.store ∧ s.store.Sealed g ∧ s.store.Public (.object f) ∧
      s.store.Public receiver ∧ ∀ n ∈ arguments, n.Plain := by
  obtain ⟨hplain, hs, hf⟩ := hv
  cases h with
  | call h =>
      cases hplain with
      | call hc ha =>
          obtain ⟨hst, ht, hfunction⟩ := (seals_function heval hc hs hf).of_ok h
          exact ⟨hst, ht, hfunction, trivial, ha⟩
  | callMethod ho h =>
      cases hplain with
      | callMethod hr ha =>
          obtain ⟨hst, ht, hobject⟩ := (seals_object heval hr hs hf _).of_ok ho
          obtain ⟨htu, hu, hfunction⟩ := (seals_requireMethod ht _ _).of_ok h
          exact ⟨hst.trans htu, hu, hfunction, hobject.mono htu, ha⟩

/-- The call that a proper visit makes. -/
theorem Invokes.proper {v : Visit} {i : Invocation} (h : Invokes eval v i)
    (heval : ∀ role, KeepsSealed g (eval role)) (hv : v.Proper g) : i.Proper g := by
  cases h with
  | intro hp ha =>
      obtain ⟨hst, ht, hfunction, hreceiver, hn⟩ := hp.proper heval hv
      obtain ⟨htu, hu, harguments⟩ :=
        (seals_runArguments heval hn ht (hv.frame.mono hst)).of_ok ha
      exact ⟨hu, hfunction.mono htu, hreceiver.mono htu, harguments⟩

/-- The record that a proper visit has filled with some entries. -/
theorem sealed_runEntries {done rest : List (String × Node)} {line : Int} {frame : Ref}
    {s t : Session} (heval : ∀ role, KeepsSealed g (eval role))
    (hv : Visit.Proper g ⟨.record (done ++ rest) line, frame, s⟩)
    (h : (runEntries eval done s.store.fresh frame).runIn (s.add (.record none)) = (.ok (), t)) :
    s.store.Grows t.store ∧ t.store.Sealed g := by
  obtain ⟨hplain, hs, hf⟩ := hv
  cases hplain with
  | record hn =>
      have hgrows := s.store.grows_add (.record none)
      have hadded : (s.add (.record none)).store.Sealed g := hs.add_record
      have hfilled := seals_runEntries heval
        (fun e he => hn e (List.mem_append_left _ he)) s.store.fresh hadded (hf.mono hgrows)
      obtain ⟨hst, ht, -⟩ := hfilled.of_ok h
      exact ⟨hgrows.trans hst, ht⟩

/-- The part of a plain node that is evaluated first is plain. -/
theorem Node.Plain.first {n m : Node} (h : n.Plain) (hm : n.first? = some m) : m.Plain := by
  cases h with
  | call h | giveBack h | branch h | field h | assignField h | callMethod h =>
      obtain rfl := Option.some.inj hm
      exact h
  | block | literal | name | assign | function | record => cases hm

/-- The parts of a proper visit are proper. -/
theorem Part.proper {v w : Visit} {role : Role} (h : Part eval v role w)
    (heval : ∀ role, KeepsSealed g (eval role)) (hv : v.Proper g) : w.Proper g := by
  cases h with
  | first hn => exact ⟨hv.plain.first hn, hv.sealed, hv.frame⟩
  | statement h =>
      obtain ⟨hplain, hs, hf⟩ := hv
      cases hplain with
      | block hn =>
          have hdone := seals_runStatements heval
            (fun n hmem => hn n (List.mem_append_left _ hmem)) hs hf
          obtain ⟨hst, ht, -⟩ := hdone.of_ok h
          exact ⟨hn _ (List.mem_append_right _ List.mem_cons_self), ht, hf.mono hst⟩
  | argument hp h =>
      obtain ⟨hst, ht, -, -, hn⟩ := hp.proper heval hv
      have hf := hv.frame.mono hst
      have hdone := seals_runArguments heval
        (fun n hmem => hn n (List.mem_append_left _ hmem)) ht hf
      obtain ⟨htu, hu, -⟩ := hdone.of_ok h
      exact ⟨hn _ (List.mem_append_right _ List.mem_cons_self), hu, hf.mono htu⟩
  | body hi he => exact (hi.proper heval hv).body he
  | assigned h =>
      obtain ⟨hplain, hs, hf⟩ := hv
      cases hplain with
      | assign hn =>
          obtain ⟨hst, ht, -⟩ := (seals_requireUndefined hs _ _ _).of_ok h
          exact ⟨hn, ht, hf.mono hst⟩
  | @chosen condition consequence alternative _ frame b s _ h =>
      obtain ⟨hplain, hs, hf⟩ := hv
      cases hplain with
      | branch hc hq ha =>
          have hcondition := heval .operand ⟨condition, frame, s⟩ ⟨hc, hs, hf⟩
          have hboolean := hcondition.bind (f := requireBoolean eval) fun v _ _ _ ht _ =>
            seals_requireBoolean ht v
          obtain ⟨hst, ht, -⟩ := hboolean.of_ok h
          refine ⟨?_, ht, hf.mono hst⟩
          cases b with
          | true => exact hq
          | false => exact ha
  | entry h =>
      obtain ⟨hst, ht⟩ := sealed_runEntries heval hv h
      obtain ⟨hplain, -, hf⟩ := hv
      cases hplain with
      | record hn => exact ⟨hn _ (List.mem_append_right _ List.mem_cons_self), ht, hf.mono hst⟩
  | fieldValue h =>
      obtain ⟨hplain, hs, hf⟩ := hv
      cases hplain with
      | assignField hr hn =>
          obtain ⟨hst, ht, -⟩ := (seals_object heval hr hs hf _).of_ok h
          exact ⟨hn, ht, hf.mono hst⟩

/-- The sessions in between, in a proper visit. -/
theorem Passes.sealed {v : Visit} {s : Session} (h : Passes eval v s)
    (heval : ∀ role, KeepsSealed g (eval role)) (hv : v.Proper g) : s.store.Sealed g := by
  cases h with
  | function =>
      obtain ⟨hplain, hs, hf⟩ := hv
      cases hplain with
      | function hb => exact hs.add_closure _ _ hb hf
  | record h => exact (sealed_runEntries heval hv h).2
  | frame hi he hn => exact (hi.proper heval hv).sealed_enter he hn

end

/-! ### What holds at every moment -/

/-- What is shown of a moment. -/
structure Moment.Proper (g : Ref) (m : Moment) : Prop where
  sealed : m.store.Sealed g
  values : ∀ v ∈ m.values, m.store.Public v

/-- Whatever a proper visit reaches is proper. -/
theorem Reaches.proper {g : Ref} {stack : Stack} {levels gap : Nat} {v : Visit} {m : Moment}
    (h : Reaches stack levels gap v m) (hv : v.Proper g) : m.Proper g := by
  have heval (levels : Nat) (role : Role) : KeepsSealed g (evaluateParts stack levels role) :=
    seals_evaluateSpaced stack levels (stack.part role)
  induction h with
  | begins => exact ⟨hv.sealed, nofun⟩
  | @ends levels gap v result s h =>
      have hseals := seals_evaluateSpaced stack levels gap v hv
      obtain ⟨-, hsealed, hresult, hexit⟩ := hseals
      rw [h] at hsealed hresult hexit
      refine ⟨hsealed, fun w hw => ?_⟩
      cases result with
      | ok w' =>
          obtain rfl := List.mem_singleton.mp hw
          exact hresult w rfl
      | error x =>
          cases x with
          | returned w' =>
              obtain rfl := List.mem_singleton.mp hw
              exact hexit w rfl
          | mistake | fault | tooDeep => exact absurd hw List.not_mem_nil
  | skip _ ih => exact ih hv
  | @calls levels _ _ _ h =>
      have hi := h.proper (heval levels) hv
      refine ⟨hi.sealed, fun w hw => ?_⟩
      rcases List.mem_cons.mp hw with rfl | hw
      · exact hi.function
      rcases List.mem_cons.mp hw with rfl | hw
      · exact hi.receiver
      · exact hi.arguments w hw
  | @passes levels _ _ _ h => exact ⟨h.sealed (heval levels) hv, nofun⟩
  | @part levels _ _ _ _ _ hp _ ih => exact ih (hp.proper (heval levels) hv)

/-- A run of a plain program begins properly. -/
theorem Visit.proper_start {program : Node} (h : program.Plain) :
    (start program).Proper (start program).frame :=
  ⟨h, Store.sealed_addGlobal, Store.sealed_addGlobal.isFrame⟩

/-- Whether a value is handed over at a moment, or an object holds it: in an entry, or to answer
calls. -/
def Moment.Has (m : Moment) (v : Value) : Prop :=
  v ∈ m.values ∨ ∃ r o, m.store.object? r = some o ∧
    ((∃ name, (name, v) ∈ o.entries) ∨ o.action = some (.constant v))

/-- Whether local frames are kept from scripts at a moment, when the global frame is `g`. -/
structure Moment.LeakFree (g : Ref) (m : Moment) : Prop where
  /-- No frame but the global one is a value. -/
  frames : ∀ r, m.Has (.object r) → m.store.IsFrame r → r = g
  /-- An object that is a value has no parent. -/
  parentless : ∀ r, m.Has (.object r) → ∃ o, m.store.object? r = some o ∧ o.parent = none
  /-- Reading a field of such an object reads its own fields only. -/
  reads : ∀ r, m.Has (.object r) → ∀ name,
    m.store.read r name = (m.store.own? r name).getD .undefined
  /-- A node that is a value has no object in its literals. -/
  nodes : ∀ n, m.Has (.node n) → n.Plain
  /-- A function remembers a frame that is older than itself. -/
  homes : ∀ f parameters body home, m.store.action? f = some (.closure parameters body home) →
    m.store.IsFrame home ∧ home.index < f.index
  /-- What has a parent is a frame, and its parent is an older one. -/
  parents : ∀ r o p, m.store.object? r = some o → o.parent = some p →
    m.store.IsFrame r ∧ m.store.IsFrame p ∧ p.index < r.index
  /-- Every frame but the global one has a parent. -/
  locals : ∀ r o, m.store.object? r = some o → o.IsFrame → r = g ∨ o.parent.isSome
  /-- Going up from a frame ends in the global frame. -/
  chains : ∀ r, m.store.IsFrame r → (m.store.chain r).getLast? = some g

/-- Whatever there is at a proper moment, a script may get hold of. -/
theorem Moment.Proper.public_of_has {g : Ref} {m : Moment} (h : m.Proper g) {v : Value}
    (hv : m.Has v) : m.store.Public v := by
  obtain hv | ⟨r, o, ho, ⟨name, hentry⟩ | hconstant⟩ := hv
  · exact h.values v hv
  · exact (h.sealed.holds r o ho).entries (name, v) hentry
  · exact (h.sealed.holds r o ho).constant v hconstant

theorem Moment.Proper.leakFree {g : Ref} {m : Moment} (h : m.Proper g) : m.LeakFree g where
  frames := fun r hr hf => h.sealed.eq_of_public (h.public_of_has hr) hf
  parentless := fun r hr => h.public_of_has hr
  reads := fun r hr name => by
    obtain ⟨o, ho, hp⟩ := h.public_of_has hr
    exact Store.read_of_parent_eq_none ho hp name
  nodes := fun n hn => h.public_of_has hn
  homes := fun f parameters body home ha => by
    obtain ⟨o, ho, hclosure⟩ := Option.bind_eq_some_iff.mp ha
    obtain ⟨hlt, hframe, -⟩ := (h.sealed.holds f o ho).closure parameters body home hclosure
    exact ⟨hframe, hlt⟩
  parents := fun r o p ho hp => by
    obtain ⟨hf, hlt, hframe⟩ := (h.sealed.holds r o ho).parent p hp
    exact ⟨⟨o, ho, hf⟩, hframe, hlt⟩
  locals := fun r o ho hf => by
    cases hp : o.parent with
    | none => exact .inl ((h.sealed.holds r o ho).root hf hp)
    | some p => exact .inr rfl
  chains := fun r hr => h.sealed.getLast?_chain hr

/-- Local frames never leak: at every moment that a run of a program reaches, no frame but the
global one is a value, no value has a parent, and going up from a function or a frame passes older
frames only, up to the global one. -/
theorem leakFree_of_program {source : String} {program : Node}
    (h : Source.program source = .ok program) {stack : Stack} {levels : Nat} {m : Moment}
    (hm : Reaches stack levels 0 (Visit.start program) m) :
    m.LeakFree (Visit.start program).frame :=
  (hm.proper (Visit.proper_start (Source.plain_of_program h))).leakFree

/-- When two calls have ended, the frame of the second is inside that of the first, and neither
has leaked. -/
theorem leakFree_nestedCalls :
    ∃ program result session,
      Source.program "(function(x) { return function() { return x; }; })(1)();" =
        .ok program ∧
      Reaches .standard 80 0 (Visit.start program)
        (.ends (Visit.start program) result session) ∧
      session.store.chain ⟨16⟩ = [⟨16⟩, ⟨14⟩, ⟨0⟩] ∧
      (Moment.ends (Visit.start program) result session).LeakFree ⟨0⟩ := by
  let outcome (program : Node) :=
    (evaluateSpaced .standard 80 0 program ⟨0⟩).runIn (Visit.start program).session
  have hchain :
      (Source.program "(function(x) { return function() { return x; }; })(1)();").toOption.map
        (fun program => (outcome program).2.store.chain ⟨16⟩) = some [⟨16⟩, ⟨14⟩, ⟨0⟩] := by
    decide +kernel
  cases hprogram :
      Source.program "(function(x) { return function() { return x; }; })(1)();" with
  | error e =>
      rw [hprogram] at hchain
      cases hchain
  | ok program =>
      rw [hprogram] at hchain
      have hends : Reaches .standard 80 0 (Visit.start program)
          (.ends (Visit.start program) (outcome program).1 (outcome program).2) := .ends rfl
      exact ⟨program, _, _, rfl, hends, Option.some.inj hchain, leakFree_of_program hprogram hends⟩

end Scriptlet
