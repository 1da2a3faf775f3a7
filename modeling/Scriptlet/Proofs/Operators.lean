import Mathlib.Data.List.Basic
import Scriptlet.Execution
import Scriptlet.Proofs.Guarded

/-!
# Operators Are Out of Reach

A script can neither redefine nor misuse an operator. At every moment of a run, every frame reads
the symbol of an operator as the function that was installed for it, and whenever such a function
is called it is given two arguments. So an operator never lacks an operand, and a mistake in which
an operator node ends was made in one of its operands.

The store stays guarded because a regular node sets ordinary names only and because its value is
no operator's function; only what an operator node calls has such a value, and it is called at
once.

## Main definitions

* `Node.Yields`: how the evaluation of a node may end.
* `Fault.OfOperands`: the faults that operands may be to blame for.
* `Visit.Guarded`, `KeepsGuarded`: what is assumed, and shown, of evaluations.

## Main results

* `Invokes.guarded`: what a regular visit calls, and with how many arguments.
* `keepsGuarded_evaluateSpaced`: an evaluation keeps the store guarded.
* `operators_of_program`: no run of a program redefines or misuses an operator.
-/

namespace Scriptlet

/-- How the evaluation of a node may end: with an ordinary value, unless the node is a symbol, and
not for want of an operand. -/
def Node.Yields (n : Node) : Except Exit Value → Prop
  | .ok x => x.Ordinary ∨ ∃ (op : Operator) (place : Int),
      n = .name op.symbol place ∧ x = .object op.installed
  | .error (.returned x) => x.Ordinary
  | .error (.fault f) => f ≠ .missingOperand
  | .error _ => True

/-- A visit of a regular node, or of the symbol in an operator node, in a guarded store. -/
structure Visit.Guarded (g : Ref) (v : Visit) : Prop where
  node : v.node.Regular ∨ ∃ (op : Operator) (place : Int), v.node = .name op.symbol place
  store : v.session.store.Guarded g

/-- Whether an evaluation keeps every guarded store guarded. -/
def KeepsGuarded (g : Ref) (run : Node → Ref → Eval Value) : Prop :=
  ∀ v : Visit, v.Proper g → v.Guarded g → ∀ result t,
    (run v.node v.frame).runIn v.session = (result, t) →
      t.store.Guarded g ∧ v.node.Yields result

/-! ### Values -/

/-- The value of a regular node is ordinary. -/
theorem Node.Regular.ordinary {n : Node} {x : Value} (hn : n.Regular) (h : n.Yields (.ok x)) :
    x.Ordinary := by
  rcases h with h | ⟨op, place, rfl, -⟩
  · exact h
  · cases hn with
    | name hname => exact absurd rfl (hname op)

theorem ordinary_this : Ordinary "this" := by
  intro op
  cases op <;> decide

/-- Leaving early is the same for all nodes. -/
theorem Node.Yields.error {n m : Node} {x : Exit} (h : n.Yields (.error x)) :
    m.Yields (.error x) := by
  cases x with
  | returned | fault => exact h
  | mistake | tooDeep => trivial

/-- Any node may end in what is raised. -/
theorem Exit.Raised.yields {x : Exit} (h : x.Raised) (n : Node) : n.Yields (.error x) := by
  cases x with
  | fault f =>
      cases f with
      | oversizedNumeral => exact nofun
      | _ => exact h.elim
  | returned => exact h.elim
  | mistake | tooDeep => trivial

/-- A line does not change what kind of exit it is. -/
theorem Node.Yields.onLine {n : Node} {result : Except Exit Value} (h : n.Yields result)
    (line : Int) : n.Yields (result.mapError (Exit.onLine line)) := by
  cases result with
  | ok x => exact h
  | error x =>
      cases x with
      | mistake m l =>
          cases l with
          | none => trivial
          | some l => trivial
      | returned | fault => exact h
      | tooDeep => trivial

/-! ### Built-in functions -/

/-- Whether an operator with two operands can meet a fault: one of them has the wrong type, or is a
zero that is to divide. A division asks for integers before it asks for magnitudes. -/
def Fault.OfOperands : Fault → Prop
  | notAnInteger .. | notOrdered .. | zeroDivisor => True
  | noMagnitude _ | missingOperand | oversizedNumeral => False

/-- An operator on integers is at fault for its operands. -/
theorem Operator.ofOperands_of_integers {op : Operator} {a b : Value} {f : Fault}
    (h : op.integers a b = .error f) : f.OfOperands := by
  unfold integers at h
  split at h
  · cases h
  · obtain rfl := Except.error.inj h
    trivial
  · obtain rfl := Except.error.inj h
    trivial

/-- So is one that compares. -/
theorem Operator.ofOperands_of_order {op : Operator} {a b : Value} {f : Fault}
    (h : op.order a b = .error f) : f.OfOperands := by
  unfold order at h
  split at h
  · cases h
  · cases h
  · obtain rfl := Except.error.inj h
    trivial

/-- Two operands are at fault by their types, or by a division by zero. -/
theorem Operator.ofOperands_of_apply {op : Operator} {a b : Value} {f : Fault}
    (h : op.apply a b = .error f) : f.OfOperands := by
  cases op with
  | equal | unequal => cases h
  | less | lessEqual | greater | greaterEqual =>
      rw [apply] at h
      rcases ho : order _ a b with f' | o
      · rw [ho] at h
        obtain rfl := Except.error.inj h
        exact ofOperands_of_order ho
      · rw [ho] at h
        cases h
  | plus | minus | times =>
      rw [apply] at h
      rcases hi : integers _ a b with f' | ⟨m, n⟩
      · rw [hi] at h
        obtain rfl := Except.error.inj h
        exact ofOperands_of_integers hi
      · rw [hi] at h
        cases h
  | divide | remainder =>
      rw [apply] at h
      rcases hi : integers _ a b with f' | ⟨m, n⟩
      · rw [hi] at h
        obtain rfl := Except.error.inj h
        exact ofOperands_of_integers hi
      · rw [hi] at h
        simp only [bind, Except.bind, Value.quotient_integer, Value.remainder_integer] at h
        split at h
        · obtain rfl := Except.error.inj h
          trivial
        · cases h

/-- Two operands are never too few. -/
theorem Operator.apply_ne {op : Operator} {a b : Value} {f : Fault}
    (h : op.apply a b = .error f) : f ≠ .missingOperand := by
  rintro rfl
  exact ofOperands_of_apply h

/-- A built-in function answers an ordinary value, and an operator that is given two operands does
not lack one. -/
theorem Builtin.yields_apply {stack : Stack} {levels : Nat} {b : Builtin} {arguments : List Value}
    {s t : Session} {result : Except Exit Value}
    (h : (b.apply stack levels arguments).runIn s = (result, t))
    (hb : ∀ op, b = .operator op → arguments.length = 2) (n : Node) : n.Yields result := by
  cases b with
  | operator op =>
      obtain ⟨x, y, rfl⟩ := List.length_eq_two.mp (hb op rfl)
      rw [runIn_operator, Operator.applyTo] at h
      obtain ⟨rfl, -⟩ := Prod.mk.inj h
      split
      · cases ha : op.apply x y with
        | ok z =>
            obtain ⟨m, rfl⟩ := Operator.exists_integer_of_apply ha
            exact .inl (Value.Plain.ordinary trivial)
        | error f => exact Operator.apply_ne ha
      · trivial
  | print =>
      rcases (cases_of_print h).2 with ⟨rfl, -⟩ | ⟨⟨why, rfl⟩, -⟩
      · exact .inl (Value.Plain.ordinary trivial)
      · exact why.raised_exit.yields n

/-! ### The rule of a node -/

section

variable {g : Ref} {eval : Evaluator} {v w : Visit} {s t : Session}
  {role : Role}

/-- The arguments of a regular call are regular. -/
theorem Prepares.regular {f : Ref} {receiver : Value} {arguments : List Node}
    (h : Prepares eval v f receiver arguments s) (hn : v.node.Regular) :
    ∀ n ∈ arguments, n.Regular := by
  cases h with
  | call =>
      cases hn with
      | operation ha hb => exact List.forall_mem_cons.mpr ⟨ha, List.forall_mem_singleton.mpr hb⟩
      | call _ ha => exact ha
  | callMethod =>
      cases hn with
      | callMethod _ _ ha => exact ha

/-- A part of a regular visit is regular, unless it is the symbol of an operator. -/
theorem Part.guarded (h : Part eval v role w) (hn : v.node.Regular)
    (hw : w.session.store.Guarded g) : w.Guarded g := by
  refine ⟨?_, hw⟩
  cases h with
  | @first v n hfirst =>
      obtain ⟨node, frame, s⟩ := v
      dsimp only at hn hfirst
      cases hn with
      | operation =>
          obtain rfl := Option.some.inj hfirst
          exact .inr ⟨_, _, rfl⟩
      | call h | giveBack h | branch h | field _ h | assignField _ h | callMethod _ h =>
          obtain rfl := Option.some.inj hfirst
          exact .inl h
      | block | literal | name | assign | function | record => cases hfirst
  | statement h =>
      cases hn with
      | block hn => exact .inl (hn _ (List.mem_append_right _ List.mem_cons_self))
  | argument hp h =>
      exact .inl (hp.regular hn _ (List.mem_append_right _ List.mem_cons_self))
  | @body v i parameters body home hi he =>
      have haction : (i.session.enter home (i.names parameters)).store.action? i.function =
          some (.closure parameters body home) :=
        (Store.action?_putAll _ _ _ _).trans (Store.action?_add he.1)
      exact .inl (hw.closure _ _ _ _ haction).1
  | assigned h =>
      cases hn with
      | assign _ hn => exact .inl hn
  | @chosen _ _ _ _ _ b =>
      cases hn with
      | branch _ hq ha =>
          cases b with
          | true => exact .inl hq
          | false => exact .inl ha
  | entry h =>
      cases hn with
      | record hn => exact .inl (hn _ (List.mem_append_right _ List.mem_cons_self))
  | fieldValue h =>
      cases hn with
      | assignField _ _ hv => exact .inl hv

/-- A value that is put under a name is ordinary, and so is the name unless the object is a record
that is being made. -/
theorem Awaits.regular {object : Ref} {name : String} (h : Awaits eval v w object name)
    (hn : v.node.Regular) : w.node.Regular ∧ (Ordinary name ∨ object = v.session.store.fresh) := by
  cases h with
  | assigned h =>
      cases hn with
      | assign hname hn => exact ⟨hn, .inl hname⟩
  | entry h =>
      cases hn with
      | record hn => exact ⟨hn _ (List.mem_append_right _ List.mem_cons_self), .inr rfl⟩
  | fieldValue h =>
      cases hn with
      | assignField hname _ hv => exact ⟨hv, .inl hname⟩

/-- The arguments of a call keep the store guarded and have ordinary values. -/
theorem guarded_runArguments {arguments : List Node} {frame : Ref} {values : List Value}
    (heval : ∀ role, KeepsSealed g (eval role)) (hkeeps : ∀ role, KeepsGuarded g (eval role))
    (hplain : ∀ n ∈ arguments, n.Plain) (hn : ∀ n ∈ arguments, n.Regular)
    (hs : s.store.Sealed g) (hf : s.store.IsFrame frame) (hg : s.store.Guarded g)
    (h : (runArguments eval arguments frame).runIn s = (.ok values, t)) :
    t.store.Guarded g ∧ ∀ x ∈ values, x.Ordinary := by
  induction arguments generalizing s values with
  | nil =>
      obtain ⟨hvalues, rfl⟩ := Prod.mk.inj h
      obtain rfl := Except.ok.inj hvalues
      exact ⟨hg, nofun⟩
  | cons n rest ih =>
      rw [runArguments, List.mapM_cons] at h
      obtain ⟨x, u, hx, h⟩ := Eval.exists_of_runIn_bind_eq_ok h
      obtain ⟨xs, u', hxs, hpure⟩ := Eval.exists_of_runIn_bind_eq_ok h
      obtain ⟨hvalues, rfl⟩ := Prod.mk.inj hpure
      obtain rfl := Except.ok.inj hvalues
      obtain ⟨hpn, hprest⟩ := List.forall_mem_cons.mp hplain
      obtain ⟨hrn, hrrest⟩ := List.forall_mem_cons.mp hn
      have hproper : Visit.Proper g ⟨n, frame, s⟩ := ⟨hpn, hs, hf⟩
      obtain ⟨hst, hu, -⟩ := (heval .argument _ hproper).of_ok hx
      obtain ⟨hgu, hyields⟩ := hkeeps .argument _ hproper ⟨.inl hrn, hg⟩ _ _ hx
      obtain ⟨hgt, hordinary⟩ := ih hprest hrrest hu (hf.mono hst) hgu hxs
      exact ⟨hgt, List.forall_mem_cons.mpr ⟨hrn.ordinary hyields, hordinary⟩⟩

/-- What a regular visit is about to call: an operator with two arguments, or what is none. -/
theorem Prepares.guarded {f : Ref} {receiver : Value} {arguments : List Node}
    (h : Prepares eval v f receiver arguments s) (hkeeps : ∀ role, KeepsGuarded g (eval role))
    (hv : v.Proper g) (hn : v.node.Regular) (hg : v.session.store.Guarded g) :
    s.store.Guarded g ∧ receiver.Ordinary ∧
      ((Value.object f).Ordinary ∨
        arguments.length = 2 ∧ ∃ op : Operator, f = op.installed) := by
  obtain ⟨hplain, hs, hf⟩ := hv
  cases h with
  | call h =>
      obtain ⟨x, u, hx, hrequired⟩ := Eval.exists_of_runIn_bind_eq_ok h
      obtain ⟨rfl, ⟨r, rfl, hr⟩ | ⟨y, hy, -⟩⟩ := cases_of_requireFunction hrequired
      · obtain rfl := Except.ok.inj hr
        cases hplain with
        | call hc _ =>
            cases hn with
            | operation =>
                obtain ⟨hgu, hyields⟩ := hkeeps .operand ⟨_, _, _⟩ ⟨hc, hs, hf⟩
                  ⟨.inr ⟨_, _, rfl⟩, hg⟩ _ _ hx
                refine ⟨hgu, fun _ => nofun, hyields.imp_right ?_⟩
                rintro ⟨op, place, -, hr⟩
                exact ⟨rfl, op, Value.object.inj hr⟩
            | call hcallee =>
                obtain ⟨hgu, hyields⟩ := hkeeps .operand ⟨_, _, _⟩ ⟨hc, hs, hf⟩
                  ⟨.inl hcallee, hg⟩ _ _ hx
                exact ⟨hgu, fun _ => nofun, .inl (hcallee.ordinary hyields)⟩
      · cases hy
  | callMethod ho hf' =>
      obtain ⟨x, u, hx, hrequired⟩ := Eval.exists_of_runIn_bind_eq_ok ho
      obtain ⟨rfl, ⟨object, rfl, hr⟩ | ⟨y, hy, -⟩⟩ := cases_of_requireObject hrequired
      · obtain rfl := Except.ok.inj hr
        obtain ⟨rfl, ⟨method, hmethod, hr⟩ | ⟨y, hy, -⟩⟩ := cases_of_requireMethod hf'
        · obtain rfl := Except.ok.inj hr
          cases hplain with
          | callMethod hreceiver _ =>
              cases hn with
              | callMethod hname hregular _ =>
                  obtain ⟨hgu, hyields⟩ := hkeeps .operand ⟨_, _, _⟩ ⟨hreceiver, hs, hf⟩
                    ⟨.inl hregular, hg⟩ _ _ hx
                  refine ⟨hgu, hregular.ordinary hyields, .inl ?_⟩
                  rw [← hmethod]
                  exact hgu.ordinary_read _ hname
        · cases hy
      · cases hy

/-- What a regular visit calls: an operator with two arguments, or what is none. -/
theorem Invokes.guarded {i : Invocation} (h : Invokes eval v i)
    (heval : ∀ role, KeepsSealed g (eval role)) (hkeeps : ∀ role, KeepsGuarded g (eval role))
    (hv : v.Proper g) (hn : v.node.Regular) (hg : v.session.store.Guarded g) :
    i.session.store.Guarded g ∧ i.receiver.Ordinary ∧ (∀ x ∈ i.arguments, x.Ordinary) ∧
      ((Value.object i.function).Ordinary ∨
        i.arguments.length = 2 ∧ ∃ op : Operator, i.function = op.installed) := by
  cases h with
  | intro hp ha =>
      obtain ⟨hst, hs, -, -, hplain⟩ := hp.proper heval hv
      obtain ⟨hgs, hreceiver, hfunction⟩ := hp.guarded hkeeps hv hn hg
      obtain ⟨hgt, hvalues⟩ := guarded_runArguments heval hkeeps hplain (hp.regular hn) hs
        (hv.frame.mono hst) hgs ha
      refine ⟨hgt, hreceiver, hvalues, hfunction.imp_right fun ⟨hlength, hop⟩ => ⟨?_, hop⟩⟩
      rw [← hlength]
      exact length_of_runArguments ha

/-- A step of a regular visit keeps the store guarded. -/
theorem Step.guarded (h : Step eval v s t) (heval : ∀ role, KeepsSealed g (eval role))
    (hkeeps : ∀ role, KeepsGuarded g (eval role)) (hv : v.Proper g) (hn : v.node.Regular)
    (hg : v.session.store.Guarded g) (hs : s.store.Guarded g) : t.store.Guarded g := by
  cases h with
  | @part v w role result t hp hw =>
      exact (hkeeps role w (hp.proper heval hv) (hp.guarded hn hs) _ _ hw).1
  | @put v w object name x t hp hw =>
      obtain ⟨hregular, hname⟩ := hp.regular hn
      have hproper := hp.part.proper heval hv
      obtain ⟨hgt, hyields⟩ := hkeeps .operand w hproper ⟨.inl hregular, hs⟩ _ _ hw
      obtain ⟨hgrows, hsealed, -⟩ := (heval .operand w hproper).of_ok hw
      refine hgt.put (hregular.ordinary hyields) (hname.imp_right ?_)
      rintro rfl
      refine ⟨hv.sealed.isFrame.ne_fresh.symm, fun hframe => ?_⟩
      rcases hp.frame_or_public heval hv with hfresh | hpublic
      · exact hv.frame.ne_fresh hfresh.symm
      · exact hv.sealed.isFrame.ne_fresh
          (hsealed.eq_of_public (hpublic.mono hgrows) hframe).symm
  | function =>
      cases hn with
      | function _ hp hb => exact hs.add_closure _ hb hp _
  | named =>
      cases hn with
      | function hname hp hb => exact hs.put hg.ordinary_fresh (.inl (hname _ rfl))
  | record => exact hs.add_passive rfl rfl
  | this => exact hs.put hg.ordinary_fresh (.inl ordinary_this)
  | @enter v i parameters body home names hi he hnames =>
      obtain ⟨-, hreceiver, hvalues, -⟩ := hi.guarded heval hkeeps hv hn hg
      refine (hs.add_passive rfl rfl).putAll _ fun p hp => ?_
      rcases List.mem_cons.mp (hnames.subset hp) with rfl | hp
      · exact ⟨ordinary_this, hreceiver⟩
      · obtain ⟨hparameter, hvalue⟩ := List.of_mem_zip hp
        exact ⟨(hs.closure _ _ _ _ he.1).2 _ hparameter, hvalues _ hvalue⟩
  | builtin hi _ hr =>
      rw [Builtin.store_apply hr]
      exact hs

/-- The operators stay in place in all that a rule does. -/
theorem Course.guarded (h : Course eval v s t) (heval : ∀ role, KeepsSealed g (eval role))
    (hkeeps : ∀ role, KeepsGuarded g (eval role)) (hv : v.Proper g) (hn : v.node.Regular)
    (hg : v.session.store.Guarded g) (hs : s.store.Guarded g) : t.store.Guarded g := by
  induction h with
  | refl => exact hs
  | tail _ hstep ih => exact hstep.guarded heval hkeeps hv hn hg ih

/-- The parts of a regular visit begin in guarded stores. -/
theorem Part.guarded_begin (h : Part eval v role w) (heval : ∀ role, KeepsSealed g (eval role))
    (hkeeps : ∀ role, KeepsGuarded g (eval role)) (hv : v.Proper g) (hn : v.node.Regular)
    (hg : v.session.store.Guarded g) : w.Guarded g :=
  h.guarded hn (h.course.guarded heval hkeeps hv hn hg hg)

/-- A regular visit ends as it may. -/
theorem Ends.yields {result : Except Exit Value} (h : Ends eval v result t)
    (heval : ∀ role, KeepsSealed g (eval role)) (hkeeps : ∀ role, KeepsGuarded g (eval role))
    (hv : v.Proper g) (hn : v.node.Regular) (hg : v.session.store.Guarded g) :
    v.node.Yields result := by
  have hpart {role : Role} {w : Visit} {result : Except Exit Value} {t : Session}
      (hp : Part eval v role w) (hw : (eval role w.node w.frame).runIn w.session = (result, t)) :
      t.store.Guarded g ∧ w.node.Yields result :=
    hkeeps role w (hp.proper heval hv) (hp.guarded_begin heval hkeeps hv hn hg) _ _ hw
  have hinvokes {i : Invocation} (hi : Invokes eval v i) := hi.guarded heval hkeeps hv hn hg
  cases h with
  | undefined => exact .inl fun _ => nofun
  | literal =>
      cases hv.plain with
      | literal hx => exact .inl hx.ordinary
  | name =>
      cases hn with
      | name hname => exact .inl (hg.ordinary_read _ hname)
  | function | record => exact .inl hg.ordinary_fresh
  | field hw =>
      cases hn with
      | field hname _ => exact .inl ((hpart (.first rfl) hw).1.ordinary_read _ hname)
  | value hw =>
      cases hn with
      | field _ hreceiver => exact .inl (hreceiver.ordinary (hpart (.first rfl) hw).2)
  | receiver => exact .inl fun _ => nofun
  | @chosen condition consequence alternative line frame b s t u x hb hw =>
      have hp : Part eval ⟨.branch condition consequence alternative line, frame, s⟩ .operand
          ⟨if b then consequence else alternative, frame, t⟩ := .chosen hb
      cases hn with
      | branch _ hq ha =>
          refine .inl (Node.Regular.ordinary ?_ (hpart hp hw).2)
          cases b with
          | true => exact hq
          | false => exact ha
  | @body v w x t hp hw =>
      refine .inl (Node.Regular.ordinary ?_ (hpart hp hw).2)
      cases hp with
      | body hi he => exact ((hinvokes hi).1.closure _ _ _ _ he.1).1
  | returned hp hw => exact .inl (hpart hp hw).2
  | constant hi ha => exact .inl ((hinvokes hi).1.constant _ _ ha)
  | @builtin v i b result t hi ha hr =>
      obtain ⟨hgi, -, -, hfunction⟩ := hinvokes hi
      refine Builtin.yields_apply hr ?_ _
      rintro op rfl
      rcases hfunction with hordinary | ⟨hlength, -⟩
      · exact absurd (congrArg Value.object (hgi.action _ op ha)) (hordinary op)
      · exact hlength
  | giveBack hw =>
      cases hn with
      | giveBack hvalue => exact hvalue.ordinary (hpart (.first rfl) hw).2
  | exit hp hw _ => exact (hpart hp hw).2.error
  | raised hx => exact hx.yields _

/-! ### Evaluations -/

/-- Reading a name changes nothing. -/
theorem runIn_evaluateSpaced_name (stack : Stack) (levels gap : Nat) (name : String)
    (place : Int) (frame : Ref) (s : Session) :
    (evaluateSpaced stack levels gap (.name name place) frame).runIn s = (.error .tooDeep, s) ∨
      (evaluateSpaced stack levels gap (.name name place) frame).runIn s =
        (.ok (s.store.read frame name), s) := by
  rcases h : (evaluateSpaced stack levels gap (.name name place) frame).runIn s with ⟨result, t⟩
  rcases cases_of_runIn_evaluateSpaced h with ⟨rfl, rfl⟩ | ⟨_, ruled, -, -, hruled, rfl⟩
  · exact .inl rfl
  · obtain ⟨rfl, rfl⟩ := Prod.mk.inj hruled
    exact .inr rfl

/-- An evaluation keeps the store guarded. -/
theorem keepsGuarded_evaluateSpaced (stack : Stack) (levels gap : Nat) :
    KeepsGuarded g (evaluateSpaced stack levels gap) := by
  induction levels generalizing gap with
  | zero =>
      intro v _ hg result t h
      obtain ⟨rfl, rfl⟩ := Prod.mk.inj h
      exact ⟨hg.store, trivial⟩
  | succ levels ih =>
      cases gap with
      | succ gap => exact ih gap
      | zero =>
          rintro ⟨node, frame, s⟩ hv ⟨hn | ⟨op, place, rfl⟩, hg⟩ result t h
          · have heval (role : Role) := seals_evaluateSpaced (g := g) stack levels (stack.part role)
            have hkeeps (role : Role) := ih (stack.part role)
            dsimp only at hn hg h
            rcases cases_of_runIn_evaluateSpaced h with
              ⟨rfl, rfl⟩ | ⟨below, ruled, hbelow, -, hruled, rfl⟩
            · exact ⟨hg, trivial⟩
            obtain rfl : below = levels := by omega
            obtain ⟨hcourse, hends⟩ := course_evaluateWith (v := ⟨node, frame, s⟩) hruled
            exact ⟨hcourse.guarded heval hkeeps hv hn hg hg,
              (hends.yields heval hkeeps hv hn hg).onLine _⟩
          · have hread := hg.read_symbol hv.sealed hv.frame op
            rcases runIn_evaluateSpaced_name stack (levels + 1) 0 op.symbol place frame s
              with hname | hname
            · obtain ⟨rfl, rfl⟩ := Prod.mk.inj (hname.symm.trans h)
              exact ⟨hg, trivial⟩
            · obtain ⟨rfl, rfl⟩ := Prod.mk.inj (hname.symm.trans h)
              exact ⟨hg, .inr ⟨op, place, rfl, hread⟩⟩

/-! ### Moments -/

/-- What is shown of a moment: visits are in frames and end as they may, and calls of operators have
two arguments. -/
def Moment.Lawful : Moment → Prop
  | begins v => v.session.store.IsFrame v.frame
  | calls i => (Value.object i.function).Ordinary ∨
      i.arguments.length = 2 ∧ ∃ op : Operator, i.function = op.installed
  | ends v result _ => v.node.Yields result
  | passes _ => True

/-! A name calls nothing, has no parts and makes no objects. -/

/-- A name calls nothing. -/
theorem Invokes.ne_name {i : Invocation} {name : String} {place : Int} (h : Invokes eval v i) :
    v.node ≠ .name name place := by
  cases h with
  | intro hp =>
      cases hp with
      | call | callMethod => exact nofun

/-- A name has no parts. -/
theorem Part.ne_name {name : String} {place : Int} (h : Part eval v role w) :
    v.node ≠ .name name place := by
  cases h with
  | first h =>
      intro hn
      rw [hn] at h
      cases h
  | argument hp =>
      cases hp with
      | call | callMethod => exact nofun
  | body hi => exact hi.ne_name
  | statement | assigned | chosen | entry | fieldValue => exact nofun

/-- A name passes through no sessions. -/
theorem Passes.ne_name {name : String} {place : Int} (h : Passes eval v s) :
    v.node ≠ .name name place := by
  cases h with
  | function | record => exact nofun
  | frame hi => exact hi.ne_name

/-- Whatever a guarded visit reaches is lawful, and the store is guarded there. -/
theorem Reaches.lawful {stack : Stack} {levels gap : Nat} {m : Moment}
    (h : Reaches stack levels gap v m) (hv : v.Proper g) (hg : v.Guarded g) :
    m.store.Guarded g ∧ m.Lawful := by
  have heval (levels : Nat) (role : Role) : KeepsSealed g (evaluateParts stack levels role) :=
    seals_evaluateSpaced stack levels (stack.part role)
  have hkeeps (levels : Nat) (role : Role) : KeepsGuarded g (evaluateParts stack levels role) :=
    keepsGuarded_evaluateSpaced stack levels (stack.part role)
  induction h with
  | begins => exact ⟨hg.store, hv.frame⟩
  | ends h => exact keepsGuarded_evaluateSpaced _ _ _ _ hv hg _ _ h
  | skip _ ih => exact ih hv hg
  | @calls levels v i _ h =>
      obtain ⟨hn | ⟨op, place, hn⟩, hg⟩ := hg
      · obtain ⟨hgi, -, -, hfunction⟩ := h.guarded (heval levels) (hkeeps levels) hv hn hg
        exact ⟨hgi, hfunction⟩
      · exact absurd hn h.ne_name
  | @passes levels v s _ h =>
      obtain ⟨hn | ⟨op, place, hn⟩, hg⟩ := hg
      · exact ⟨h.course.guarded (heval levels) (hkeeps levels) hv hn hg hg, trivial⟩
      · exact absurd hn h.ne_name
  | @part levels v w role m _ hp _ ih =>
      obtain ⟨hn | ⟨op, place, hn⟩, hg⟩ := hg
      · exact ih (hp.proper (heval levels) hv)
          (hp.guarded_begin (heval levels) (hkeeps levels) hv hn hg)
      · exact absurd hn hp.ne_name

/-- A visit that ends, however deep inside another one: it is evaluated there, and what it reaches
is reached from outside. -/
theorem Reaches.exists_ends {stack : Stack} {levels gap : Nat} {result : Except Exit Value}
    (h : Reaches stack levels gap v (.ends w result s)) (hv : v.Proper g) (hg : v.Guarded g) :
    w.Proper g ∧ w.Guarded g ∧ ∃ levels' gap',
      (evaluateSpaced stack levels' gap' w.node w.frame).runIn w.session = (result, s) ∧
      ∀ m, Reaches stack levels' gap' w m → Reaches stack levels gap v m := by
  have heval (levels : Nat) (role : Role) : KeepsSealed g (evaluateParts stack levels role) :=
    seals_evaluateSpaced stack levels (stack.part role)
  have hkeeps (levels : Nat) (role : Role) : KeepsGuarded g (evaluateParts stack levels role) :=
    keepsGuarded_evaluateSpaced stack levels (stack.part role)
  generalize hm : Moment.ends w result s = m at h
  induction h with
  | begins | calls | passes => cases hm
  | @ends levels gap v result' s' h =>
      obtain ⟨rfl, rfl, rfl⟩ := Moment.ends.inj hm
      exact ⟨hv, hg, levels, gap, h, fun _ hm => hm⟩
  | skip _ ih =>
      obtain ⟨hw, hgw, levels', gap', hends, hreaches⟩ := ih hv hg hm
      exact ⟨hw, hgw, levels', gap', hends, fun m hm => .skip (hreaches m hm)⟩
  | @part levels v w' role m hrule hp _ ih =>
      obtain ⟨hn | ⟨op, place, hn⟩, hg⟩ := hg
      · obtain ⟨hw, hgw, levels', gap', hends, hreaches⟩ := ih (hp.proper (heval levels) hv)
          (hp.guarded_begin (heval levels) (hkeeps levels) hv hn hg) hm
        exact ⟨hw, hgw, levels', gap', hends, fun m hm => .part hrule hp (hreaches m hm)⟩
      · exact absurd hn hp.ne_name

/-! ### Operator nodes -/

/-- If the arguments of a call have no values, one of them has ended early. -/
theorem Prepares.exists_part_of_error {f : Ref} {receiver : Value} {arguments : List Node}
    {x : Exit} (hp : Prepares eval v f receiver arguments s)
    (h : (runArguments eval arguments v.frame).runIn s = (.error x, t)) :
    ∃ w, Part eval v .argument w ∧ w.node ∈ arguments ∧ w.frame = v.frame ∧
      (eval .argument w.node w.frame).runIn w.session = (.error x, t) := by
  obtain ⟨-, herror⟩ := Eval.cases_of_runIn_mapM (R := fun _ _ => True)
    (fun _ _ _ _ _ _ _ _ _ _ => .single trivial) h
  obtain ⟨done, n, rest, values, u, rfl, hdone, hn⟩ := herror x rfl
  exact ⟨⟨n, v.frame, u⟩, .argument hp hdone,
    List.mem_append_right _ List.mem_cons_self, rfl, hn⟩

/-- But for its line, a mistake in which a node ends is one of its rule. -/
theorem exists_of_runIn_evaluateSpaced_eq_mistake {stack : Stack} {levels : Nat} {n : Node}
    {frame : Ref} {m : Mistake} {l : Option Int}
    (h : (evaluateSpaced stack (levels + 1) 0 n frame).runIn s = (.error (.mistake m l), t)) :
    stack.rule n.kind ≤ levels ∧ ∃ l', (evaluateWith (evaluateParts stack levels) n frame).runIn s =
      (.error (.mistake m l'), t) := by
  rcases cases_of_runIn_evaluateSpaced h with ⟨-, hx⟩ | ⟨below, ruled, hbelow, hrule, hruled, hx⟩
  · cases hx
  obtain rfl : below = levels := by omega
  cases ruled with
  | ok x => cases hx
  | error x =>
      obtain ⟨l', rfl⟩ := Exit.exists_of_onLine_eq_mistake (Except.error.inj hx).symm
      exact ⟨hrule, l', hruled⟩

/-- What a visit of an operator node calls: the operator's function, unless even the symbol lies
too deep. -/
theorem prepares_operation {stack : Stack} {levels : Nat} {op : Operator}
    {operands : List Node} {line : Int} {frame : Ref} (hs : s.store.Sealed g)
    (hf : s.store.IsFrame frame) (hg : s.store.Guarded g) :
    (evaluateWith (evaluateParts stack levels) (.operation op.symbol operands line) frame).runIn s
        = (.error .tooDeep, s) ∨
      Prepares (evaluateParts stack levels) ⟨.operation op.symbol operands line, frame, s⟩
        op.installed .undefined operands s := by
  have hread := hg.read_symbol hs hf op
  rcases runIn_evaluateSpaced_name stack levels (stack.part .operand) op.symbol line frame s
    with hname | hname
  · refine .inl ?_
    rw [Node.operation, evaluateWith, Eval.runIn_bind]
    dsimp only [evaluateParts]
    rw [hname]
  · refine .inr (.call ?_)
    dsimp only [evaluateParts]
    rw [Eval.runIn_bind_of_ok hname, hread, requireFunction,
      Eval.runIn_bind_of_ok (Eval.runIn_store s), hg.installed op]
    rfl

/-- An operator that is given two operands makes no mistake. -/
theorem Operator.ne_mistake {stack : Stack} {levels : Nat} {op : Operator}
    {arguments : List Value} {m : Mistake} {l : Option Int} :
    ((Builtin.operator op).apply stack levels arguments).runIn s ≠ (.error (.mistake m l), t) := by
  intro h
  rw [Builtin.runIn_operator] at h
  obtain ⟨h, -⟩ := Prod.mk.inj h
  split at h
  · cases ha : op.applyTo arguments with
    | ok x =>
        rw [ha] at h
        cases h
    | error f =>
        rw [ha] at h
        cases h
  · cases h

/-- An operator node makes no mistake of its own: one in which it ends was made in an operand. -/
theorem exists_operand_of_mistake {stack : Stack} {levels gap : Nat} {op : Operator}
    {operands : List Node} {line : Int} {m : Mistake} {l : Option Int} (hv : v.Proper g)
    (hg : v.Guarded g) (hn : v.node = .operation op.symbol operands line)
    (h : (evaluateSpaced stack levels gap v.node v.frame).runIn v.session =
      (.error (.mistake m l), s)) :
    ∃ w l', w.node ∈ operands ∧ w.frame = v.frame ∧
      Reaches stack levels gap v (.ends w (.error (.mistake m l')) s) := by
  induction levels generalizing gap with
  | zero => cases (Prod.mk.inj h).1
  | succ levels ih =>
      cases gap with
      | succ gap =>
          obtain ⟨w, l', hw, hf, hreaches⟩ := ih h
          exact ⟨w, l', hw, hf, .skip hreaches⟩
      | zero =>
          have hkeeps (role : Role) : KeepsGuarded g (evaluateParts stack levels role) :=
            keepsGuarded_evaluateSpaced stack levels (stack.part role)
          have heval (role : Role) : KeepsSealed g (evaluateParts stack levels role) :=
            seals_evaluateSpaced stack levels (stack.part role)
          obtain ⟨node, frame, u⟩ := v
          obtain rfl : node = .operation op.symbol operands line := hn
          obtain ⟨hn | ⟨_, _, hn⟩, hgu⟩ := hg
          · obtain ⟨hrule, l', h⟩ := exists_of_runIn_evaluateSpaced_eq_mistake h
            rcases prepares_operation hv.sealed hv.frame hgu with hdeep | hp
            · cases (Prod.mk.inj (hdeep.symm.trans h)).1
            · rw [hp.runIn_evaluateWith] at h
              rcases Eval.cases_of_runIn_bind h with ⟨x, ha, hx⟩ | ⟨values, t, ha, hcall⟩
              · obtain rfl := Except.error.inj hx
                obtain ⟨w, hw, hnode, hframe, hends⟩ := hp.exists_part_of_error ha
                exact ⟨w, l', hnode, hframe, .part hrule hw (.ends hends)⟩
              · rcases cases_of_invoke hcall with ⟨-, hdeep⟩ | ⟨hroom, hcall⟩
                · cases hdeep
                -- the operator is called, and that makes no mistake
                have hi : Invokes (evaluateParts stack levels)
                    ⟨.operation op.symbol operands line, frame, u⟩
                    ⟨op.installed, .undefined, values, t⟩ := .intro hp ha hroom
                have hgt := (hi.guarded heval hkeeps hv hn hgu).1
                have happly := runIn_call_of_builtin (evaluateParts stack levels)
                  (hgt.installed op)
                exact absurd (happly.symm.trans hcall) Operator.ne_mistake
          · cases hn

end

/-! ### Runs of a program -/

/-- What holds of the operators at a moment that is reached from the visit `start`. -/
structure Moment.OutOfReach (stack : Stack) (levels : Nat) (start : Visit) (m : Moment) : Prop where
  /-- Code runs in frames. -/
  frame : ∀ v, m = .begins v → m.store.IsFrame v.frame
  /-- Every frame reads the symbol of an operator as the function that was installed for it. -/
  reads : ∀ r, m.store.IsFrame r → ∀ op : Operator,
    m.store.read r op.symbol = .object op.installed
  /-- That function still computes the operator. -/
  installed : ∀ op : Operator, m.store.action? op.installed = some (.builtin (.operator op))
  /-- Whatever computes an operator is given two operands. -/
  operands : ∀ i op, m = .calls i →
    m.store.action? i.function = some (.builtin (.operator op)) → i.arguments.length = 2
  /-- No operand is missing. -/
  missing : ∀ v s, m ≠ .ends v (.error (.fault .missingOperand)) s
  /-- A mistake in which an operator node ends was made in one of its operands. -/
  mistakes : ∀ v (op : Operator) nodes line mistake l s,
    v.node = .operation op.symbol nodes line → m = .ends v (.error (.mistake mistake l)) s →
      ∃ w l', w.node ∈ nodes ∧ w.frame = v.frame ∧
        Reaches stack levels 0 start (.ends w (.error (.mistake mistake l')) s)

/-- At every moment of a visit the operators are out of reach. -/
theorem Reaches.outOfReach {g : Ref} {stack : Stack} {levels : Nat} {start : Visit} {m : Moment}
    (hm : Reaches stack levels 0 start m) (hv : start.Proper g) (hg : start.Guarded g) :
    m.OutOfReach stack levels start where
  frame := by
    rintro v rfl
    exact (hm.lawful hv hg).2
  reads := fun r hr op => (hm.lawful hv hg).1.read_symbol (hm.proper hv).sealed hr op
  installed := (hm.lawful hv hg).1.installed
  operands := by
    rintro i op rfl ha
    obtain ⟨hstore, hordinary | ⟨hlength, -⟩⟩ := hm.lawful hv hg
    · exact absurd (congrArg Value.object (hstore.action _ op ha)) (hordinary op)
    · exact hlength
  missing := by
    rintro v s rfl
    exact (hm.lawful hv hg).2 rfl
  mistakes := by
    rintro v op nodes line mistake l s hn rfl
    obtain ⟨hproper, hguarded, levels', gap', hends, hreaches⟩ := hm.exists_ends hv hg
    obtain ⟨w, l', hw, hframe, hmistake⟩ := exists_operand_of_mistake hproper hguarded hn hends
    exact ⟨w, l', hw, hframe, hreaches _ hmistake⟩

/-- No script redefines or misuses an operator. Every frame reads the symbol of an operator as the
function that was installed for it, whatever calls that function gives it two operands, and an
operator node ends in no mistake but one that was made in an operand. So no run ends for want of an
operand. -/
theorem operators_of_program {source : String} {program : Node}
    (h : Source.program source = .ok program) :
    (∀ op : Operator, (Visit.start program).session.store.own? (Visit.start program).frame
      op.symbol = some (.object op.installed)) ∧
    (∀ stack levels m, Reaches stack levels 0 (Visit.start program) m →
      m.OutOfReach stack levels (Visit.start program)) ∧
    (∀ stack levels, ((inOwnGlobal stack levels program).runIn .empty).1 ≠
      .error (.fault .missingOperand)) ∧
    ∀ on : Platform, (execute on source).ending ≠ .faulted .missingOperand := by
  have hv := Visit.proper_start (Source.plain_of_program h)
  have hg : (Visit.start program).Guarded (Visit.start program).frame :=
    ⟨.inl (Source.regular_of_program h), Store.guarded_addGlobal⟩
  have hmissing (stack : Stack) (levels : Nat) :
      ((inOwnGlobal stack levels program).runIn .empty).1 ≠ .error (.fault .missingOperand) := by
    intro hfault
    rcases exit_of_inOwnGlobal hfault with hx | ⟨⟨t, hends⟩, -⟩
    · cases hx
    · have hm : Reaches stack levels 0 (Visit.start program) (.ends _ _ t) := .ends hends
      exact (hm.outOfReach hv hg).missing _ _ rfl
  refine ⟨Store.guarded_addGlobal.own, fun _ _ m hm => hm.outOfReach hv hg, hmissing, ?_⟩
  intro on hending
  rcases cases_of_execute on source with ⟨why, -, he⟩ | ⟨program', -, hprogram', he⟩
  · rw [he] at hending
    cases why <;> cases hending
  obtain rfl := Except.ok.inj (hprogram'.symm.trans h)
  rw [he, ending_executeProgram] at hending
  refine hmissing on.stack on.limit ?_
  rcases hresult : ((inOwnGlobal on.stack on.limit program').runIn .empty).1 with x | _
  · rw [hresult] at hending
    cases x with
    | fault f =>
        obtain rfl := Ending.faulted.inj hending
        rfl
    | returned | mistake | tooDeep => cases hending
  · rw [hresult] at hending
    cases hending

/-- In this run a record has a symbol as a key, and an operand makes a mistake. The frame of the
call reads the symbol as the operator's function, and no operand is missing. -/
theorem operators_symbolAsKey :
    ∃ program result session,
      Source.program "(\x7b\"+\": 1\x7d); (function(a) { return a + b(); })(1);" = .ok program ∧
      Reaches .standard 80 0 (Visit.start program)
        (.ends (Visit.start program) result session) ∧
      session.store.names ⟨13⟩ = ["+", "this"] ∧ session.store.names ⟨15⟩ = ["this", "a"] ∧
      session.store.read ⟨15⟩ "+" = .object Operator.plus.installed ∧
      ((inOwnGlobal .standard 80 program).runIn .empty).1 ≠ .error (.fault .missingOperand) := by
  let outcome (program : Node) :=
    (evaluateSpaced .standard 80 0 program ⟨0⟩).runIn (Visit.start program).session
  let look (s : Store) := (s.names ⟨13⟩, s.names ⟨15⟩,
    (s.object? ⟨15⟩).map fun o => (o.name, o.action.isNone))
  have hlook :
      (Source.program "(\x7b\"+\": 1\x7d); (function(a) { return a + b(); })(1);").toOption.map
        (fun program => look (outcome program).2.store) =
        some (["+", "this"], ["this", "a"], some ("env", true)) := by
    decide +kernel
  cases hprogram : Source.program "(\x7b\"+\": 1\x7d); (function(a) { return a + b(); })(1);" with
  | error e =>
      rw [hprogram] at hlook
      cases hlook
  | ok program =>
      rw [hprogram] at hlook
      have hends : Reaches .standard 80 0 (Visit.start program)
          (.ends (Visit.start program) (outcome program).1 (outcome program).2) := .ends rfl
      obtain ⟨hrecord, hframe⟩ := Prod.mk.inj (Option.some.inj hlook)
      obtain ⟨hnames, hobject⟩ := Prod.mk.inj hframe
      obtain ⟨o, ho, hkind⟩ := Option.map_eq_some_iff.mp hobject
      obtain ⟨hname, haction⟩ := Prod.mk.inj hkind
      obtain ⟨-, hmoments, hmissing, -⟩ := operators_of_program hprogram
      have hread := (hmoments .standard 80 _ hends).reads ⟨15⟩
        ⟨o, ho, hname, Option.isNone_iff_eq_none.mp haction⟩ .plus
      exact ⟨program, _, _, rfl, hends, hrecord, hnames, hread, hmissing .standard 80⟩

end Scriptlet
