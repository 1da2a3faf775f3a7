import Scriptlet.Proofs.Turn

/-!
# Captured Variables

A function reads the variables of the frame in which it was made, but no call of it, and of no
other function either, changes them: a call changes no frame that was there before it, apart from
the global one. So once the body of a function has been left, the frame of that activation stays
as it is for the rest of the run, however many functions that were made in it are called.

The rest of the run is what comes later in the visit that made the call, or in any visit around
it; `After` says so by the turns of the parts.

## Main definitions

* `Activates`: a call in a visit, at any depth, and the session in which the body is left.
* `After`: what happens in a visit after that.

## Main results

* `After.object?_eq`: the frame of an activation that has ended stays the same.
* `captured_of_program`: no call in a run of a program changes a captured variable.
-/

namespace Scriptlet

/-! ### After an activation -/

/-- A call that a visit makes, at any depth, and the session in which its body is left. -/
inductive Activates (stack : Stack) :
    (levels gap : Nat) → Visit → Invocation → Session → Prop
  | skip {levels gap : Nat} {v : Visit} {i : Invocation} {t : Session}
      (h : Activates stack levels gap v i t) : Activates stack (levels + 1) (gap + 1) v i t
  | body {levels : Nat} {v : Visit} {i : Invocation} {parameters : List String} {body : Node}
      {home : Ref} {result : Except Exit Value} {t : Session}
      (hrule : stack.rule v.node.kind ≤ levels) (hi : Invokes (evaluateParts stack levels) v i)
      (he : i.Enters parameters body home)
      (h : (evaluateParts stack levels .body body i.session.store.fresh).runIn
        (i.session.enter home (i.names parameters)) = (result, t)) :
      Activates stack (levels + 1) 0 v i t
  | part {levels : Nat} {v w : Visit} {role : Role} {i : Invocation} {t : Session}
      (hrule : stack.rule v.node.kind ≤ levels) (hp : Part (evaluateParts stack levels) v role w)
      (h : Activates stack levels (stack.part role) w i t) : Activates stack (levels + 1) 0 v i t

/-- What happens in a visit after the body of a call in it has been left: in the part that made
the call, in the parts whose turn comes later, among the visit's own moments, and at its end. -/
inductive After (stack : Stack) :
    (levels gap : Nat) → Visit → Invocation → Session → Moment → Prop
  | skip {levels gap : Nat} {v : Visit} {i : Invocation} {t : Session} {m : Moment}
      (h : After stack levels gap v i t m) : After stack (levels + 1) (gap + 1) v i t m
  | part {levels : Nat} {v w : Visit} {role : Role} {i : Invocation} {t : Session} {m : Moment}
      (hrule : stack.rule v.node.kind ≤ levels) (hp : Part (evaluateParts stack levels) v role w)
      (h : After stack levels (stack.part role) w i t m) : After stack (levels + 1) 0 v i t m
  | later {levels k k' : Nat} {v w w' : Visit} {role role' : Role} {i : Invocation} {t : Session}
      {m : Moment} (hrule : stack.rule v.node.kind ≤ levels)
      (hk : Turn (evaluateParts stack levels) v k role w)
      (ha : Activates stack levels (stack.part role) w i t)
      (hk' : Turn (evaluateParts stack levels) v k' role' w') (hlt : k < k')
      (h : Reaches stack levels (stack.part role') w' m) : After stack (levels + 1) 0 v i t m
  | marks {levels k k' : Nat} {v w : Visit} {role : Role} {i : Invocation} {t : Session}
      {m : Moment} (hrule : stack.rule v.node.kind ≤ levels)
      (hk : Turn (evaluateParts stack levels) v k role w)
      (ha : Activates stack levels (stack.part role) w i t)
      (hm : Marks (evaluateParts stack levels) v k' m) (hlt : k < k') :
      After stack (levels + 1) 0 v i t m
  | ends {levels gap : Nat} {v : Visit} {i : Invocation} {t s : Session}
      {result : Except Exit Value} (ha : Activates stack levels gap v i t)
      (h : (evaluateSpaced stack levels gap v.node v.frame).runIn v.session = (result, s)) :
      After stack levels gap v i t (.ends v result s)

section

variable {stack : Stack} {levels gap : Nat} {v : Visit} {i : Invocation} {t : Session}
  {g : Ref}

/-- The frame of an activation is younger than the visit around it. -/
theorem Activates.isFrame (h : Activates stack levels gap v i t) (hv : v.Proper g) :
    v.session.store.Grows i.session.store ∧ t.store.IsFrame i.session.store.fresh := by
  have heval (levels : Nat) (role : Role) : KeepsSealed g (evaluateParts stack levels role) :=
    seals_evaluateSpaced stack levels (stack.part role)
  induction h with
  | skip _ ih => exact ih hv
  | @body levels v i parameters body home result t _ hi he h =>
      have hproper := (hi.proper (heval levels) hv).body he
      have hgrows := (heval levels .body _ hproper).grows
      rw [h] at hgrows
      exact ⟨(hi.course.grows (accumulates_evaluateParts stack levels)).store,
        hproper.frame.mono hgrows⟩
  | @part levels v w role i t _ hp _ ih =>
      obtain ⟨hgrows, hframe⟩ := ih (hp.proper (heval levels) hv)
      have hcourse := hp.course.grows (accumulates_evaluateParts stack levels)
      exact ⟨hcourse.store.trans hgrows, hframe⟩

/-- The frame of an activation is none of those that were there before. -/
theorem Activates.ne_of_isFrame (h : Activates stack levels gap v i t) (hv : v.Proper g) {r : Ref}
    (hr : v.session.store.IsFrame r) : i.session.store.fresh ≠ r :=
  (hr.mono (h.isFrame hv).1).ne_fresh.symm

/-- How a visit ends that has a level to itself. -/
theorem exists_of_runIn_evaluateSpaced {levels : Nat} {result : Except Exit Value} {e : Session}
    (hrule : stack.rule v.node.kind ≤ levels)
    (h : (evaluateSpaced stack (levels + 1) 0 v.node v.frame).runIn v.session = (result, e)) :
    ∃ x, (evaluateWith (evaluateParts stack levels) v.node v.frame).runIn v.session = (x, e) := by
  rw [runIn_evaluateSpaced_succ hrule] at h
  obtain ⟨-, rfl⟩ := Prod.mk.inj h
  exact ⟨_, rfl⟩

/-- The frame of an activation that has ended in a part of a visit: it is none that the visit
itself writes, and where the part has ended it is as the activation has left it. -/
theorem Activates.of_turn {w : Visit} {role : Role} {k : Nat} {x : Except Exit Value} {u : Session}
    (h : Activates stack levels (stack.part role) w i t) (hv : v.Proper g)
    (hk : Turn (evaluateParts stack levels) v k role w)
    (hu : (evaluateParts stack levels role w.node w.frame).runIn w.session = (x, u))
    (hkept : u.store.object? i.session.store.fresh = t.store.object? i.session.store.fresh) :
    u.store.IsFrame i.session.store.fresh ∧ i.session.store.fresh ≠ g ∧
      Elsewhere (evaluateParts stack levels) v i.session.store.fresh := by
  have heval (role : Role) : KeepsSealed g (evaluateParts stack levels role) :=
    seals_evaluateSpaced stack levels (stack.part role)
  have hw := hk.part.proper heval hv
  have hframe := (h.isFrame hw).2.of_object?_eq hkept
  have hgrows := accumulates_evaluateParts stack levels
  have hf := h.ne_of_isFrame hw (hv.frame.mono (hk.part.course.grows hgrows).store)
  exact ⟨hframe, h.ne_of_isFrame hw hw.sealed.isFrame,
    hk.elsewhere hu hgrows hframe hf (h.ne_of_isFrame hw hw.frame)⟩

/-- A visit goes on where a part of it has ended, and changes no frame that is elsewhere. -/
theorem Resumes.object?_eq {w : Visit} {u u' e : Session}
    (h : Resumes (evaluateParts stack levels) v w u u')
    (hcourse : Course (evaluateParts stack levels) v u' e) (hv : v.Proper g) {r : Ref}
    (hr : u.store.IsFrame r) (hg : r ≠ g) (he : Elsewhere (evaluateParts stack levels) v r) :
    e.store.object? r = u.store.object? r := by
  have heval (role : Role) : KeepsSealed g (evaluateParts stack levels role) :=
    seals_evaluateSpaced stack levels (stack.part role)
  cases h with
  | same => exact hcourse.object?_eq_of_parts hv hr hg he
  | put hp hw =>
      have hput := hp.object?_eq hw heval hv hr hg he.1
      exact (hcourse.object?_eq_of_parts hv (hr.of_object?_eq hput) hg he).trans hput

/-- Where a visit ends, the frame of an activation in it is as the activation has left it. -/
theorem Activates.object?_eq (h : Activates stack levels gap v i t) (hv : v.Proper g)
    {result : Except Exit Value} {e : Session}
    (hend : (evaluateSpaced stack levels gap v.node v.frame).runIn v.session = (result, e)) :
    e.store.object? i.session.store.fresh = t.store.object? i.session.store.fresh := by
  induction h generalizing result e with
  | skip _ ih => exact ih hv hend
  | body hrule hi he h =>
      obtain ⟨x, hx⟩ := exists_of_runIn_evaluateSpaced hrule hend
      rw [hi.session_eq he h hx]
  | @part levels v w role i t hrule hp h ih =>
      have heval (role : Role) : KeepsSealed g (evaluateParts stack levels role) :=
        seals_evaluateSpaced stack levels (stack.part role)
      obtain ⟨k, hk⟩ := hp.exists_turn
      obtain ⟨y, hy⟩ := exists_of_runIn_evaluateSpaced hrule hend
      rcases hu : (evaluateParts stack levels role w.node w.frame).runIn w.session with ⟨x, u⟩
      have hkept := ih (hp.proper heval hv) hu
      obtain ⟨hframe, hg, helsewhere⟩ := h.of_turn hv hk hu hkept
      obtain ⟨u', hresumes, hcourse⟩ := hk.course_end hu hy
      exact (hresumes.object?_eq hcourse hv hframe hg helsewhere).trans hkept

/-- The frame of an activation that has ended stays the same. -/
theorem After.object?_eq {m : Moment} (h : After stack levels gap v i t m) (hv : v.Proper g) :
    m.store.object? i.session.store.fresh = t.store.object? i.session.store.fresh := by
  have heval (levels : Nat) (role : Role) : KeepsSealed g (evaluateParts stack levels role) :=
    seals_evaluateSpaced stack levels (stack.part role)
  induction h with
  | skip _ ih => exact ih hv
  | @part levels v w role i t m _ hp _ ih => exact ih (hp.proper (heval levels) hv)
  | ends ha h => exact ha.object?_eq hv h
  | @later levels k k' v w w' role role' i t m _ hk ha hk' hlt h =>
      rcases hu : (evaluateParts stack levels role w.node w.frame).runIn w.session with ⟨x, u⟩
      have hkept := ha.object?_eq (hk.part.proper (heval levels) hv) hu
      obtain ⟨hframe, hg, helsewhere⟩ := ha.of_turn hv hk hu hkept
      obtain ⟨u', hresumes, hcourse⟩ := hk.course hu hk' hlt
      have hbegin := hresumes.object?_eq hcourse hv hframe hg helsewhere
      have hne : i.session.store.fresh ≠ w'.frame := by
        rcases hk'.part.frame_eq with hw | ⟨i', hi, hw⟩
        · exact hw ▸ helsewhere.1
        · exact hw ▸ helsewhere.2 i' hi
      have hreach := h.object?_eq (hk'.part.proper (heval levels) hv)
        (hframe.of_object?_eq hbegin) hg hne
      exact hreach.trans (hbegin.trans hkept)
  | @marks levels k k' v w role i t m _ hk ha hm hlt =>
      rcases hu : (evaluateParts stack levels role w.node w.frame).runIn w.session with ⟨x, u⟩
      have hkept := ha.object?_eq (hk.part.proper (heval levels) hv) hu
      obtain ⟨hframe, hg, helsewhere⟩ := ha.of_turn hv hk hu hkept
      obtain ⟨u', hresumes, hcourse⟩ := hk.course_marks hu hm hlt
      have hmark := hresumes.object?_eq hcourse hv hframe hg helsewhere
      exact hmark.trans hkept

end

/-- No call changes a captured variable. Whatever a script may get hold of at a moment of a run can
be called with whatever else it may get hold of, and however the call ends, every frame but the
global one is as it was. So the frame of an activation that has ended stays as it is. -/
theorem captured_of_program {source : String} {program : Node}
    (h : Source.program source = .ok program) (stack : Stack) (levels : Nat) :
    (∀ m, Reaches stack levels 0 (Visit.start program) m →
      ∀ (f : Ref) (receiver : Value) (arguments : List Value), m.store.Public (.object f) →
        m.store.Public receiver → (∀ v ∈ arguments, m.store.Public v) →
      ∀ (levels' : Nat) (result : Except Exit Value) (t : Session),
        (call (evaluateParts stack levels') f receiver arguments).runIn m.session = (result, t) →
      ∀ r, m.store.IsFrame r → r ≠ (Visit.start program).frame →
        t.store.object? r = m.store.object? r) ∧
    (∀ (i : Invocation) (t : Session), Activates stack levels 0 (Visit.start program) i t →
      t.store.IsFrame i.session.store.fresh ∧
      ∀ m, After stack levels 0 (Visit.start program) i t m →
        m.store.object? i.session.store.fresh = t.store.object? i.session.store.fresh) := by
  have hv := Visit.proper_start (Source.plain_of_program h)
  constructor
  · intro m hm f receiver arguments hf hreceiver harguments levels' result t hcall r hr hg
    have hi : Invocation.Proper (Visit.start program).frame ⟨f, receiver, arguments, m.session⟩ :=
      ⟨(hm.proper hv).sealed, hf, hreceiver, harguments⟩
    exact object?_call (keepsIdle_evaluateSpaced stack levels' (stack.part .body)) hi hcall hr hg
  · intro i t hi
    exact ⟨(hi.isFrame hv).2, fun m hm => hm.object?_eq hv⟩

/-! ### A captured variable

In this program a function is made inside another one, whose parameter `x` it captures, and is
called after that one has been left. -/

namespace Capturing

/-- The body of the function that captures `x`. -/
def inner : Node := .block [.giveBack (.name "x" 1) 1] 1

/-- The body of the function whose parameter is `x`. -/
def outer : Node := .block [.giveBack (.function none [] inner 1) 1] 1

/-- The first call. -/
def first : Node := .call (.function none ["x"] outer 1) [.constant (.integer 1) 1] 1

def program : Node := .block [.call first [] 1] 1

theorem program_eq :
    Source.program "(function(x) { return function() { return x; }; })(1)();" = .ok program := by
  with_unfolding_all rfl

/-- The session in which the first call is made. -/
def made : Session :=
  (Visit.start program).session.add (.function anonymousName (.closure ["x"] outer ⟨0⟩))

def invocation : Invocation := ⟨⟨13⟩, .undefined, [.integer 1], made⟩

/-- The session in which the first call has ended, and the second is made. -/
def left : Session :=
  (made.enter ⟨0⟩ (invocation.names ["x"])).add (.function anonymousName (.closure [] inner ⟨14⟩))

/-- The moment at which the body of the second call begins. -/
def moment : Moment :=
  .begins ⟨inner, left.store.fresh, left.enter ⟨14⟩ [("this", .undefined)]⟩

theorem part : Part (evaluateParts .standard 39) (Visit.start program) .statement
    ⟨.call first [] 1, ⟨0⟩, (Visit.start program).session⟩ :=
  .statement (runIn_runStatements_nil _ _ _)

theorem activates : Activates .standard 38 1 ⟨first, ⟨0⟩, (Visit.start program).session⟩
    invocation left := by
  have hi : Invokes (evaluateParts .standard 36) ⟨first, ⟨0⟩, (Visit.start program).session⟩
      invocation := .intro (.call rfl) rfl rfl
  exact .skip (.body (by decide) hi ⟨rfl, rfl⟩ rfl)

theorem invokes : Invokes (evaluateParts .standard 38)
    ⟨.call first [] 1, ⟨0⟩, (Visit.start program).session⟩ ⟨⟨15⟩, .undefined, [], left⟩ := by
  have hcallee : (evaluateParts .standard 38 .operand first ⟨0⟩ >>=
      requireFunction (evaluateParts .standard 38)).runIn (Visit.start program).session =
        (.ok ⟨15⟩, left) := by
    with_unfolding_all rfl
  exact .intro (.call hcallee) (runIn_runArguments_nil _ _ _) rfl

end Capturing

open Capturing in
/-- The frame of the first call is the same when the body of the second begins, and when the
function that has captured it is then called once more. -/
theorem captured_nestedCalls :
    Activates .standard 40 0 (Visit.start program) invocation left ∧
    invocation.session.store.fresh = ⟨14⟩ ∧ left.store.names ⟨14⟩ = ["this", "x"] ∧
    After .standard 40 0 (Visit.start program) invocation left moment ∧
    moment.store.object? ⟨14⟩ = left.store.object? ⟨14⟩ ∧
    ((call (evaluateParts .standard 40) ⟨15⟩ .undefined []).runIn
      moment.session).2.store.object? ⟨14⟩ = moment.store.object? ⟨14⟩ := by
  have hblock : Stack.standard.rule (Visit.start program).node.kind ≤ 39 := by decide
  have hcall : Stack.standard.rule (Node.call first [] 1).kind ≤ 38 := by decide
  have hsecond := Turn.body invokes ⟨rfl, rfl⟩
  have hstarted : Activates .standard 40 0 (Visit.start program) invocation left :=
    .part hblock part (.part hcall (.first rfl) activates)
  have hlater : After .standard 40 0 (Visit.start program) invocation left moment :=
    .part hblock part (.later hcall (.first rfl) activates hsecond (Nat.lt_succ_self 0) .begins)
  have hreached : Reaches .standard 40 0 (Visit.start program) moment :=
    .part hblock part (.part hcall hsecond.part .begins)
  obtain ⟨hcalls, hends⟩ := captured_of_program program_eq .standard 40
  obtain ⟨hleft, hkept⟩ := hends invocation left hstarted
  have hkept := hkept moment hlater
  have hfunction : left.store.Public (.object ⟨15⟩) := Store.public_fresh _ rfl
  have hgrows : left.store.Grows moment.store :=
    (Store.grows_add _ _).trans (Store.grows_putAll _ _ _)
  have hcalled := hcalls moment hreached ⟨15⟩ .undefined [] (hfunction.mono hgrows) trivial nofun 40
    _ _ (Prod.eta _).symm ⟨14⟩ (hleft.of_object?_eq hkept) (by decide)
  exact ⟨hstarted, rfl, by decide +kernel, hlater, hkept, hcalled⟩

end Scriptlet
