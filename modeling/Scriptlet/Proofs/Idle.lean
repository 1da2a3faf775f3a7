import Scriptlet.Proofs.Accumulation
import Scriptlet.Proofs.Frames

/-!
# Frames at Rest

A frame is written by the visits that have it as their frame, and by no others: a declaration or
an assignment sets a name in the frame of its own visit, a call fills the frame that it has just
made, and whatever else is written is an object that a script may get hold of, which no frame is
but the global one. So a visit leaves every frame alone that was there before it, apart from its
own and the global one, and a call leaves alone all of them.

## Main definitions

* `Elsewhere`: the references that are no frame of a visit.
* `KeepsIdle`: what an evaluation does to frames that are not its own.

## Main results

* `Step.object?_eq`, `Course.object?_eq`: no step of a visit changes a frame that is elsewhere.
* `keepsIdle_evaluateSpaced`: an evaluation changes no frame but its own and the global one.
* `object?_call`: a call changes no frame but the global one.
* `Reaches.object?_eq`: so it is at all moments on the way.
-/

namespace Scriptlet

/-! ### Operations -/

namespace Store

variable {s t : Store} {r : Ref}

theorem IsFrame.object?_add (h : s.IsFrame r) (o : Object) :
    (s.add o).object? r = s.object? r := by
  obtain ⟨o', ho', -⟩ := h
  rw [object?_add_of_object? ho', ho']

theorem IsFrame.ne_fresh (h : s.IsFrame r) : r ≠ s.fresh := by
  rintro rfl
  exact absurd h.index_lt (Nat.lt_irrefl _)

/-- A frame that looks the same later on is still a frame. -/
theorem IsFrame.of_object?_eq (h : s.IsFrame r) (he : t.object? r = s.object? r) :
    t.IsFrame r := by
  obtain ⟨o, ho, hf⟩ := h
  exact ⟨o, he.trans ho, hf⟩

theorem object?_putAll_of_ne {q : Ref} (h : r ≠ q) (pairs : List (String × Value)) :
    (s.putAll q pairs).object? r = s.object? r := by
  induction pairs generalizing s with
  | nil => rfl
  | cons p rest ih => exact (ih (s := s.put q p.1 p.2)).trans (object?_put_of_ne s h p.1 p.2)

/-- A frame that is made inside another one, and filled, is a new one. -/
theorem IsFrame.object?_enter (h : s.IsFrame r) (home : Ref) (pairs : List (String × Value)) :
    ((s.add (.frame home)).putAll s.fresh pairs).object? r = s.object? r :=
  (object?_putAll_of_ne h.ne_fresh pairs).trans (h.object?_add _)

end Store

section

variable (eval : Evaluator)

/-- Whether a reference is neither the frame of a visit nor the one that a call in it makes. -/
def Elsewhere (v : Visit) (r : Ref) : Prop :=
  r ≠ v.frame ∧ ∀ i, Invokes eval v i → r ≠ i.session.store.fresh

end

/-- Whether an evaluation leaves all frames alone that are neither its own nor the global one. -/
def KeepsIdle (g : Ref) (run : Node → Ref → Eval Value) : Prop :=
  ∀ v : Visit, v.Proper g → ∀ r, v.session.store.IsFrame r → r ≠ g → r ≠ v.frame →
    ((run v.node v.frame).runIn v.session).2.store.object? r = v.session.store.object? r

section

variable {g : Ref} {eval : Evaluator} {v w : Visit} {s t : Session}

/-! ### Steps -/

/-- A record that is being filled may be got hold of. -/
theorem sealed_filled {entries : List (String × Node)} {frame : Ref}
    (heval : ∀ role, KeepsSealed g (eval role)) (hn : ∀ e ∈ entries, e.2.Plain)
    (hs : s.store.Sealed g) (hf : s.store.IsFrame frame)
    (h : (runEntries eval entries s.store.fresh frame).runIn (s.add (.record none)) =
      (.ok (), t)) :
    t.store.Sealed g ∧ t.store.Public (.object s.store.fresh) := by
  have hadded : (s.add (.record none)).store.Sealed g := hs.add_record
  have hfilled := seals_runEntries heval hn s.store.fresh hadded
    (hf.mono (s.store.grows_add (.record none)))
  obtain ⟨hst, ht, -⟩ := hfilled.of_ok h
  exact ⟨ht, (s.store.public_fresh (o := .record none) rfl).mono hst⟩

/-- The object in which a visit sets a name is the visit's own frame, or one that a script may get
hold of. -/
theorem Awaits.frame_or_public {object : Ref} {name : String} (h : Awaits eval v w object name)
    (heval : ∀ role, KeepsSealed g (eval role)) (hv : v.Proper g) :
    object = v.frame ∨ w.session.store.Public (.object object) := by
  cases h with
  | assigned h => exact .inl rfl
  | @entry done rest key n line frame s t h =>
      obtain ⟨hplain, hs, hf⟩ := hv
      cases hplain with
      | record hn =>
          exact .inr (sealed_filled heval (fun e he => hn e (List.mem_append_left _ he)) hs hf h).2
  | fieldValue h =>
      obtain ⟨hplain, hs, hf⟩ := hv
      cases hplain with
      | assignField hr hn => exact .inr ((seals_object heval hr hs hf _).of_ok h).2.2

/-- The frame of a part is the frame of the visit, or the one that its call has made. -/
theorem Part.frame_eq {role : Role} (h : Part eval v role w) :
    w.frame = v.frame ∨ ∃ i, Invokes eval v i ∧ w.frame = i.session.store.fresh := by
  cases h with
  | body hi he => exact .inr ⟨_, hi, rfl⟩
  | first | statement | argument | assigned | chosen | entry | fieldValue => exact .inl rfl

/-- What a script may get hold of is no frame but the global one. -/
theorem Store.Sealed.ne_of_public {s : Store} (h : s.Sealed g) {r q : Ref}
    (hq : s.Public (.object q)) (hr : s.IsFrame r) (hg : r ≠ g) : r ≠ q := by
  rintro rfl
  exact hg (h.eq_of_public hq hr)

/-- No part of a visit changes a frame that is elsewhere. -/
theorem Part.object?_eq {role : Role} {result : Except Exit Value} (hp : Part eval v role w)
    (hw : (eval role w.node w.frame).runIn w.session = (result, t))
    (heval : ∀ role, KeepsSealed g (eval role)) (hidle : ∀ role, KeepsIdle g (eval role))
    (hv : v.Proper g) {r : Ref} (hr : w.session.store.IsFrame r) (hg : r ≠ g)
    (he : Elsewhere eval v r) : t.store.object? r = w.session.store.object? r := by
  have hne : r ≠ w.frame := by
    rcases hp.frame_eq with hw | ⟨i, hi, hw⟩
    · exact hw ▸ he.1
    · exact hw ▸ he.2 i hi
  have hkept := hidle role w (hp.proper heval hv) r hr hg hne
  rwa [hw] at hkept

/-- Nor does setting a name to the value of a part. -/
theorem Awaits.object?_eq {object : Ref} {name : String} {x : Value}
    (hp : Awaits eval v w object name)
    (hw : (eval .operand w.node w.frame).runIn w.session = (.ok x, t))
    (heval : ∀ role, KeepsSealed g (eval role)) (hv : v.Proper g) {r : Ref}
    (hr : t.store.IsFrame r) (hg : r ≠ g) (hf : r ≠ v.frame) :
    (t.put object name x).store.object? r = t.store.object? r := by
  have hproper := hp.part.proper heval hv
  obtain ⟨hgrows, hsealed, -⟩ := (heval .operand w hproper).of_ok hw
  refine Store.object?_put_of_ne _ ?_ name x
  rcases hp.frame_or_public heval hv with rfl | hpublic
  · exact hf
  · exact hsealed.ne_of_public (hpublic.mono hgrows) hr hg

/-- No step of a visit changes a frame that is elsewhere. -/
theorem Step.object?_eq (h : Step eval v s t) (heval : ∀ role, KeepsSealed g (eval role))
    (hidle : ∀ role, KeepsIdle g (eval role)) (hv : v.Proper g) {r : Ref}
    (hr : s.store.IsFrame r) (hg : r ≠ g) (he : Elsewhere eval v r) :
    t.store.object? r = s.store.object? r := by
  cases h with
  | part hp hw => exact hp.object?_eq hw heval hidle hv hr hg he
  | @put v w object name x t hp hw =>
      have hpart := hp.part.object?_eq hw heval hidle hv hr hg he
      exact (hp.object?_eq hw heval hv (hr.of_object?_eq hpart) hg he.1).trans hpart
  | function | record => exact hr.object?_add _
  | named => exact Store.object?_put_of_ne _ he.1 _ _
  | @this entries line frame s t h =>
      obtain ⟨hplain, hs, hf⟩ := hv
      cases hplain with
      | record hn =>
          obtain ⟨ht, hpublic⟩ := sealed_filled heval hn hs hf h
          exact Store.object?_put_of_ne _ (ht.ne_of_public hpublic hr hg) _ _
  | enter hi _ _ => exact hr.object?_enter _ _
  | builtin hi _ hresult => rw [Builtin.store_apply hresult]

/-- A frame that is elsewhere stays the same on the course of a visit. -/
theorem Course.object?_eq (h : Course eval v s t) (heval : ∀ role, KeepsSealed g (eval role))
    (hidle : ∀ role, KeepsIdle g (eval role)) (hv : v.Proper g) {r : Ref}
    (hr : s.store.IsFrame r) (hg : r ≠ g) (he : Elsewhere eval v r) :
    t.store.object? r = s.store.object? r := by
  induction h with
  | refl => rfl
  | tail _ hstep ih =>
      have hstill := hr.of_object?_eq ih
      exact (hstep.object?_eq heval hidle hv hstill hg he).trans ih

/-! ### Evaluations -/

/-- A frame that was there before a visit is not the one that a call in the visit makes. -/
theorem elsewhere_of_isFrame (hgrows : ∀ role, Accumulates (eval role)) {r : Ref}
    (hr : v.session.store.IsFrame r) (hf : r ≠ v.frame) : Elsewhere eval v r :=
  ⟨hf, fun _ hi => (hr.mono (hi.course.grows hgrows).store).ne_fresh⟩

/-- An evaluation changes no frame but its own and the global one. -/
theorem keepsIdle_evaluateSpaced (stack : Stack) (levels gap : Nat) :
    KeepsIdle g (evaluateSpaced stack levels gap) := by
  intro v hv r hr hg hf
  refine evaluateSpaced_induction
    (motive := fun _ _ v t => v.Proper g → ∀ r, v.session.store.IsFrame r → r ≠ g → r ≠ v.frame →
      t.store.object? r = v.session.store.object? r)
    (fun _ _ _ _ _ => rfl) id ?_ (Prod.eta _).symm hv r hr hg hf
  intro levels v t hparts hcourse hv r hr hg hf
  have heval (role : Role) := seals_evaluateSpaced (g := g) stack levels (stack.part role)
  have hidle (role : Role) : KeepsIdle g (evaluateParts stack levels role) :=
    fun _ hw => hparts (Prod.eta _).symm hw
  have helsewhere := elsewhere_of_isFrame (accumulates_evaluateParts stack levels) hr hf
  exact hcourse.object?_eq heval hidle hv hr hg helsewhere

/-- A call changes no frame but the global one. -/
theorem object?_call (hidle : KeepsIdle g (eval .body)) {i : Invocation} (hi : i.Proper g)
    {result : Except Exit Value}
    (h : (call eval i.function i.receiver i.arguments).runIn i.session = (result, t)) {r : Ref}
    (hr : i.session.store.IsFrame r) (hg : r ≠ g) :
    t.store.object? r = i.session.store.object? r := by
  rcases cases_of_call h with ⟨rfl, -⟩ | ⟨parameters, body, home, he, hbody⟩ | ⟨b, -, hb⟩ |
    ⟨x, -, -, rfl⟩
  · rfl
  · have henter : (i.session.enter home (i.names parameters)).store.object? r =
        i.session.store.object? r := hr.object?_enter _ _
    have hkept := hidle _ (hi.body he) r (hr.of_object?_eq henter) hg hr.ne_fresh
    rcases Eval.cases_of_runIn_catchReturn hbody with ⟨x, -, hx | hx⟩ | ⟨x, -, hx, -⟩
    · rw [hx] at hkept
      exact hkept.trans henter
    · rw [hx] at hkept
      exact hkept.trans henter
    · rw [hx] at hkept
      exact hkept.trans henter
  · rw [Builtin.store_apply hb]
  · rfl

/-! ### Moments -/

/-- The course of a visit that has `levels` below it. -/
theorem Course.object?_eq_of_parts {stack : Stack} {levels : Nat}
    (h : Course (evaluateParts stack levels) v s t) (hv : v.Proper g) {r : Ref}
    (hr : s.store.IsFrame r) (hg : r ≠ g) (he : Elsewhere (evaluateParts stack levels) v r) :
    t.store.object? r = s.store.object? r :=
  h.object?_eq (fun role => seals_evaluateSpaced stack levels (stack.part role))
    (fun role => keepsIdle_evaluateSpaced stack levels (stack.part role)) hv hr hg he

/-- A frame that is neither that of a visit nor the global one is at all moments in the visit as
it was when the visit began. -/
theorem Reaches.object?_eq {stack : Stack} {levels gap : Nat} {m : Moment}
    (h : Reaches stack levels gap v m) (hv : v.Proper g) {r : Ref}
    (hr : v.session.store.IsFrame r) (hg : r ≠ g) (hf : r ≠ v.frame) :
    m.store.object? r = v.session.store.object? r := by
  have heval (levels : Nat) (role : Role) : KeepsSealed g (evaluateParts stack levels role) :=
    seals_evaluateSpaced stack levels (stack.part role)
  induction h with
  | begins => rfl
  | @ends levels gap v result s h =>
      have hkept := keepsIdle_evaluateSpaced stack levels gap v hv r hr hg hf
      rw [h] at hkept
      exact hkept
  | skip _ ih => exact ih hv hr hf
  | @calls levels v i _ hi =>
      have he := elsewhere_of_isFrame (accumulates_evaluateParts stack levels) hr hf
      exact hi.course.object?_eq_of_parts hv hr hg he
  | @passes levels v s _ hs =>
      have he := elsewhere_of_isFrame (accumulates_evaluateParts stack levels) hr hf
      exact hs.course.object?_eq_of_parts hv hr hg he
  | @part levels v w role m _ hp _ ih =>
      have he := elsewhere_of_isFrame (accumulates_evaluateParts stack levels) hr hf
      have hbegin := hp.course.object?_eq_of_parts hv hr hg he
      have hne : r ≠ w.frame := by
        rcases hp.frame_eq with hw | ⟨i, hi, hw⟩
        · rwa [hw]
        · exact hw ▸ he.2 i hi
      exact (ih (hp.proper (heval levels) hv) (hr.of_object?_eq hbegin) hne).trans hbegin

end

end Scriptlet
