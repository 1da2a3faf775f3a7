import Mathlib.Logic.Relation
import Scriptlet.Proofs.Moment

/-!
# Evaluations Taken Apart

How an evaluation has ended says what it has done: two evaluations in a row end where the first
leaves early, or else where the second ends; what is required of a value changes nothing; and a
call makes a mistake, runs a body, computes a built-in function or answers what it always answers.

Each lemma here takes one form of evaluation apart, so that a proof about a run never opens the
monad.

## Main results

* `Eval.cases_of_runIn_bind`: one evaluation after another.
* `Eval.cases_of_runIn_mapM`, `Eval.cases_of_runIn_forM`: a row of evaluations.
* `Eval.runIn_onLine`, `runIn_evaluateSpaced_succ`: how a mistake gets its line.
* `cases_of_call`: a call.
-/

namespace Scriptlet

/-- Whether the rule of a node leaves by an exit of its own accord: by a mistake that has no line
yet, or because the mistake cannot be put in words, or for want of levels. That a `return` is in no
function is no mistake of a rule. -/
def Exit.Raised : Exit → Prop
  | .mistake m none => m ≠ .strayReturn
  | .fault .oversizedNumeral | .tooDeep => True
  | _ => False

/-- The exit of an evaluation on a line, zero if none is known. -/
def Exit.onLine (line : Int) : Exit → Exit
  | .mistake m none => .mistake m (if line = 0 then none else some line)
  | x => x

/-- A line is all that a mistake is given. -/
theorem Exit.exists_of_onLine_eq_mistake {line : Int} {x : Exit} {m : Mistake} {l : Option Int}
    (h : x.onLine line = .mistake m l) : ∃ l', x = .mistake m l' := by
  cases x with
  | mistake m' l' =>
      cases l' with
      | none =>
          obtain ⟨rfl, -⟩ := Exit.mistake.inj h
          exact ⟨none, rfl⟩
      | some l' =>
          obtain ⟨rfl, -⟩ := Exit.mistake.inj h
          exact ⟨some l', rfl⟩
  | returned | fault | tooDeep => cases h

/-- A return has no line. -/
theorem Exit.eq_of_onLine_eq_returned {line : Int} {x : Exit} {v : Value}
    (h : x.onLine line = .returned v) : x = .returned v := by
  cases x with
  | mistake m l =>
      cases l with
      | none => cases h
      | some l => cases h
  | returned | fault | tooDeep => exact h

/-- What a `return` makes of the result of a body. -/
def Except.catchReturn : Except Exit Value → Except Exit Value
  | .error (.returned v) => .ok v
  | result => result

/-! ### Evaluations in sequence -/

namespace Eval

variable {α β : Type} {s t : Session}

/-- Two evaluations end where the first leaves early, or else where the second ends. -/
theorem cases_of_runIn_bind {e : Eval α} {f : α → Eval β} {result : Except Exit β}
    (h : (e >>= f).runIn s = (result, t)) :
    (∃ x, e.runIn s = (.error x, t) ∧ result = .error x) ∨
      ∃ a u, e.runIn s = (.ok a, u) ∧ (f a).runIn u = (result, t) := by
  rw [runIn_bind] at h
  rcases he : e.runIn s with ⟨x | a, u⟩
  · rw [he] at h
    obtain ⟨rfl, rfl⟩ := Prod.mk.inj h
    exact .inl ⟨x, rfl, rfl⟩
  · rw [he] at h
    exact .inr ⟨a, u, rfl, h⟩

/-- What comes after an evaluation that is known to have ended. -/
theorem cases_of_runIn_bind_of_runIn {e : Eval α} {f : α → Eval β} {x : Except Exit α} {u : Session}
    {result : Except Exit β} (he : e.runIn s = (x, u)) (h : (e >>= f).runIn s = (result, t)) :
    t = u ∨ ∃ a, x = .ok a ∧ (f a).runIn u = (result, t) := by
  rcases cases_of_runIn_bind h with ⟨y, hy, -⟩ | ⟨a, w, ha, hf⟩
  · exact .inl (Prod.mk.inj (hy.symm.trans he)).2
  · obtain ⟨rfl, rfl⟩ := Prod.mk.inj (he.symm.trans ha)
    exact .inr ⟨a, rfl, hf⟩

/-- What two evaluations in a row have done if they have a result. -/
theorem exists_of_runIn_bind_eq_ok {e : Eval α} {f : α → Eval β} {b : β}
    (h : (e >>= f).runIn s = (.ok b, t)) :
    ∃ a u, e.runIn s = (.ok a, u) ∧ (f a).runIn u = (.ok b, t) := by
  rcases cases_of_runIn_bind h with ⟨x, -, hx⟩ | h
  · cases hx
  · exact h

variable {R : Session → Session → Prop}

/-- A row of evaluations stays on a course on which each of them stays, and leaves early only
where one of them does. -/
theorem cases_of_runIn_mapM {f : α → Eval β} {as : List α} {result : Except Exit (List β)}
    (hR : ∀ done a rest bs u result w, as = done ++ a :: rest →
      (done.mapM f).runIn s = (.ok bs, u) → (f a).runIn u = (result, w) →
        Relation.ReflTransGen R u w)
    (h : (as.mapM f).runIn s = (result, t)) :
    Relation.ReflTransGen R s t ∧ ∀ x, result = .error x → ∃ done a rest bs u,
      as = done ++ a :: rest ∧ (done.mapM f).runIn s = (.ok bs, u) ∧
        (f a).runIn u = (.error x, t) := by
  induction as generalizing s t result with
  | nil =>
      obtain ⟨rfl, rfl⟩ := Prod.mk.inj h
      exact ⟨.refl, nofun⟩
  | cons a rest ih =>
      have hfirst : ∀ result w, (f a).runIn s = (result, w) → Relation.ReflTransGen R s w :=
        fun result w hw => hR [] a rest [] s result w rfl rfl hw
      rw [List.mapM_cons] at h
      rcases cases_of_runIn_bind h with ⟨x, hx, rfl⟩ | ⟨b, u, hu, hrest⟩
      · refine ⟨hfirst _ _ hx, fun y hy => ?_⟩
        obtain rfl := Except.error.inj hy
        exact ⟨[], a, rest, [], s, rfl, rfl, hx⟩
      have hdone {done : List α} {bs : List β} {w : Session}
          (hw : (done.mapM f).runIn u = (.ok bs, w)) :
          ((a :: done).mapM f).runIn s = (.ok (b :: bs), w) := by
        rw [List.mapM_cons, runIn_bind_of_ok hu, runIn_bind_of_ok hw]
        rfl
      have hR' : ∀ done c others bs w result w', rest = done ++ c :: others →
          (done.mapM f).runIn u = (.ok bs, w) → (f c).runIn w = (result, w') →
            Relation.ReflTransGen R w w' := fun done c others bs w result w' hc hw hw' =>
        hR (a :: done) c others (b :: bs) w result w' (by rw [hc]; rfl) (hdone hw) hw'
      rcases cases_of_runIn_bind hrest with ⟨x, hx, rfl⟩ | ⟨bs, w, hw, hpure⟩
      · obtain ⟨hcourse, herror⟩ := ih hR' hx
        refine ⟨(hfirst _ _ hu).trans hcourse, fun y hy => ?_⟩
        obtain rfl := Except.error.inj hy
        obtain ⟨done, c, others, bs, w, hc, hw, hw'⟩ := herror x rfl
        exact ⟨a :: done, c, others, b :: bs, w, by rw [hc]; rfl, hdone hw, hw'⟩
      · obtain ⟨rfl, rfl⟩ := Prod.mk.inj hpure
        obtain ⟨hcourse, -⟩ := ih hR' hw
        exact ⟨(hfirst _ _ hu).trans hcourse, nofun⟩

/-- A row of evaluations without results is one whose results are dropped. -/
theorem runIn_forM (f : α → Eval Unit) (as : List α) (s : Session) :
    (as.forM f).runIn s = (as.mapM f >>= fun _ => pure ()).runIn s := by
  induction as generalizing s with
  | nil => rfl
  | cons a rest ih =>
      show (f a >>= fun _ => rest.forM f).runIn s = _
      rw [List.mapM_cons, bind_assoc]
      refine runIn_bind_congr rfl fun _ u _ => ?_
      rw [bind_assoc, ih u]
      exact runIn_bind_congr rfl fun _ _ _ => rfl

/-- The same for a row of evaluations without results. -/
theorem cases_of_runIn_forM {f : α → Eval Unit} {as : List α} {result : Except Exit Unit}
    (hR : ∀ done a rest u result w, as = done ++ a :: rest → (done.forM f).runIn s = (.ok (), u) →
      (f a).runIn u = (result, w) → Relation.ReflTransGen R u w)
    (h : (as.forM f).runIn s = (result, t)) :
    Relation.ReflTransGen R s t ∧ ∀ x, result = .error x → ∃ done a rest u,
      as = done ++ a :: rest ∧ (done.forM f).runIn s = (.ok (), u) ∧
        (f a).runIn u = (.error x, t) := by
  have hdone {done : List α} {us : List Unit} {u : Session}
      (hu : (done.mapM f).runIn s = (.ok us, u)) : (done.forM f).runIn s = (.ok (), u) := by
    rw [runIn_forM, runIn_bind_of_ok hu]
    rfl
  have hR' : ∀ done a rest us u result w, as = done ++ a :: rest →
      (done.mapM f).runIn s = (.ok us, u) → (f a).runIn u = (result, w) →
        Relation.ReflTransGen R u w := fun done a rest us u result w ha hu hw =>
    hR done a rest u result w ha (hdone hu) hw
  rw [runIn_forM] at h
  rcases cases_of_runIn_bind h with ⟨x, hx, rfl⟩ | ⟨us, u, hu, hpure⟩
  · obtain ⟨hcourse, herror⟩ := cases_of_runIn_mapM hR' hx
    refine ⟨hcourse, fun y hy => ?_⟩
    obtain rfl := Except.error.inj hy
    obtain ⟨done, a, rest, us, u, ha, hu, hw⟩ := herror x rfl
    exact ⟨done, a, rest, u, ha, hdone hu, hw⟩
  · obtain ⟨rfl, rfl⟩ := Prod.mk.inj hpure
    exact ⟨(cases_of_runIn_mapM hR' hu).1, nofun⟩

/-! ### What is required of values -/

/-- Levels that must be left change nothing. -/
theorem cases_of_runIn_reserve {levels need : Nat} {result : Except Exit Unit}
    (h : (reserve levels need).runIn s = (result, t)) :
    t = s ∧ (need ≤ levels ∧ result = .ok () ∨ levels < need ∧ result = .error .tooDeep) := by
  unfold reserve at h
  split at h
  next hle =>
    obtain ⟨rfl, rfl⟩ := Prod.mk.inj h
    exact ⟨rfl, .inl ⟨hle, rfl⟩⟩
  next hlt =>
    obtain ⟨rfl, rfl⟩ := Prod.mk.inj h
    exact ⟨rfl, .inr ⟨by omega, rfl⟩⟩

/-- Where there are enough levels, nothing happens. -/
theorem runIn_reserve_of_le {levels need : Nat} (h : need ≤ levels) (s : Session) :
    (reserve levels need).runIn s = (.ok (), s) := by
  rw [reserve, if_pos h]
  rfl

/-- A text that must be written changes nothing. -/
theorem cases_of_runIn_written {text : Except NoText String} {result : Except Exit String}
    (h : (written text).runIn s = (result, t)) :
    t = s ∧ ((∃ w, text = .ok w ∧ result = .ok w) ∨ ∃ x : Exit, result = .error x ∧ x.Raised) := by
  rcases text with why | w
  · cases why with
    | oversized | tooDeep =>
        obtain ⟨rfl, rfl⟩ := Prod.mk.inj h
        exact ⟨rfl, .inr ⟨_, rfl, trivial⟩⟩
  · obtain ⟨rfl, rfl⟩ := Prod.mk.inj h
    exact ⟨rfl, .inl ⟨w, rfl, rfl⟩⟩

/-- A mistake changes nothing. -/
theorem raised_of_runIn_mistake {eval : Evaluator} {m : Mistake} {result : Except Exit α}
    (hm : m ≠ .strayReturn) (h : (eval.mistake m : Eval α).runIn s = (result, t)) :
    t = s ∧ ∃ x, result = .error x ∧ x.Raised := by
  rcases cases_of_runIn_bind h with ⟨x, hx, rfl⟩ | ⟨_, u, hu, hmistake⟩
  · obtain ⟨rfl, ⟨-, hw⟩ | ⟨-, hw⟩⟩ := cases_of_runIn_reserve hx
    · cases hw
    · obtain rfl := Except.error.inj hw
      exact ⟨rfl, _, rfl, trivial⟩
  · obtain ⟨rfl, -⟩ := cases_of_runIn_reserve hu
    obtain ⟨rfl, rfl⟩ := Prod.mk.inj hmistake
    exact ⟨rfl, _, rfl, hm⟩

/-- A mistake in which a value is shown changes nothing. -/
theorem raised_of_runIn_shown {eval : Evaluator} {purpose : Purpose} {v : Value}
    {m : String → Mistake} {result : Except Exit α} (hm : ∀ text, m text ≠ .strayReturn)
    (h : (eval.shown purpose v >>= fun text => (eval.mistake (m text) : Eval α)).runIn s =
      (result, t)) : t = s ∧ ∃ x, result = .error x ∧ x.Raised := by
  rcases cases_of_runIn_bind h with ⟨x, hx, rfl⟩ | ⟨text, u, hu, hmistake⟩
  · obtain ⟨rfl, ⟨w, -, hw⟩ | ⟨y, hy, hraised⟩⟩ := cases_of_runIn_written hx
    · cases hw
    · obtain rfl := Except.error.inj hy
      exact ⟨rfl, _, rfl, hraised⟩
  · obtain ⟨rfl, -⟩ := cases_of_runIn_written hu
    exact raised_of_runIn_mistake (hm text) hmistake

/-! ### Exits that are caught or get a line -/

/-- What the evaluation of a statement does, whose value is thrown away. -/
theorem cases_of_runIn_discard {e : Eval Value} {result : Except Exit Unit}
    (h : (discard e).runIn s = (result, t)) :
    (∃ x, e.runIn s = (.error x, t) ∧ result = .error x) ∨
      ∃ v, e.runIn s = (.ok v, t) ∧ result = .ok () := by
  rcases cases_of_runIn_bind h with hx | ⟨v, u, hv, hpure⟩
  · exact .inl hx
  · obtain ⟨rfl, rfl⟩ := Prod.mk.inj hpure
    exact .inr ⟨v, hv, rfl⟩

/-- Whatever is left by is left by, on the line. -/
theorem onLine_eq (line : Int) (e : Eval α) :
    onLine line e = tryCatch e fun x => throw (x.onLine line) := by
  refine congrArg (tryCatch e) (funext fun x => ?_)
  cases x with
  | mistake m l =>
      cases l with
      | none => rfl
      | some l => rfl
  | returned | fault | tooDeep => rfl

/-- A mistake that has no line yet gets one, and nothing else changes. -/
theorem runIn_onLine (line : Int) (e : Eval α) (s : Session) :
    (onLine line e).runIn s = ((e.runIn s).1.mapError (Exit.onLine line), (e.runIn s).2) := by
  rw [onLine_eq, runIn_tryCatch]
  rcases e.runIn s with ⟨x | a, t⟩
  · rfl
  · rfl

/-- A `return` in a body ends it, and nothing else changes. -/
theorem runIn_catchReturn (e : Eval Value) (s : Session) :
    (catchReturn e).runIn s = (Except.catchReturn (e.runIn s).1, (e.runIn s).2) := by
  rw [catchReturn, runIn_tryCatch]
  rcases e.runIn s with ⟨x | v, t⟩
  · cases x <;> rfl
  · rfl

/-- A body ends with a value, which may be that of a `return`, or by another exit. -/
theorem cases_of_runIn_catchReturn {e : Eval Value} {result : Except Exit Value}
    (h : (catchReturn e).runIn s = (result, t)) :
    (∃ x, result = .ok x ∧ (e.runIn s = (.ok x, t) ∨ e.runIn s = (.error (.returned x), t))) ∨
      ∃ x, result = .error x ∧ e.runIn s = (.error x, t) ∧ ∀ y, x ≠ .returned y := by
  rw [catchReturn, runIn_tryCatch] at h
  rcases he : e.runIn s with ⟨x | a, u⟩
  · rw [he] at h
    cases x with
    | returned y =>
        obtain ⟨rfl, rfl⟩ := Prod.mk.inj h
        exact .inl ⟨y, rfl, .inr rfl⟩
    | mistake | fault | tooDeep =>
        obtain ⟨rfl, rfl⟩ := Prod.mk.inj h
        exact .inr ⟨_, rfl, rfl, fun _ => Exit.noConfusion⟩
  · rw [he] at h
    obtain ⟨rfl, rfl⟩ := Prod.mk.inj h
    exact .inl ⟨a, rfl, .inl rfl⟩

/-- A program is left as its evaluation is, or by a stray `return`. -/
theorem exit_of_refuseReturn {e : Eval Value} {x : Exit}
    (h : (refuseReturn e).runIn s = (.error x, t)) :
    x = .mistake .strayReturn none ∨ e.runIn s = (.error x, t) ∧ ∀ v, x ≠ .returned v := by
  rw [refuseReturn, runIn_tryCatch] at h
  rcases he : e.runIn s with ⟨y | a, u⟩
  · rw [he] at h
    cases y with
    | returned v =>
        obtain ⟨hx, -⟩ := Prod.mk.inj h
        exact .inl (Except.error.inj hx).symm
    | mistake | fault | tooDeep =>
        obtain ⟨hx, rfl⟩ := Prod.mk.inj h
        obtain rfl := Except.error.inj hx
        exact .inr ⟨rfl, fun _ => Exit.noConfusion⟩
  · rw [he] at h
    cases (Prod.mk.inj h).1

end Eval

section

variable {eval : Evaluator} {s t : Session}

/-- Asking for an object changes nothing, and gives it or raises an exit. -/
theorem cases_of_requireObject {purpose : String} {v : Value} {result : Except Exit Ref}
    (h : (requireObject eval purpose v).runIn s = (result, t)) :
    t = s ∧ ((∃ r, v = .object r ∧ result = .ok r) ∨ ∃ x, result = .error x ∧ x.Raised) := by
  cases v with
  | object r =>
      obtain ⟨rfl, rfl⟩ := Prod.mk.inj h
      exact ⟨rfl, .inl ⟨r, rfl, rfl⟩⟩
  | undefined | integer | string | node =>
      obtain ⟨rfl, hx⟩ :=
        Eval.raised_of_runIn_shown (m := fun w => .notAnObject w purpose)
          (fun _ => Mistake.noConfusion) h
      exact ⟨rfl, .inr hx⟩

/-- Asking for a function changes nothing, and gives it or raises an exit. -/
theorem cases_of_requireFunction {v : Value} {result : Except Exit Ref}
    (h : (requireFunction eval v).runIn s = (result, t)) :
    t = s ∧ ((∃ r, v = .object r ∧ result = .ok r) ∨ ∃ x, result = .error x ∧ x.Raised) := by
  cases v with
  | object r =>
      rw [requireFunction, Eval.runIn_bind_of_ok (Eval.runIn_store s)] at h
      cases ha : s.store.action? r with
      | some a =>
          rw [ha] at h
          obtain ⟨rfl, rfl⟩ := Prod.mk.inj h
          exact ⟨rfl, .inl ⟨r, rfl, rfl⟩⟩
      | none =>
          rw [ha] at h
          obtain ⟨rfl, hx⟩ :=
            Eval.raised_of_runIn_shown (m := .notAFunction) (fun _ => Mistake.noConfusion) h
          exact ⟨rfl, .inr hx⟩
  | undefined | integer | string | node =>
      obtain ⟨rfl, hx⟩ :=
        Eval.raised_of_runIn_shown (m := .notAFunction) (fun _ => Mistake.noConfusion) h
      exact ⟨rfl, .inr hx⟩

/-- Asking for a method changes nothing, and gives what is read or raises an exit. -/
theorem cases_of_requireMethod {object : Ref} {name : String} {result : Except Exit Ref}
    (h : (requireMethod eval object name).runIn s = (result, t)) :
    t = s ∧ ((∃ r, s.store.read object name = .object r ∧ result = .ok r) ∨
      ∃ x, result = .error x ∧ x.Raised) := by
  rw [requireMethod, Eval.runIn_bind_of_ok (Eval.runIn_read object name s)] at h
  cases hv : s.store.read object name with
  | undefined =>
      rw [hv] at h
      obtain ⟨rfl, hx⟩ :=
        Eval.raised_of_runIn_shown (m := fun w => .noMethod w name) (fun _ => Mistake.noConfusion) h
      exact ⟨rfl, .inr hx⟩
  | object r =>
      rw [hv] at h
      dsimp only at h
      rw [Eval.runIn_bind_of_ok (Eval.runIn_store s)] at h
      cases ha : s.store.action? r with
      | some a =>
          rw [ha] at h
          obtain ⟨rfl, rfl⟩ := Prod.mk.inj h
          exact ⟨rfl, .inl ⟨r, rfl, rfl⟩⟩
      | none =>
          rw [ha] at h
          obtain ⟨rfl, hx⟩ := Eval.raised_of_runIn_mistake Mistake.noConfusion h
          exact ⟨rfl, .inr hx⟩
  | integer | string | node =>
      rw [hv] at h
      obtain ⟨rfl, hx⟩ := Eval.raised_of_runIn_mistake Mistake.noConfusion h
      exact ⟨rfl, .inr hx⟩

/-- Asking for a truth value changes nothing, and gives one or raises an exit. -/
theorem cases_of_requireBoolean {v : Value} {result : Except Exit Bool}
    (h : (requireBoolean eval v).runIn s = (result, t)) :
    t = s ∧ ((∃ b, result = .ok b) ∨ ∃ x, result = .error x ∧ x.Raised) := by
  unfold requireBoolean at h
  split at h
  · obtain ⟨rfl, rfl⟩ := Prod.mk.inj h
    exact ⟨rfl, .inl ⟨true, rfl⟩⟩
  · obtain ⟨rfl, rfl⟩ := Prod.mk.inj h
    exact ⟨rfl, .inl ⟨false, rfl⟩⟩
  · obtain ⟨rfl, hx⟩ :=
      Eval.raised_of_runIn_shown (m := .notABoolean) (fun _ => Mistake.noConfusion) h
    exact ⟨rfl, .inr hx⟩

/-- Asking for a free name changes nothing, and passes or raises an exit. -/
theorem cases_of_requireUndefined {declares : Bool} {frame : Ref} {name : String}
    {result : Except Exit Unit}
    (h : (requireUndefined eval declares frame name).runIn s = (result, t)) :
    t = s ∧ (result = .ok () ∨ ∃ x, result = .error x ∧ x.Raised) := by
  rw [requireUndefined, Eval.runIn_bind_of_ok (Eval.runIn_read frame name s)] at h
  split at h
  · obtain ⟨rfl, rfl⟩ := Prod.mk.inj h
    exact ⟨rfl, .inl rfl⟩
  · obtain ⟨rfl, rfl⟩ := Prod.mk.inj h
    exact ⟨rfl, .inl rfl⟩
  · obtain ⟨rfl, hx⟩ := Eval.raised_of_runIn_mistake Mistake.noConfusion h
    exact ⟨rfl, .inr hx⟩

end

/-! ### Rows -/

theorem runIn_runStatements_nil (eval : Evaluator) (frame : Ref)
    (s : Session) : (runStatements eval [] frame).runIn s = (.ok (), s) := rfl

theorem runIn_runArguments_nil (eval : Evaluator) (frame : Ref)
    (s : Session) : (runArguments eval [] frame).runIn s = (.ok [], s) := rfl

theorem runIn_runEntries_nil (eval : Evaluator) (object frame : Ref)
    (s : Session) : (runEntries eval [] object frame).runIn s = (.ok (), s) := rfl

/-- Two rows of statements, one after the other, are one row. -/
theorem runStatements_append (eval : Evaluator) (done more : List Node)
    (frame : Ref) : runStatements eval (done ++ more) frame =
      (do runStatements eval done frame; runStatements eval more frame) :=
  List.forM_append

/-- The values of two rows of arguments are those of one row. -/
theorem runArguments_append (eval : Evaluator) (done more : List Node)
    (frame : Ref) : runArguments eval (done ++ more) frame =
      (do return (← runArguments eval done frame) ++ (← runArguments eval more frame)) :=
  List.mapM_append

/-- Two rows of entries, one after the other, fill the same object. -/
theorem runEntries_append (eval : Evaluator)
    (done more : List (String × Node)) (object frame : Ref) :
    runEntries eval (done ++ more) object frame =
      (do runEntries eval done object frame; runEntries eval more object frame) :=
  List.forM_append

/-- As many arguments have values as there are arguments. -/
theorem length_of_runArguments {eval : Evaluator} {arguments : List Node}
    {frame : Ref} {s t : Session} {values : List Value}
    (h : (runArguments eval arguments frame).runIn s = (.ok values, t)) :
    values.length = arguments.length := by
  induction arguments generalizing s values with
  | nil =>
      obtain ⟨hvalues, -⟩ := Prod.mk.inj h
      rw [← Except.ok.inj hvalues]
      rfl
  | cons n rest ih =>
      rw [runArguments, List.mapM_cons] at h
      obtain ⟨x, u, -, h⟩ := Eval.exists_of_runIn_bind_eq_ok h
      obtain ⟨xs, u', hxs, hpure⟩ := Eval.exists_of_runIn_bind_eq_ok h
      obtain ⟨hvalues, rfl⟩ := Prod.mk.inj hpure
      rw [← Except.ok.inj hvalues, List.length_cons, List.length_cons, ih hxs]

/-! ### Calls -/

/-- A call that enters a body runs it. -/
theorem Invocation.Enters.runIn_call {eval : Evaluator} {i : Invocation} {parameters : List String}
    {body : Node} {home : Ref} (he : i.Enters parameters body home) :
    (call eval i.function i.receiver i.arguments).runIn i.session =
      (Eval.catchReturn (eval .body body i.session.store.fresh)).runIn
        (i.session.enter home (i.names parameters)) := by
  obtain ⟨haction, hlength⟩ := he
  obtain ⟨⟨name, parent, action, entries⟩, ho, ha⟩ := Option.bind_eq_some_iff.mp haction
  obtain rfl : action = some (.closure parameters body home) := ha
  rw [call, Eval.runIn_bind_of_ok (Eval.runIn_store i.session), ho]
  dsimp only
  rw [if_pos hlength]
  rfl

/-- A call of a built-in function computes it. -/
theorem runIn_call_of_builtin (eval : Evaluator) {i : Invocation} {b : Builtin}
    (h : i.session.store.action? i.function = some (.builtin b)) :
    (call eval i.function i.receiver i.arguments).runIn i.session =
      (b.apply eval.stack eval.levels i.arguments).runIn i.session := by
  obtain ⟨⟨name, parent, action, entries⟩, ho, ha⟩ := Option.bind_eq_some_iff.mp h
  obtain rfl : action = some (.builtin b) := ha
  rw [call, Eval.runIn_bind_of_ok (Eval.runIn_store i.session), ho]

/-- What a call does: it makes a mistake, runs a body, computes a built-in function or answers
what it always answers. -/
theorem cases_of_call {eval : Evaluator} {i : Invocation} {t : Session} {result : Except Exit Value}
    (h : (call eval i.function i.receiver i.arguments).runIn i.session = (result, t)) :
    (t = i.session ∧ ∃ x, result = .error x ∧ x.Raised) ∨
      (∃ parameters body home, i.Enters parameters body home ∧
        (Eval.catchReturn (eval .body body i.session.store.fresh)).runIn
          (i.session.enter home (i.names parameters)) = (result, t)) ∨
      (∃ b, i.session.store.action? i.function = some (.builtin b) ∧
        (b.apply eval.stack eval.levels i.arguments).runIn i.session = (result, t)) ∨
      ∃ x, i.session.store.action? i.function = some (.constant x) ∧ result = .ok x ∧
        t = i.session := by
  rw [call, Eval.runIn_bind_of_ok (Eval.runIn_store i.session)] at h
  have haction {a : Option Action} {o : Object} (ho : i.session.store.object? i.function = some o)
      (ha : o.action = a) : i.session.store.action? i.function = a := by
    rw [Store.action?, ho]
    exact ha
  rcases ho : i.session.store.object? i.function with _ | ⟨name, parent, _ | a, entries⟩
  · rw [ho] at h
    exact .inl (Eval.raised_of_runIn_shown (m := .notAFunction) (fun _ => Mistake.noConfusion) h)
  · rw [ho] at h
    exact .inl (Eval.raised_of_runIn_shown (m := .notAFunction) (fun _ => Mistake.noConfusion) h)
  rw [ho] at h
  cases a with
  | closure parameters body home =>
      dsimp only at h
      by_cases hlength : i.arguments.length = parameters.length
      · rw [if_pos hlength] at h
        exact .inr (.inl ⟨parameters, body, home, ⟨haction ho rfl, hlength⟩, h⟩)
      · rw [if_neg hlength] at h
        obtain ⟨rfl, rfl⟩ := Prod.mk.inj h
        exact .inl ⟨rfl, _, rfl, Mistake.noConfusion⟩
  | builtin b => exact .inr (.inr (.inl ⟨b, haction ho rfl, h⟩))
  | constant x =>
      obtain ⟨rfl, rfl⟩ := Prod.mk.inj h
      exact .inr (.inr (.inr ⟨x, haction ho rfl, rfl, rfl⟩))

/-- A call by a rule is a call for which there are levels. -/
theorem runIn_invoke_of_admits {eval : Evaluator} {f : Ref} {s : Session}
    (h : eval.admits s.store f = true) (receiver : Value) (arguments : List Value) :
    (invoke eval f receiver arguments).runIn s = (call eval f receiver arguments).runIn s := by
  rw [invoke, Eval.runIn_bind_of_ok (Eval.runIn_store s), if_pos h]

/-- What a call by a rule does: there are no levels for it, or it is a call. -/
theorem cases_of_invoke {eval : Evaluator} {f : Ref} {receiver : Value} {arguments : List Value}
    {s t : Session} {result : Except Exit Value}
    (h : (invoke eval f receiver arguments).runIn s = (result, t)) :
    t = s ∧ result = .error .tooDeep ∨
      eval.admits s.store f = true ∧ (call eval f receiver arguments).runIn s = (result, t) := by
  rw [invoke, Eval.runIn_bind_of_ok (Eval.runIn_store s)] at h
  split at h
  next hroom => exact .inr ⟨hroom, h⟩
  next =>
    obtain ⟨rfl, rfl⟩ := Prod.mk.inj h
    exact .inl ⟨rfl, rfl⟩

/-! ### Nodes and runs of a program -/

section

variable {stack : Stack} {levels : Nat}

/-- A node is evaluated by its rule, on its line. -/
theorem runIn_evaluateSpaced_succ {n : Node} (hrule : stack.rule n.kind ≤ levels) (frame : Ref)
    (s : Session) : (evaluateSpaced stack (levels + 1) 0 n frame).runIn s =
      (((evaluateWith (evaluateParts stack levels) n frame).runIn s).1.mapError
          (Exit.onLine n.line),
        ((evaluateWith (evaluateParts stack levels) n frame).runIn s).2) := by
  rw [evaluateSpaced, if_pos hrule]
  exact Eval.runIn_onLine n.line _ s

/-- A node for whose rule there are too few levels is not evaluated. -/
theorem runIn_evaluateSpaced_of_lt {n : Node} (hrule : levels < stack.rule n.kind) (frame : Ref)
    (s : Session) :
    (evaluateSpaced stack (levels + 1) 0 n frame).runIn s = (.error .tooDeep, s) := by
  rw [evaluateSpaced, if_neg (Nat.not_le_of_lt hrule)]
  rfl

/-- What a visit does: there are no levels for it, or its rule is followed. -/
theorem cases_of_runIn_evaluateSpaced {gap : Nat} {n : Node} {frame : Ref} {s t : Session}
    {result : Except Exit Value}
    (h : (evaluateSpaced stack levels gap n frame).runIn s = (result, t)) :
    t = s ∧ result = .error .tooDeep ∨
      ∃ below ruled, levels = below + 1 + gap ∧ stack.rule n.kind ≤ below ∧
        (evaluateWith (evaluateParts stack below) n frame).runIn s = (ruled, t) ∧
        result = ruled.mapError (Exit.onLine n.line) := by
  rw [evaluateSpaced_eq_sub] at h
  cases hbelow : levels - gap with
  | zero =>
      rw [hbelow] at h
      obtain ⟨rfl, rfl⟩ := Prod.mk.inj h
      exact .inl ⟨rfl, rfl⟩
  | succ below =>
      rw [hbelow] at h
      rcases Nat.lt_or_ge below (stack.rule n.kind) with hlt | hrule
      · rw [runIn_evaluateSpaced_of_lt hlt] at h
        obtain ⟨rfl, rfl⟩ := Prod.mk.inj h
        exact .inl ⟨rfl, rfl⟩
      · rw [runIn_evaluateSpaced_succ hrule] at h
        obtain ⟨rfl, rfl⟩ := Prod.mk.inj h
        exact .inr ⟨below, _, by omega, hrule, rfl, rfl⟩

/-- A visit that has a value has a level to itself, and has the value by its rule. -/
theorem exists_evaluateWith_of_ok {gap : Nat} {n : Node} {frame : Ref} {s t : Session} {x : Value}
    (h : (evaluateSpaced stack levels gap n frame).runIn s = (.ok x, t)) :
    ∃ below, levels = below + 1 + gap ∧ stack.rule n.kind ≤ below ∧
      (evaluateWith (evaluateParts stack below) n frame).runIn s = (.ok x, t) := by
  rcases cases_of_runIn_evaluateSpaced h with ⟨-, hx⟩ | ⟨below, ruled, hlevels, hrule, hruled, hx⟩
  · cases hx
  · cases ruled with
    | error y => cases hx
    | ok y =>
        obtain rfl := Except.ok.inj hx
        exact ⟨below, hlevels, hrule, hruled⟩

/-- The run of a program leaves as its evaluation does, or by a stray `return`. -/
theorem exit_of_inOwnGlobal {program : Node} {s : Session} {x : Exit}
    (h : ((inOwnGlobal stack levels program).runIn s).1 = .error x) :
    x = .mistake .strayReturn none ∨
      (∃ t, (evaluate stack levels program s.store.fresh).runIn (s.started program) =
        (.error x, t)) ∧ ∀ v, x ≠ .returned v := by
  have hrun := Prod.eta ((inOwnGlobal stack levels program).runIn s)
  rw [h, runIn_inOwnGlobal] at hrun
  rcases Eval.cases_of_runIn_bind hrun.symm with ⟨y, hy, hx⟩ | ⟨_, u, -, hnote⟩
  · obtain rfl := Except.error.inj hx
    rcases Eval.cases_of_runIn_discard hy with ⟨z, hz, hx⟩ | ⟨z, -, hx⟩
    · obtain rfl := Except.error.inj hx
      exact (Eval.exit_of_refuseReturn hz).imp_right fun hz => ⟨⟨_, hz.1⟩, hz.2⟩
    · cases hx
  · cases (Prod.mk.inj hnote).1

end

end Scriptlet
