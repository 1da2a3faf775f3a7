import Scriptlet.Proofs.Idle

/-!
# The Order of a Run

The parts of a visit are evaluated one after another, each in its *turn*: the statements of a block
in their order, what is called before the arguments and these before the body, and so on. A visit
whose turn comes later begins after an earlier one has ended, and the visit itself ends last.

## Main definitions

* `Turn`, `Marks`: the parts of a visit and its own moments, numbered in their order.
* `Resumes`: how a visit goes on where a part of it has ended.

## Main results

* `Part.exists_turn`, `Turn.part`: the numbered parts of a visit are its parts.
* `Turn.course`, `Turn.course_marks`, `Turn.course_end`: what comes later, begins later.
-/

namespace Scriptlet

section

variable (eval : Evaluator)

/-- The visits that a visit is made of, numbered in the order in which they begin. -/
inductive Turn : Visit → Nat → Role → Visit → Prop
  | first {v : Visit} {n : Node} (h : v.node.first? = some n) :
      Turn v 0 .operand ⟨n, v.frame, v.session⟩
  | statement {statements done rest : List Node} {n : Node} {line : Int} {frame : Ref}
      {s t : Session} (hn : statements = done ++ n :: rest)
      (h : (runStatements eval done frame).runIn s = (.ok (), t)) :
      Turn ⟨.block statements line, frame, s⟩ done.length .statement ⟨n, frame, t⟩
  | argument {v : Visit} {f : Ref} {receiver : Value} {arguments done rest : List Node} {n : Node}
      {values : List Value} {s t : Session} (hp : Prepares eval v f receiver arguments s)
      (hn : arguments = done ++ n :: rest)
      (h : (runArguments eval done v.frame).runIn s = (.ok values, t)) :
      Turn v (done.length + 1) .argument ⟨n, v.frame, t⟩
  | body {v : Visit} {i : Invocation} {parameters : List String} {body : Node} {home : Ref}
      (hi : Invokes eval v i) (he : i.Enters parameters body home) :
      Turn v (i.arguments.length + 1) .body
        ⟨body, i.session.store.fresh, i.session.enter home (i.names parameters)⟩
  | assigned {name : String} {value : Node} {declares : Bool} {line : Int} {frame : Ref}
      {s t : Session} (h : (requireUndefined eval declares frame name).runIn s = (.ok (), t)) :
      Turn ⟨.assign name value declares line, frame, s⟩ 0 .operand ⟨value, frame, t⟩
  | chosen {condition consequence alternative : Node} {line : Int} {frame : Ref} {b : Bool}
      {s t : Session}
      (h : (eval .operand condition frame >>= requireBoolean eval).runIn s = (.ok b, t)) :
      Turn ⟨.branch condition consequence alternative line, frame, s⟩ 1 .operand
        ⟨if b then consequence else alternative, frame, t⟩
  | entry {entries done rest : List (String × Node)} {key : String} {n : Node} {line : Int}
      {frame : Ref} {s t : Session} (hn : entries = done ++ (key, n) :: rest)
      (h : (runEntries eval done s.store.fresh frame).runIn (s.add (.record none)) = (.ok (), t)) :
      Turn ⟨.record entries line, frame, s⟩ done.length .operand ⟨n, frame, t⟩
  | fieldValue {receiver value : Node} {name : String} {line : Int} {frame object : Ref}
      {s t : Session}
      (h : (eval .operand receiver frame >>=
        requireObject eval ("cannot assign field '" ++ name ++ "'")).runIn s = (.ok object, t)) :
      Turn ⟨.assignField receiver name value line, frame, s⟩ 1 .operand ⟨value, frame, t⟩

/-- A visit's own moments, each numbered as the part that begins next. -/
inductive Marks : Visit → Nat → Moment → Prop
  | calls {v : Visit} {i : Invocation} (h : Invokes eval v i) :
      Marks v (i.arguments.length + 1) (.calls i)
  | function {name : Option String} {parameters : List String} {body : Node} {line : Int}
      {frame : Ref} {s : Session} :
      Marks ⟨.function name parameters body line, frame, s⟩ 0
        (.passes (s.add (.function (name.getD anonymousName) (.closure parameters body frame))))
  | record {entries done rest : List (String × Node)} {line : Int} {frame : Ref} {s t : Session}
      (hn : entries = done ++ rest)
      (h : (runEntries eval done s.store.fresh frame).runIn (s.add (.record none)) = (.ok (), t)) :
      Marks ⟨.record entries line, frame, s⟩ done.length (.passes t)
  | frame {v : Visit} {i : Invocation} {parameters : List String} {body : Node} {home : Ref}
      {names : List (String × Value)} (hi : Invokes eval v i) (he : i.Enters parameters body home)
      (hn : names <+: i.names parameters) :
      Marks v (i.arguments.length + 1) (.passes (i.session.enter home names))

/-- How a visit goes on where a part of it has ended: as things are, or by setting a name to the
value of the part. -/
inductive Resumes (v w : Visit) : Session → Session → Prop
  | same {u : Session} : Resumes v w u u
  | put {object : Ref} {name : String} {x : Value} {u : Session} (hp : Awaits eval v w object name)
      (hw : (eval .operand w.node w.frame).runIn w.session = (.ok x, u)) :
      Resumes v w u (u.put object name x)

end

section

variable {eval : Evaluator} {v w w' : Visit} {role role' : Role}
  {k k' : Nat}

/-- Whatever has a turn is a part. -/
theorem Turn.part (h : Turn eval v k role w) : Part eval v role w := by
  cases h with
  | first h => exact .first h
  | statement hn h => exact hn ▸ .statement h
  | argument hp hn h => exact .argument (hn ▸ hp) h
  | body hi he => exact .body hi he
  | assigned h => exact .assigned h
  | chosen h => exact .chosen h
  | entry hn h => exact hn ▸ .entry h
  | fieldValue h => exact .fieldValue h

/-- Every part of a visit has its turn. -/
theorem Part.exists_turn (h : Part eval v role w) : ∃ k, Turn eval v k role w := by
  cases h with
  | first h => exact ⟨_, .first h⟩
  | statement h => exact ⟨_, .statement rfl h⟩
  | argument hp h => exact ⟨_, .argument hp rfl h⟩
  | body hi he => exact ⟨_, .body hi he⟩
  | assigned h => exact ⟨_, .assigned h⟩
  | chosen h => exact ⟨_, .chosen h⟩
  | entry h => exact ⟨_, .entry rfl h⟩
  | fieldValue h => exact ⟨_, .fieldValue h⟩

/-! ### What a visit calls, it calls once -/

/-- A visit prepares one call. -/
theorem Prepares.unique {f f' : Ref} {receiver receiver' : Value} {arguments arguments' : List Node}
    {s s' : Session} (h : Prepares eval v f receiver arguments s)
    (h' : Prepares eval v f' receiver' arguments' s') :
    f = f' ∧ receiver = receiver' ∧ arguments = arguments' ∧ s = s' := by
  cases h with
  | call h =>
      cases h' with
      | call h' =>
          obtain ⟨hf, rfl⟩ := Prod.mk.inj (h.symm.trans h')
          exact ⟨Except.ok.inj hf, rfl, rfl, rfl⟩
  | callMethod ho hf =>
      cases h' with
      | callMethod ho' hf' =>
          obtain ⟨hobject, rfl⟩ := Prod.mk.inj (ho.symm.trans ho')
          obtain rfl := Except.ok.inj hobject
          obtain ⟨hfunction, rfl⟩ := Prod.mk.inj (hf.symm.trans hf')
          exact ⟨Except.ok.inj hfunction, rfl, rfl, rfl⟩

/-- A visit makes one call. -/
theorem Invokes.unique {i i' : Invocation} (h : Invokes eval v i) (h' : Invokes eval v i') :
    i = i' := by
  cases h with
  | intro hp ha =>
      cases h' with
      | intro hp' ha' =>
          obtain ⟨rfl, rfl, rfl, rfl⟩ := hp.unique hp'
          obtain ⟨hvalues, rfl⟩ := Prod.mk.inj (ha.symm.trans ha')
          rw [Except.ok.inj hvalues]

/-- What is called is known where the part that is evaluated first has ended. -/
theorem Prepares.session_eq {f : Ref} {receiver : Value} {arguments : List Node} {n : Node}
    {s u : Session} {x : Except Exit Value} (h : Prepares eval v f receiver arguments s)
    (hn : v.node.first? = some n) (hu : (eval .operand n v.frame).runIn v.session = (x, u)) :
    s = u := by
  cases h with
  | call h =>
      obtain rfl := Option.some.inj hn
      obtain ⟨y, t, hy, hrequired⟩ := Eval.exists_of_runIn_bind_eq_ok h
      obtain ⟨-, rfl⟩ := Prod.mk.inj (hu.symm.trans hy)
      exact (cases_of_requireFunction hrequired).1
  | callMethod ho hf =>
      obtain rfl := Option.some.inj hn
      obtain ⟨y, t, hy, hrequired⟩ := Eval.exists_of_runIn_bind_eq_ok ho
      obtain ⟨-, rfl⟩ := Prod.mk.inj (hu.symm.trans hy)
      exact (cases_of_requireMethod hf).1.trans (cases_of_requireObject hrequired).1

/-! ### After a part has ended -/

/-- The elements between two places of a list. -/
theorem exists_between {α : Type} {done done' rest rest' : List α} {a : α}
    (h : done ++ a :: rest = done' ++ rest') (hlt : done.length < done'.length) :
    ∃ middle, done' = done ++ a :: middle ∧ rest = middle ++ rest' := by
  rcases List.append_eq_append_iff.mp h with ⟨more, rfl, hmore⟩ | ⟨more, rfl, -⟩
  · cases more with
    | nil => simp at hlt
    | cons c middle =>
        obtain ⟨rfl, hrest⟩ := List.cons.inj hmore
        exact ⟨middle, rfl, hrest⟩
  · rw [List.length_append] at hlt
    omega

section

variable {s t u e : Session} {frame : Ref} {line : Int} {n : Node} {x : Except Exit Value}

/-- A block goes on behind a statement. -/
theorem course_after_statement {done middle rest : List Node} {result : Except Exit Unit}
    (hdone : (runStatements eval done frame).runIn s = (.ok (), t))
    (hn : (eval .statement n frame).runIn t = (x, u))
    (h : (runStatements eval (done ++ n :: middle) frame).runIn s = (result, e)) :
    Course eval ⟨.block (done ++ n :: (middle ++ rest)) line, frame, s⟩ u e := by
  rw [runStatements_append, Eval.runIn_bind_of_ok hdone] at h
  rcases Eval.cases_of_runIn_bind h with ⟨y, hy, -⟩ | ⟨_, w, hw, hmiddle⟩
  · rcases Eval.cases_of_runIn_discard hy with ⟨_, hz, -⟩ | ⟨_, -, hz⟩
    · obtain ⟨-, rfl⟩ := Prod.mk.inj (hn.symm.trans hz)
      exact .refl
    · cases hz
  rcases Eval.cases_of_runIn_discard hw with ⟨_, -, hz⟩ | ⟨y, hy, -⟩
  · cases hz
  obtain ⟨-, rfl⟩ := Prod.mk.inj (hn.symm.trans hy)
  have hnext : (runStatements eval (done ++ [n]) frame).runIn s = (.ok (), u) := by
    rw [runStatements_append, Eval.runIn_bind_of_ok hdone]
    exact Eval.runIn_bind_of_ok hw _
  have hsplit : done ++ n :: (middle ++ rest) = done ++ [n] ++ middle ++ rest := by simp
  rw [hsplit]
  exact (course_runStatements hnext hmiddle).1

/-- A call goes on behind an argument. -/
theorem course_after_argument {f : Ref} {receiver : Value} {done middle rest : List Node}
    {values : List Value} {result : Except Exit (List Value)}
    (hp : Prepares eval v f receiver (done ++ n :: (middle ++ rest)) s)
    (hdone : (runArguments eval done v.frame).runIn s = (.ok values, t))
    (hn : (eval .argument n v.frame).runIn t = (x, u))
    (h : (runArguments eval (done ++ n :: middle) v.frame).runIn s = (result, e)) :
    Course eval v u e := by
  rw [runArguments_append, Eval.runIn_bind_of_ok hdone] at h
  have hmore : ∃ result, (runArguments eval (n :: middle) v.frame).runIn t = (result, e) := by
    rcases Eval.cases_of_runIn_bind h with ⟨y, hy, -⟩ | ⟨_, w, hw, hpure⟩
    · exact ⟨_, hy⟩
    · obtain ⟨-, rfl⟩ := Prod.mk.inj hpure
      exact ⟨_, hw⟩
  obtain ⟨result, hmore⟩ := hmore
  rw [runArguments, List.mapM_cons] at hmore
  rcases Eval.cases_of_runIn_bind hmore with ⟨y, hy, -⟩ | ⟨y, w, hy, hmiddle⟩
  · obtain ⟨-, rfl⟩ := Prod.mk.inj (hn.symm.trans hy)
    exact .refl
  obtain ⟨-, rfl⟩ := Prod.mk.inj (hn.symm.trans hy)
  have hnext : (runArguments eval (done ++ [n]) v.frame).runIn s = (.ok (values ++ [y]), u) := by
    rw [runArguments_append, Eval.runIn_bind_of_ok hdone]
    refine (Eval.runIn_bind_of_ok (e := runArguments eval [n] v.frame) (a := [y]) (t := u) ?_ _)
    rw [runArguments, List.mapM_cons]
    exact Eval.runIn_bind_of_ok hy _
  have hsplit : done ++ n :: (middle ++ rest) = done ++ [n] ++ middle ++ rest := by simp
  rw [hsplit] at hp
  rcases Eval.cases_of_runIn_bind hmiddle with ⟨z, hz, -⟩ | ⟨_, w, hw, hpure⟩
  · exact (course_runArguments hp hnext hz).1
  · obtain ⟨-, rfl⟩ := Prod.mk.inj hpure
    exact (course_runArguments hp hnext hw).1

/-- A record goes on behind an entry, which it puts first. -/
theorem course_after_entry {done middle rest : List (String × Node)} {key : String}
    {result : Except Exit Unit}
    (hdone : (runEntries eval done s.store.fresh frame).runIn (s.add (.record none)) = (.ok (), t))
    (hn : (eval .operand n frame).runIn t = (x, u))
    (h : (runEntries eval (done ++ (key, n) :: middle) s.store.fresh frame).runIn
      (s.add (.record none)) = (result, e)) :
    ∃ u', Resumes eval ⟨.record (done ++ (key, n) :: (middle ++ rest)) line, frame, s⟩
        ⟨n, frame, t⟩ u u' ∧
      Course eval ⟨.record (done ++ (key, n) :: (middle ++ rest)) line, frame, s⟩ u' e := by
  rw [runEntries_append, Eval.runIn_bind_of_ok hdone] at h
  rcases Eval.cases_of_runIn_bind h with ⟨y, hy, -⟩ | ⟨_, w, hw, hmiddle⟩
  · rcases Eval.cases_of_runIn_bind hy with ⟨_, hz, -⟩ | ⟨_, _, -, hput⟩
    · obtain ⟨-, rfl⟩ := Prod.mk.inj (hn.symm.trans hz)
      exact ⟨u, .same, .refl⟩
    · cases hput
  have hnext : (runEntries eval (done ++ [(key, n)]) s.store.fresh frame).runIn
      (s.add (.record none)) = (.ok (), w) := by
    rw [runEntries_append, Eval.runIn_bind_of_ok hdone]
    exact Eval.runIn_bind_of_ok hw _
  rcases Eval.cases_of_runIn_bind hw with ⟨_, -, hz⟩ | ⟨y, u', hy, hput⟩
  · cases hz
  obtain ⟨rfl, rfl⟩ := Prod.mk.inj (hn.symm.trans hy)
  obtain ⟨-, rfl⟩ := Prod.mk.inj hput
  have hawaits : Awaits eval ⟨.record (done ++ (key, n) :: (middle ++ rest)) line, frame, s⟩
      ⟨n, frame, t⟩ s.store.fresh key := .entry hdone
  have hsplit : done ++ (key, n) :: (middle ++ rest) = done ++ [(key, n)] ++ middle ++ rest := by
    simp
  refine ⟨_, .put hawaits hn, ?_⟩
  rw [hsplit]
  exact (course_runEntries hnext hmiddle).1

end

variable {u e : Session} {x : Except Exit Value}

/-- The call that a visit makes comes after all parts but the body. -/
theorem Turn.course_invokes (h : Turn eval v k role w)
    (hu : (eval role w.node w.frame).runIn w.session = (x, u)) {i : Invocation}
    (hi : Invokes eval v i) (hk : k < i.arguments.length + 1) : Course eval v u i.session := by
  cases h with
  | first hn =>
      cases hi with
      | @intro f receiver arguments values s t hp ha =>
          obtain rfl := hp.session_eq hn hu
          have hrow := @course_runArguments eval v f receiver [] arguments [] [] s s
          rw [List.append_nil] at hrow
          exact (hrow hp rfl ha).1
  | @argument _ _ _ arguments done rest n _ _ _ hp hn h =>
      cases hi with
      | intro hp' ha =>
          obtain ⟨rfl, rfl, rfl, rfl⟩ := hp.unique hp'
          subst hn
          rw [← List.append_nil rest] at hp
          exact course_after_argument hp h hu ha
  | body hi' he =>
      obtain rfl := hi.unique hi'
      exact absurd hk (Nat.lt_irrefl _)
  | statement | assigned | chosen | entry | fieldValue =>
      cases hi with
      | intro hp _ => cases hp

/-- A part whose turn comes later begins after an earlier one has ended. -/
theorem Turn.course (h : Turn eval v k role w)
    (hu : (eval role w.node w.frame).runIn w.session = (x, u)) (h' : Turn eval v k' role' w')
    (hk : k < k') :
    ∃ u', Resumes eval v w u u' ∧ Course eval v u' w'.session := by
  cases h' with
  | first | assigned => exact absurd hk (Nat.not_lt_zero _)
  | statement hn' hdone' =>
      cases h with
      | first hn => cases hn
      | argument hp => cases hp
      | body hi =>
          cases hi with
          | intro hp _ => cases hp
      | statement hn hdone =>
          obtain ⟨middle, rfl, rfl⟩ := exists_between (hn.symm.trans hn') hk
          subst hn
          exact ⟨u, .same, course_after_statement hdone hu hdone'⟩
  | @argument _ f receiver arguments done' rest' n' _ _ _ hp' hn' hdone' =>
      cases h with
      | first hn =>
          obtain rfl := hp'.session_eq hn hu
          subst hn'
          exact ⟨_, .same, (course_runArguments hp' (runIn_runArguments_nil eval _ _) hdone').1⟩
      | argument hp hn hdone =>
          obtain ⟨rfl, rfl, rfl, rfl⟩ := hp.unique hp'
          obtain ⟨middle, rfl, rfl⟩ := exists_between (hn.symm.trans hn') (by omega)
          subst hn
          exact ⟨u, .same, course_after_argument hp hdone hu hdone'⟩
      | body hi he =>
          cases hi with
          | intro hp ha =>
              obtain ⟨rfl, rfl, rfl, rfl⟩ := hp.unique hp'
              have hlength := length_of_runArguments ha
              rw [hn', List.length_append, List.length_cons] at hlength
              dsimp only at hk
              omega
      | statement | assigned | chosen | entry | fieldValue => cases hp'
  | body hi' he' =>
      exact ⟨u, .same, (h.course_invokes hu hi' hk).tail (.enter hi' he' List.prefix_rfl)⟩
  | chosen hchosen =>
      cases h with
      | first hn =>
          obtain rfl := Option.some.inj hn
          obtain ⟨y, t, hy, hrequired⟩ := Eval.exists_of_runIn_bind_eq_ok hchosen
          obtain ⟨-, rfl⟩ := Prod.mk.inj (hu.symm.trans hy)
          rw [(cases_of_requireBoolean hrequired).1]
          exact ⟨u, .same, .refl⟩
      | argument hp => cases hp
      | body hi =>
          cases hi with
          | intro hp _ => cases hp
      | chosen => exact absurd hk (Nat.lt_irrefl _)
  | entry hn' hdone' =>
      cases h with
      | first hn => cases hn
      | argument hp => cases hp
      | body hi =>
          cases hi with
          | intro hp _ => cases hp
      | entry hn hdone =>
          obtain ⟨middle, rfl, rfl⟩ := exists_between (hn.symm.trans hn') hk
          subst hn
          exact course_after_entry hdone hu hdone'
  | fieldValue hvalue =>
      cases h with
      | first hn =>
          obtain rfl := Option.some.inj hn
          obtain ⟨y, t, hy, hrequired⟩ := Eval.exists_of_runIn_bind_eq_ok hvalue
          obtain ⟨-, rfl⟩ := Prod.mk.inj (hu.symm.trans hy)
          rw [(cases_of_requireObject hrequired).1]
          exact ⟨u, .same, .refl⟩
      | argument hp => cases hp
      | body hi =>
          cases hi with
          | intro hp _ => cases hp
      | fieldValue => exact absurd hk (Nat.lt_irrefl _)

/-- So does one of the visit's own moments. -/
theorem Turn.course_marks (h : Turn eval v k role w)
    (hu : (eval role w.node w.frame).runIn w.session = (x, u)) {m : Moment}
    (h' : Marks eval v k' m) (hk : k < k') :
    ∃ u', Resumes eval v w u u' ∧ Course eval v u' m.session := by
  cases h' with
  | calls hi => exact ⟨u, .same, h.course_invokes hu hi hk⟩
  | function => exact absurd hk (Nat.not_lt_zero _)
  | record hn' hdone' =>
      cases h with
      | first hn => cases hn
      | argument hp => cases hp
      | body hi =>
          cases hi with
          | intro hp _ => cases hp
      | entry hn hdone =>
          obtain ⟨middle, rfl, rfl⟩ := exists_between (hn.symm.trans hn') hk
          subst hn
          exact course_after_entry hdone hu hdone'
  | frame hi he hn => exact ⟨u, .same, (h.course_invokes hu hi hk).tail (.enter hi he hn)⟩

/-- A visit ends where the body that it calls has been left. -/
theorem Invokes.session_eq {i : Invocation} {parameters : List String} {body : Node} {home : Ref}
    {result : Except Exit Value} (hi : Invokes eval v i) (he : i.Enters parameters body home)
    (hu : (eval .body body i.session.store.fresh).runIn
      (i.session.enter home (i.names parameters)) = (x, u))
    (h : (evaluateWith eval v.node v.frame).runIn v.session = (result, e)) : e = u := by
  cases hi with
  | @intro f receiver arguments values s t hp ha hroom =>
      rw [hp.runIn_evaluateWith, Eval.runIn_bind_of_ok ha, runIn_invoke_of_admits hroom] at h
      rw [he.runIn_call] at h
      rcases Eval.cases_of_runIn_catchReturn h with ⟨y, -, hy | hy⟩ | ⟨y, -, hy, -⟩
      · exact (Prod.mk.inj (hy.symm.trans hu)).2
      · exact (Prod.mk.inj (hy.symm.trans hu)).2
      · exact (Prod.mk.inj (hy.symm.trans hu)).2

/-- What comes after the part that is evaluated before anything else. -/
theorem course_after_first {n : Node} {result : Except Exit Value} (hn : v.node.first? = some n)
    (hu : (eval .operand n v.frame).runIn v.session = (x, u))
    (hend : (evaluateWith eval v.node v.frame).runIn v.session = (result, e)) :
    Course eval v u e := by
  have hfirst : Part eval v .operand ⟨n, v.frame, v.session⟩ := .first hn
  obtain ⟨node, frame, s⟩ := v
  dsimp only at hu hend
  cases node with
  | block | literal | name | assign | function | record => cases hn
  | call callee arguments line =>
      obtain rfl := Option.some.inj hn
      rcases Eval.cases_of_runIn_bind_of_runIn hu hend with rfl | ⟨y, rfl, hrest⟩
      · exact .refl
      rcases Eval.cases_of_runIn_bind hrest with ⟨z, hz, -⟩ | ⟨f, t, hf, hinvoke⟩
      · rw [(cases_of_requireFunction hz).1]
        exact .refl
      obtain ⟨rfl, -⟩ := cases_of_requireFunction hf
      have hp : Prepares eval ⟨.call callee arguments line, frame, s⟩ f .undefined arguments t :=
        .call ((Eval.runIn_bind_of_ok hu _).trans hf)
      exact (hp.course_invoke hinvoke).1
  | giveBack value line =>
      obtain rfl := Option.some.inj hn
      rcases Eval.cases_of_runIn_bind_of_runIn hu hend with rfl | ⟨y, rfl, hrest⟩
      · exact .refl
      · obtain ⟨-, rfl⟩ := Prod.mk.inj hrest
        exact .refl
  | branch condition consequence alternative line =>
      obtain rfl := Option.some.inj hn
      rcases Eval.cases_of_runIn_bind_of_runIn hu hend with rfl | ⟨y, rfl, hrest⟩
      · exact .refl
      rcases Eval.cases_of_runIn_bind hrest with ⟨z, hz, -⟩ | ⟨b, t, hb, hchosen⟩
      · rw [(cases_of_requireBoolean hz).1]
        exact .refl
      obtain ⟨rfl, -⟩ := cases_of_requireBoolean hb
      have hp : Part eval ⟨.branch condition consequence alternative line, frame, s⟩ .operand
          ⟨if b then consequence else alternative, frame, t⟩ :=
        .chosen ((Eval.runIn_bind_of_ok hu _).trans hb)
      cases b with
      | true => exact .single (hp.step hchosen)
      | false => exact .single (hp.step hchosen)
  | field receiver name line =>
      obtain rfl := Option.some.inj hn
      rcases Eval.cases_of_runIn_bind_of_runIn hu hend with rfl | ⟨y, rfl, hrest⟩
      · exact .refl
      cases y with
      | undefined | integer | string | object | node =>
          obtain ⟨-, rfl⟩ := Prod.mk.inj hrest
          exact .refl
  | assignField receiver name value line =>
      obtain rfl := Option.some.inj hn
      rcases Eval.cases_of_runIn_bind_of_runIn hu hend with rfl | ⟨y, rfl, hrest⟩
      · exact .refl
      rcases Eval.cases_of_runIn_bind hrest with ⟨z, hz, -⟩ | ⟨object, t, ho, hassign⟩
      · rw [(cases_of_requireObject hz).1]
        exact .refl
      obtain ⟨rfl, -⟩ := cases_of_requireObject ho
      have hp : Awaits eval ⟨.assignField receiver name value line, frame, s⟩ ⟨value, frame, t⟩
          object name := .fieldValue ((Eval.runIn_bind_of_ok hu _).trans ho)
      rcases Eval.cases_of_runIn_bind hassign with ⟨z, hz, -⟩ | ⟨z, w, hz, hput⟩
      · exact .single (hp.part.step hz)
      · obtain ⟨-, rfl⟩ := Prod.mk.inj hput
        exact .single (hp.step hz)
  | callMethod receiver name arguments line =>
      obtain rfl := Option.some.inj hn
      rcases Eval.cases_of_runIn_bind_of_runIn hu hend with rfl | ⟨y, rfl, hrest⟩
      · exact .refl
      rcases Eval.cases_of_runIn_bind hrest with ⟨z, hz, -⟩ | ⟨object, t, ho, hmethod⟩
      · rw [(cases_of_requireObject hz).1]
        exact .refl
      obtain ⟨rfl, -⟩ := cases_of_requireObject ho
      rcases Eval.cases_of_runIn_bind hmethod with ⟨z, hz, -⟩ | ⟨f, w, hf, hinvoke⟩
      · rw [(cases_of_requireMethod hz).1]
        exact .refl
      obtain ⟨rfl, -⟩ := cases_of_requireMethod hf
      have hp : Prepares eval ⟨.callMethod receiver name arguments line, frame, s⟩ f
          (.object object) arguments w := .callMethod ((Eval.runIn_bind_of_ok hu _).trans ho) hf
      exact (hp.course_invoke hinvoke).1

/-- A visit ends last. -/
theorem Turn.course_end (h : Turn eval v k role w)
    (hu : (eval role w.node w.frame).runIn w.session = (x, u)) {result : Except Exit Value}
    (hend : (evaluateWith eval v.node v.frame).runIn v.session = (result, e)) :
    ∃ u', Resumes eval v w u u' ∧ Course eval v u' e := by
  cases h with
  | first hn => exact ⟨u, .same, course_after_first hn hu hend⟩
  | @statement statements done rest n line frame s t hn hdone =>
      subst hn
      have hrow := fun {result : Except Exit Unit} {e : Session} =>
        @course_after_statement eval s t u e frame line n x done rest [] result
      rw [List.append_nil] at hrow
      rcases Eval.cases_of_runIn_bind hend with ⟨y, hy, -⟩ | ⟨_, t', ht, hpure⟩
      · exact ⟨u, .same, hrow hdone hu hy⟩
      · obtain ⟨-, rfl⟩ := Prod.mk.inj hpure
        exact ⟨u, .same, hrow hdone hu ht⟩
  | @argument _ f receiver arguments done rest n values s t hp hn hdone =>
      subst hn
      have hrow := fun {result : Except Exit (List Value)} {e : Session} =>
        @course_after_argument eval v s t u e n x f receiver done rest [] values result
      rw [List.append_nil] at hrow
      rw [hp.runIn_evaluateWith] at hend
      rcases Eval.cases_of_runIn_bind hend with ⟨y, hy, -⟩ | ⟨all, t', hall, hinvoke⟩
      · exact ⟨u, .same, hrow hp hdone hu hy⟩
      rcases cases_of_invoke hinvoke with ⟨rfl, -⟩ | ⟨hroom, hcall⟩
      · exact ⟨u, .same, hrow hp hdone hu hall⟩
      · have hi : Invokes eval v ⟨f, receiver, all, t'⟩ := .intro hp hall hroom
        exact ⟨u, .same, (hrow hp hdone hu hall).trans (course_call hi hcall).1⟩
  | body hi he =>
      rw [hi.session_eq he hu hend]
      exact ⟨_, .same, .refl⟩
  | @assigned name value declares line frame s t hdefined =>
      have hawaits : Awaits eval ⟨.assign name value declares line, frame, s⟩ ⟨value, frame, t⟩
          frame name := .assigned hdefined
      dsimp only at hend
      rw [evaluateWith, Eval.runIn_bind_of_ok hdefined] at hend
      rcases Eval.cases_of_runIn_bind_of_runIn hu hend with rfl | ⟨y, rfl, hput⟩
      · exact ⟨_, .same, .refl⟩
      · obtain ⟨-, rfl⟩ := Prod.mk.inj hput
        exact ⟨_, .put hawaits hu, .refl⟩
  | @chosen condition consequence alternative line frame b s t hchosen =>
      dsimp only at hend
      rw [evaluateWith, ← bind_assoc, Eval.runIn_bind_of_ok hchosen] at hend
      have hlast : (eval .operand (if b then consequence else alternative) frame).runIn t =
          (result, e) := by
        cases b with
        | true => exact hend
        | false => exact hend
      rw [(Prod.mk.inj (hu.symm.trans hlast)).2]
      exact ⟨_, .same, .refl⟩
  | @entry entries done rest key n line frame s t hn hdone =>
      subst hn
      have hrow := fun {result : Except Exit Unit} {e : Session} =>
        @course_after_entry eval s t u e frame line n x done rest [] key result
      rw [List.append_nil] at hrow
      dsimp only at hend
      rw [evaluateWith, Eval.runIn_bind_of_ok (Eval.runIn_add (.record none) s)] at hend
      rcases Eval.cases_of_runIn_bind hend with ⟨y, hy, -⟩ | ⟨_, t', ht, hthis⟩
      · exact hrow hdone hu hy
      · obtain ⟨-, rfl⟩ := Prod.mk.inj hthis
        obtain ⟨u', hu', hcourse⟩ := hrow hdone hu ht
        exact ⟨u', hu', hcourse.tail (.this ht)⟩
  | @fieldValue receiver value name line frame object s t hvalue =>
      have hawaits : Awaits eval ⟨.assignField receiver name value line, frame, s⟩
          ⟨value, frame, t⟩ object name := .fieldValue hvalue
      dsimp only at hend
      rw [evaluateWith, ← bind_assoc, Eval.runIn_bind_of_ok hvalue] at hend
      rcases Eval.cases_of_runIn_bind_of_runIn hu hend with rfl | ⟨y, rfl, hput⟩
      · exact ⟨_, .same, .refl⟩
      · obtain ⟨-, rfl⟩ := Prod.mk.inj hput
        exact ⟨_, .put hawaits hu, .refl⟩

/-- The call of a visit comes after every part that is not its body. -/
theorem Turn.lt_or_frame_eq (h : Turn eval v k role w) {i : Invocation} (hi : Invokes eval v i) :
    k < i.arguments.length + 1 ∨ w.frame = i.session.store.fresh := by
  cases h with
  | first => exact .inl (Nat.succ_pos _)
  | argument hp hn hdone =>
      cases hi with
      | intro hp' ha =>
          obtain ⟨rfl, rfl, rfl, rfl⟩ := hp.unique hp'
          have hlength := length_of_runArguments ha
          rw [hn, List.length_append, List.length_cons] at hlength
          exact .inl (by dsimp only; omega)
  | body hi' he =>
      obtain rfl := hi.unique hi'
      exact .inr rfl
  | statement | assigned | chosen | entry | fieldValue =>
      cases hi with
      | intro hp _ => cases hp

/-- A frame that a part of a visit has left behind is not one that the visit makes. -/
theorem Turn.elsewhere (h : Turn eval v k role w)
    (hu : (eval role w.node w.frame).runIn w.session = (x, u))
    (hgrows : ∀ role, Accumulates (eval role)) {r : Ref}
    (hr : u.store.IsFrame r) (hf : r ≠ v.frame) (hw : r ≠ w.frame) : Elsewhere eval v r := by
  refine ⟨hf, fun i hi => ?_⟩
  rcases h.lt_or_frame_eq hi with hlt | hframe
  · exact (hr.mono ((h.course_invokes hu hi hlt).grows hgrows).store).ne_fresh
  · rwa [← hframe]

end

end Scriptlet
