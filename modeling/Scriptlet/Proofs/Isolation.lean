import Scriptlet.Proofs.Carried

/-!
# Runs Are Isolated From What Was Done Before

A program that is run in a session in which something has been done already prints the text, notes
the events and ends in the way it does on its own, and it leaves every object alone that was there
before. Nothing is demanded of what was done: the built-in functions may have been replaced, and
objects may hold each other. Of the program it is demanded that its literals hold no objects and no
nodes, since such a literal could hand it what was there before.

## Main results

* `inOwnGlobal_isolated`: a run in any session.
-/

namespace Scriptlet

/-- Where lines are kept, only what a `return` hands over is not the same elsewhere. -/
theorem Carrier.exit_of_keeps {c : Carrier} (hk : c.keeps = true) {x : Exit}
    (hx : ∀ v, x ≠ .returned v) : c.exit x = x := by
  cases x with
  | returned v => exact absurd rfl (hx v)
  | mistake m line => rw [exit, if_pos hk]
  | fault | tooDeep => rfl

/-- A run in any session goes as it goes on its own, and leaves what was there before alone. -/
theorem inOwnGlobal_isolated {program : Node} (h : program.Plain) (stack : Stack) (levels : Nat)
    (s : Session) :
    let alone := (inOwnGlobal stack levels program).runIn .empty
    let later := (inOwnGlobal stack levels program).runIn s
    later.1 = alone.1 ∧ later.2.output = s.output ++ alone.2.output ∧
      later.2.events = s.events ++ alone.2.events ∧
      ∀ r o, s.store.object? r = some o → later.2.store.object? r = some o := by
  intro alone later
  let c : Carrier := ⟨s, true⟩
  have hlater : later = c.outcome id alone := by
    have hrun := (c.carries_inOwnGlobal (b := false) h nofun stack levels).run
    rwa [c.session_empty, c.node_of_keeps rfl] at hrun
  have hkept (r : Ref) (o : Object) (ho : s.store.object? r = some o) (t : Session) :
      (c.session t).store.object? r = some o := by
    show (c.store t.store).object? r = some o
    rw [c.object?_store_of_lt _ (Store.index_lt_of_object? ho)]
    exact ho
  rcases halone : alone with ⟨x | u, t⟩
  · have hreturn (v : Value) : x ≠ .returned v := by
      rcases exit_of_inOwnGlobal (congrArg Prod.fst halone) with rfl | ⟨-, hx⟩
      · exact Exit.noConfusion
      · exact hx v
    rw [hlater, halone, Carrier.outcome, Carrier.exit_of_keeps rfl hreturn]
    exact ⟨rfl, rfl, rfl, fun r o ho => hkept r o ho t⟩
  · rw [hlater, halone]
    exact ⟨rfl, rfl, rfl, fun r o ho => hkept r o ho t⟩

namespace Isolation

/-- A session in which `print` was replaced by a record that holds itself. -/
def clobbered : Session :=
  ((do evaluate .standard 80 (.assign "print" (.record [] 1) false 1) (← openGlobal) :
    Eval Value).runIn .empty).2

/-- Prints a record. -/
def program : Node :=
  .block [.call (.name "print" 1) [.record [("a", .constant (.integer 1) 1)] 1] 1] 1

theorem plain_program : program.Plain := by
  refine .block (List.forall_mem_singleton.mpr (.call .name (List.forall_mem_singleton.mpr ?_)))
  exact .record (List.forall_mem_singleton.mpr (.literal trivial))

end Isolation

/-- The program prints its record although `print` is a record in the session, and that record
stays as it is. -/
theorem isolated_clobbered :
    Isolation.clobbered.store.read ⟨0⟩ "print" = .object ⟨13⟩ ∧
    ((inOwnGlobal .standard 80 Isolation.program).runIn Isolation.clobbered).1.toOption = some () ∧
    ((inOwnGlobal .standard 80 Isolation.program).runIn Isolation.clobbered).2.output =
      "\x7b a: 1, this: ... \x7d\n" ∧
    ((inOwnGlobal .standard 80 Isolation.program).runIn Isolation.clobbered).2.store.object? ⟨13⟩ =
      some ⟨"object", none, none, [("this", .object ⟨13⟩)]⟩ := by
  obtain ⟨hends, houtput, -, hkept⟩ :=
    inOwnGlobal_isolated Isolation.plain_program .standard 80 Isolation.clobbered
  refine ⟨rfl, ?_, houtput.trans ?_, hkept _ _ rfl⟩
  · rw [hends]
    decide +kernel
  · decide +kernel

end Scriptlet
