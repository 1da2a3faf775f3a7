import Scriptlet.Node.Description
import Scriptlet.Store

/-!
# How Values Look

There are three ways to write a value.

* *Displayed*, as error messages show it: a string between double quotes, nothing in it
  escaped; an object as its entries between braces, or by its name if it is a function
  without entries.
* *Described*, as it stands inside the description of a node: as displayed, but a string is
  quoted and escaped.
* *Printed*, as `print` writes it: a string as it is, everything else described.

An object that is met again inside itself is an ellipsis, while one that is only met twice is
written in full both times. A node starts afresh: the objects around a node are not counted
as enclosing the objects in it, but the nodes around it are, and a node that is met again
inside itself is an ellipsis too.

A text is written as deep as there are levels for it. A displayed value takes one, and between
an object and an entry of it there are as many more as the depth of the text says, so the text of
a long row of objects inside one another may not be there. It is not there, either, when an
integer in it is too long to write.

## Main definitions

* `Store.render`: the text of a value inside other objects, as deep as some levels go.
* `Store.display`, `Store.describe`, `Store.printed`: the three ways to write a value.

## Main results

* `render_eq_sub`: leaving levels out takes as many away, and changes nothing else.
-/

namespace Scriptlet

namespace Store

/-- The text of an object from its entries, already written. -/
def entriesText (entries : List String) : String :=
  "\x7b " ++ ", ".intercalate entries ++ " \x7d"

/-- A string between double quotes. -/
def stringText (s : String) : String := "\x22" ++ s ++ "\x22"

/-- The text of a value inside the objects `within` and the nodes `enclosing`, when the text nests
no deeper than `levels` and the first `gap` of these are left out. -/
def render (depth : TextDepth) (s : Store) : (levels gap : Nat) → (within : List Ref) →
    (enclosing : List Node) → Value → Except NoText String
  | 0, _, _, _, _ => .error .tooDeep
  | levels + 1, gap + 1, within, enclosing, v => s.render depth levels gap within enclosing v
  | _ + 1, 0, _, _, .string text => .ok (stringText text)
  | levels + 1, 0, within, enclosing, .object r =>
    if within.contains r then .ok ellipsis
    else
      match s.object? r with
      | none => .ok ellipsis
      | some o =>
        if o.entries.isEmpty then
          .ok (if o.callable then "<function " ++ o.name ++ ">" else "\x7b\x7d")
        else do
          let entries ← o.entries.mapM fun (name, v) => do
            return name ++ ": " ++ (← s.render depth levels depth.entry (r :: within) enclosing v)
          return entriesText entries
  | levels + 1, 0, _, enclosing, v =>
    v.describe depth
      (fun left enclosing r => s.render depth levels (levels - left) [] enclosing (.object r))
      levels enclosing

/-- Leaving levels out takes as many away, and changes nothing else. -/
theorem render_eq_sub (depth : TextDepth) (s : Store) (levels gap : Nat) (within : List Ref)
    (enclosing : List Node) (v : Value) :
    s.render depth levels gap within enclosing v =
      s.render depth (levels - gap) 0 within enclosing v := by
  induction levels generalizing gap with
  | zero =>
      rw [Nat.zero_sub]
      rfl
  | succ levels ih =>
      cases gap with
      | zero => rfl
      | succ gap =>
          rw [Nat.add_sub_add_right]
          exact ih gap

/-- A value as error messages show it. -/
def display (depth : TextDepth) (s : Store) (levels : Nat) (v : Value) : Except NoText String :=
  s.render depth levels 0 [] [] v

/-- A value as it stands in a description. -/
def describe (depth : TextDepth) (s : Store) (levels : Nat) (v : Value) : Except NoText String :=
  v.describe depth (fun left enclosing r => s.render depth left 0 [] enclosing (.object r))
    levels []

/-- A value as `print` writes it. -/
def printed (depth : TextDepth) (s : Store) (levels : Nat) : Value → Except NoText String
  | .string text => .ok text
  | .undefined => .ok "undefined"
  | v => s.describe depth levels v

end Store

end Scriptlet
