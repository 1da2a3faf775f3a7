import Scriptlet.Entries
import Scriptlet.Node

/-!
# Nodes on Other Lines

`Node.relined` changes the lines of a node, at every depth, and nothing else. Made constant, it
leaves of a node what is left when lines do not count.

## Main results

* `Node.relined_id`: lines that are kept change nothing.
* `Node.height_relined`: changing lines keeps the height.
-/

namespace Scriptlet

namespace Node

mutual

/-- The node in which every line is changed by `f`. -/
def relined (f : Int → Int) : Node → Node
  | block statements line => block (relinedAll f statements) (f line)
  | literal value serial line => literal value serial (f line)
  | call callee arguments line => call (callee.relined f) (relinedAll f arguments) (f line)
  | name x line => name x (f line)
  | assign x value declares line => assign x (value.relined f) declares (f line)
  | function x parameters body line => function x parameters (body.relined f) (f line)
  | giveBack value line => giveBack (value.relined f) (f line)
  | branch condition consequence alternative line =>
    branch (condition.relined f) (consequence.relined f) (alternative.relined f) (f line)
  | record entries line => record (relinedEntries f entries) (f line)
  | field receiver x line => field (receiver.relined f) x (f line)
  | assignField receiver x value line =>
    assignField (receiver.relined f) x (value.relined f) (f line)
  | callMethod receiver x arguments line =>
    callMethod (receiver.relined f) x (relinedAll f arguments) (f line)

/-- The nodes in which every line is changed. -/
def relinedAll (f : Int → Int) : List Node → List Node
  | [] => []
  | n :: rest => n.relined f :: relinedAll f rest

/-- The entries of an object literal in which every line is changed. -/
def relinedEntries (f : Int → Int) : List (String × Node) → List (String × Node)
  | [] => []
  | (key, n) :: rest => (key, n.relined f) :: relinedEntries f rest

end

/-- Changing the lines of some nodes is changing those of each. -/
@[simp] theorem relinedAll_eq_map (f : Int → Int) (ns : List Node) :
    relinedAll f ns = ns.map (relined f) := by
  induction ns with
  | nil => rfl
  | cons n rest ih => rw [relinedAll, ih, List.map_cons]

/-- Changing the lines of entries is changing those of each node. -/
@[simp] theorem relinedEntries_eq_map (f : Int → Int) (entries : List (String × Node)) :
    relinedEntries f entries = entries.map (Prod.map id (relined f)) := by
  induction entries with
  | nil => rfl
  | cons e rest ih => rw [relinedEntries, ih, List.map_cons, Prod.map, id]

/-- The line of a node is changed. -/
@[simp] theorem line_relined (f : Int → Int) (n : Node) : (n.relined f).line = f n.line := by
  cases n <;> rfl

/-- The kind of a node is not changed. -/
@[simp] theorem kind_relined (f : Int → Int) (n : Node) : (n.relined f).kind = n.kind := by
  cases n <;> rfl

mutual

/-- Lines that are kept change nothing. -/
theorem relined_id : (n : Node) → n.relined id = n
  | block statements line => by rw [relined, relinedAll_id, id]
  | literal value serial line => rfl
  | call callee arguments line => by rw [relined, relined_id callee, relinedAll_id, id]
  | name x line => rfl
  | assign x value declares line => by rw [relined, relined_id value, id]
  | function x parameters body line => by rw [relined, relined_id body, id]
  | giveBack value line => by rw [relined, relined_id value, id]
  | branch condition consequence alternative line => by
    rw [relined, relined_id condition, relined_id consequence, relined_id alternative, id]
  | record entries line => by rw [relined, relinedEntries_id, id]
  | field receiver x line => by rw [relined, relined_id receiver, id]
  | assignField receiver x value line => by
    rw [relined, relined_id receiver, relined_id value, id]
  | callMethod receiver x arguments line => by
    rw [relined, relined_id receiver, relinedAll_id, id]

theorem relinedAll_id : (ns : List Node) → relinedAll id ns = ns
  | [] => rfl
  | n :: rest => by rw [relinedAll, relined_id n, relinedAll_id rest]

theorem relinedEntries_id : (entries : List (String × Node)) → relinedEntries id entries = entries
  | [] => rfl
  | (key, n) :: rest => by rw [relinedEntries, relined_id n, relinedEntries_id rest]

end

mutual

/-- The lines of a node say nothing about its height. -/
theorem height_relined (f : Int → Int) : (n : Node) → (n.relined f).height = n.height
  | block statements line => by rw [relined, height, height, heightAll_relined f statements]
  | literal value serial line => rfl
  | call callee arguments line => by
    rw [relined, height, height, height_relined f callee, heightAll_relined f arguments]
  | name x line => rfl
  | assign x value declares line => by rw [relined, height, height, height_relined f value]
  | function x parameters body line => by rw [relined, height, height, height_relined f body]
  | giveBack value line => by rw [relined, height, height, height_relined f value]
  | branch condition consequence alternative line => by
    rw [relined, height, height, height_relined f condition, height_relined f consequence,
      height_relined f alternative]
  | record entries line => by rw [relined, height, height, heightEntries_relined f entries]
  | field receiver x line => by rw [relined, height, height, height_relined f receiver]
  | assignField receiver x value line => by
    rw [relined, height, height, height_relined f receiver, height_relined f value]
  | callMethod receiver x arguments line => by
    rw [relined, height, height, height_relined f receiver, heightAll_relined f arguments]

theorem heightAll_relined (f : Int → Int) :
    (ns : List Node) → heightAll (relinedAll f ns) = heightAll ns
  | [] => rfl
  | n :: rest => by
    rw [relinedAll, heightAll, heightAll, height_relined f n, heightAll_relined f rest]

theorem heightEntries_relined (f : Int → Int) :
    (entries : List (String × Node)) →
      heightEntries (relinedEntries f entries) = heightEntries entries
  | [] => rfl
  | (key, n) :: rest => by
    rw [relinedEntries, heightEntries, heightEntries, height_relined f n,
      heightEntries_relined f rest]

end

end Node

/-- Putting an entry, and changing the contents of all. -/
theorem Entries.map_put {α β : Type} (f : α → β) (entries : Entries α) (name : String) (a : α) :
    (entries.put name a).map (Prod.map id f) = put (entries.map (Prod.map id f)) name (f a) := by
  induction entries with
  | nil => rfl
  | cons e rest ih =>
      obtain ⟨k, b⟩ := e
      by_cases h : k = name
      · simp [put, h]
      · simp [put, h, ih]

end Scriptlet
