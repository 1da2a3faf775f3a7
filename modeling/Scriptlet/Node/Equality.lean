import Scriptlet.Node

/-!
# Equality of Values

Two values are *the same* when they have one type and agree: integers and strings by what
they are, objects by identity, nodes part by part with their lines. The entries of two object
literals are compared as maps, so their order does not matter; of several entries under one
key the first counts.

Two nodes that are the same may still be copies of each other. They are *identical* when the
serial numbers of their literals agree too. A node in which no literal has a number of its own
is not told apart from its copies, but such a node holds no objects and never contains itself.
-/

namespace Scriptlet

/-- Whether every key of the first list of entries occurs in the second. -/
def keysWithin (entries others : List (String × Node)) : Bool :=
  entries.all fun e => others.any fun o => o.1 == e.1

mutual

/-- Whether two values are of one type and equal; `serials` tells whether serial numbers
count. -/
def Value.agrees (serials : Bool) : Value → Value → Bool
  | .undefined, .undefined => true
  | .integer a, .integer b => a == b
  | .string a, .string b => a == b
  | .object a, .object b => a == b
  | .node a, .node b => Node.agrees serials a b
  | _, _ => false
termination_by structural x => x

/-- Whether two nodes are of one kind and equal in all their parts. -/
def Node.agrees (serials : Bool) : Node → Node → Bool
  | .block a l, .block b m => Node.agreesAll serials a b && l == m
  | .literal a s l, .literal b t m => Value.agrees serials a b && (!serials || s == t) && l == m
  | .call a as l, .call b bs m =>
    Node.agrees serials a b && Node.agreesAll serials as bs && l == m
  | .name a l, .name b m => a == b && l == m
  | .assign n a d l, .assign k b e m => n == k && Node.agrees serials a b && d == e && l == m
  | .function n ps a l, .function k qs b m =>
    n == k && ps == qs && Node.agrees serials a b && l == m
  | .giveBack a l, .giveBack b m => Node.agrees serials a b && l == m
  | .branch a b c l, .branch a' b' c' m =>
    Node.agrees serials a a' && Node.agrees serials b b' && Node.agrees serials c c' && l == m
  | .record as l, .record bs m =>
    Node.agreesEntries serials [] as bs && keysWithin bs as && l == m
  | .field a n l, .field b k m => Node.agrees serials a b && n == k && l == m
  | .assignField a n v l, .assignField b k w m =>
    Node.agrees serials a b && n == k && Node.agrees serials v w && l == m
  | .callMethod a n as l, .callMethod b k bs m =>
    Node.agrees serials a b && n == k && Node.agreesAll serials as bs && l == m
  | _, _ => false

/-- Whether two lists of nodes are equal, node by node. -/
def Node.agreesAll (serials : Bool) : List Node → List Node → Bool
  | [], [] => true
  | a :: as, b :: bs => Node.agrees serials a b && Node.agreesAll serials as bs
  | _, _ => false

/-- Whether the entries whose keys are not among `passed` each meet an equal one under their
key. -/
def Node.agreesEntries (serials : Bool) (passed : List String) :
    List (String × Node) → List (String × Node) → Bool
  | [], _ => true
  | (key, a) :: rest, others =>
    (passed.contains key ||
      match others.lookup key with
      | some b => Node.agrees serials a b
      | none => false) &&
    Node.agreesEntries serials (key :: passed) rest others

end

/-- Whether two values are of one type and equal. -/
def Value.same (a b : Value) : Bool := Value.agrees false a b

/-- Whether two nodes are of one kind and equal in all their parts. -/
def Node.same (a b : Node) : Bool := Node.agrees false a b

/-- Whether two nodes are one node, and not copies of each other. -/
def Node.identical (a b : Node) : Bool := Node.agrees true a b

end Scriptlet
