import Scriptlet.Proofs.Leading

/-!
# The Blocks of a Tree

What is read of an expression does not depend on the statements before it, but its blocks have
statements of their own, and there the two readings of a named function may tie again. A tree
answers for the ties in its blocks by the lists of statements in them (`Derivation.bodies`), and a
list answers for its own by how its statements are put together (`Derivation.WellChosen`): a
function statement stands before a parenthesis or a minus sign only if one expression follows it
and the list ends there without a semicolon, and no list ends so in an expression that is such a
function and such an expression. These are the trees that are read as what they mean, and without
a tie all trees are among them.

One list in a tree may be exchanged for another with the same tokens (`Derivation.exchange`).

## Main definitions

* `Derivation.bodies`: the statements of all blocks in a tree.
* `Derivation.WellChosen`: of two readings that tie, a list has the one that is read.
* `Derivation.Settled`: so have the bodies of all blocks in a tree.
* `Derivation.exchange`: the tree in which the bodies of blocks are exchanged.

## Main results

* `Derivation.settled_of_not_tied`: where nothing ties, everything is settled.
* `Derivation.forall_mem_bodies_exchange`: the bodies of a tree whose bodies are exchanged.
-/

namespace Scriptlet.Source

open Scriptlet.Text (Position)

namespace Derivation

variable {c : Symbol}

/-! ### The bodies of blocks -/

/-- The statements of all blocks in a tree, those of a block before those of the blocks in it. -/
def bodies {c : Symbol} : Derivation c → List (Derivation .statements)
  | program body => body.bodies
  | done => []
  | last e => e.bodies
  | cons first rest => first.bodies ++ rest.bodies
  | ended e _ => e.bodies
  | chosen c => c.bodies
  | defined f => f.bodies
  | skip _ => []
  | value e => e.bodies
  | bareReturn _ => []
  | giveBack _ e => e.bodies
  | bareDeclaration .. => []
  | declaration _ _ _ _ _ _ e => e.bodies
  | block _ body _ => body :: body.bodies
  | choice _ _ test _ body other => test.bodies ++ (body.bodies ++ other.bodies)
  | noElse => []
  | elseBlock _ b => b.bodies
  | elseChoice _ c => c.bodies
  | named _ _ _ _ _ _ body => body.bodies
  | noParameters => []
  | parameters _ => []
  | oneName .. => []
  | moreNames .. => []
  | plain r => r.bodies
  | assign _ _ _ e => e.bodies
  | assignField o _ _ _ _ e => o.bodies ++ e.bodies
  | tighter r => r.bodies
  | binary left _ _ _ right => left.bodies ++ right.bodies
  | bare o => o.bodies
  | minus _ r => r.bodies
  | uncut c => c.bodies
  | field o _ _ _ => o.bodies
  | head h => h.bodies
  | call c _ given _ => c.bodies ++ given.bodies
  | method o _ _ _ _ given _ => o.bodies ++ given.bodies
  | integer .. => []
  | string .. => []
  | name .. => []
  | parentheses _ e _ => e.bodies
  | emptyRecord .. => []
  | record _ ms _ => ms.bodies
  | function f => f.bodies
  | lambda _ _ _ _ body => body.bodies
  | noArguments => []
  | arguments es => es.bodies
  | oneExpression e => e.bodies
  | moreExpressions e _ rest => e.bodies ++ rest.bodies
  | oneMember m => m.bodies
  | trailingComma m _ => m.bodies
  | moreMembers m _ rest => m.bodies ++ rest.bodies
  | underName _ _ _ e => e.bodies
  | underString _ _ _ _ e => e.bodies

/-- The body of a block spells less than any tree that the block is in. -/
theorem length_lt_of_mem_bodies {d : Derivation c} {b : Derivation .statements}
    (h : b ∈ d.bodies) : b.lexemes.length < d.lexemes.length := by
  induction d with
  | program _ ih | last _ ih | chosen _ ih | defined _ ih | value _ ih | plain _ ih
  | tighter _ ih | bare _ ih | uncut _ ih | head _ ih | function _ ih | arguments _ ih
  | oneExpression _ ih | oneMember _ ih => exact ih h
  | block p body q ih =>
      rw [lexemes, List.length_cons, List.length_append]
      rcases List.mem_cons.mp h with rfl | h
      · omega
      · have hlength := ih h
        omega
  | choice w p test q body other ih ih₁ ih₂ =>
      simp only [lexemes, List.length_cons, List.length_append]
      rcases List.mem_append.mp h with h | h
      · have hlength := ih h
        omega
      rcases List.mem_append.mp h with h | h
      · have hlength := ih₁ h
        omega
      · have hlength := ih₂ h
        omega
  | ended _ _ ih | giveBack _ _ ih | declaration _ _ _ _ _ _ _ ih | elseBlock _ _ ih
  | elseChoice _ _ ih | assign _ _ _ _ ih | minus _ _ ih | field _ _ _ _ ih
  | parentheses _ _ _ ih | record _ _ _ ih | trailingComma _ _ ih | underName _ _ _ _ ih
  | underString _ _ _ _ _ ih | named _ _ _ _ _ _ _ _ ih | lambda _ _ _ _ _ _ ih =>
      have hlength := ih h
      simp only [lexemes, List.length_cons, List.length_append]
      omega
  | cons _ _ ih ih' | assignField _ _ _ _ _ _ ih ih' | binary _ _ _ _ _ ih ih'
  | call _ _ _ _ ih ih' | method _ _ _ _ _ _ _ ih ih' | moreExpressions _ _ _ ih ih'
  | moreMembers _ _ _ ih ih' =>
      simp only [lexemes, List.length_cons, List.length_append]
      rcases List.mem_append.mp h with h | h
      · have hlength := ih h
        omega
      · have hlength := ih' h
        omega
  | _ => cases h

/-! ### Exchanging bodies -/

/-- The tree in which `g` has exchanged the bodies of all blocks that are in no other block. -/
def exchange (g : Derivation .statements → Derivation .statements) {c : Symbol} :
    Derivation c → Derivation c
  | program body => program (body.exchange g)
  | done => done
  | last e => last (e.exchange g)
  | cons first rest => cons (first.exchange g) (rest.exchange g)
  | ended e q => ended (e.exchange g) q
  | chosen c => chosen (c.exchange g)
  | defined f => defined (f.exchange g)
  | skip q => skip q
  | value e => value (e.exchange g)
  | bareReturn p => bareReturn p
  | giveBack p e => giveBack p (e.exchange g)
  | bareDeclaration k hk p n q => bareDeclaration k hk p n q
  | declaration k hk p n q a e => declaration k hk p n q a (e.exchange g)
  | block p body q => block p (g body) q
  | choice w p test q body other =>
    choice w p (test.exchange g) q (body.exchange g) (other.exchange g)
  | noElse => noElse
  | elseBlock w b => elseBlock w (b.exchange g)
  | elseChoice w c => elseChoice w (c.exchange g)
  | named w n p o ps q body => named w n p o ps q (body.exchange g)
  | noParameters => noParameters
  | parameters ns => parameters ns
  | oneName n p => oneName n p
  | moreNames n p q rest => moreNames n p q rest
  | plain r => plain (r.exchange g)
  | assign n p a e => assign n p a (e.exchange g)
  | assignField o d n p a e => assignField (o.exchange g) d n p a (e.exchange g)
  | tighter r => tighter (r.exchange g)
  | binary left op hop p right => binary (left.exchange g) op hop p (right.exchange g)
  | bare o => bare (o.exchange g)
  | minus p r => minus p (r.exchange g)
  | uncut c => uncut (c.exchange g)
  | field o d n p => field (o.exchange g) d n p
  | head h => head (h.exchange g)
  | call c p given q => call (c.exchange g) p (given.exchange g) q
  | method o d n p b given q => method (o.exchange g) d n p b (given.exchange g) q
  | integer digits p => integer digits p
  | string mark body p => string mark body p
  | name text p => name text p
  | parentheses p e q => parentheses p (e.exchange g) q
  | emptyRecord p q => emptyRecord p q
  | record p ms q => record p (ms.exchange g) q
  | function f => function (f.exchange g)
  | lambda w p ps q body => lambda w p ps q (body.exchange g)
  | noArguments => noArguments
  | arguments es => arguments (es.exchange g)
  | oneExpression e => oneExpression (e.exchange g)
  | moreExpressions e q rest => moreExpressions (e.exchange g) q (rest.exchange g)
  | oneMember m => oneMember (m.exchange g)
  | trailingComma m q => trailingComma (m.exchange g) q
  | moreMembers m q rest => moreMembers (m.exchange g) q (rest.exchange g)
  | underName k p q e => underName k p q (e.exchange g)
  | underString m b p q e => underString m b p q (e.exchange g)

section

variable {g : Derivation .statements → Derivation .statements}

/-- Bodies with the same tokens make a tree with the same tokens. -/
theorem lexemes_exchange (hg : ∀ b, (g b).lexemes = b.lexemes) (d : Derivation c) :
    (d.exchange g).lexemes = d.lexemes := by
  induction d with
  | block p body q _ => rw [exchange, lexemes, lexemes, hg]
  | _ => simp only [exchange, lexemes, *]

/-- Whatever holds of the new bodies, and of all bodies in them, holds of all bodies of the new
tree. -/
theorem forall_mem_bodies_exchange {P : Derivation .statements → Prop} {d : Derivation c}
    (h : ∀ b ∈ d.bodies, P (g b) ∧ ∀ x ∈ (g b).bodies, P x) : ∀ x ∈ (d.exchange g).bodies, P x := by
  induction d with
  | block p body q ih =>
      obtain ⟨hbody, hinner⟩ := h body List.mem_cons_self
      exact List.forall_mem_cons.mpr ⟨hbody, hinner⟩
  | choice w p test q body other ih ih₁ ih₂ =>
      obtain ⟨htest, h⟩ := List.forall_mem_append.mp h
      obtain ⟨hbody, hother⟩ := List.forall_mem_append.mp h
      exact List.forall_mem_append.mpr
        ⟨ih htest, List.forall_mem_append.mpr ⟨ih₁ hbody, ih₂ hother⟩⟩
  | cons _ _ ih ih' | assignField _ _ _ _ _ _ ih ih' | binary _ _ _ _ _ ih ih'
  | call _ _ _ _ ih ih' | method _ _ _ _ _ _ _ ih ih' | moreExpressions _ _ _ ih ih'
  | moreMembers _ _ _ ih ih' =>
      obtain ⟨hleft, hright⟩ := List.forall_mem_append.mp h
      exact List.forall_mem_append.mpr ⟨ih hleft, ih' hright⟩
  | program _ ih | last _ ih | chosen _ ih | defined _ ih | value _ ih | plain _ ih
  | tighter _ ih | bare _ ih | uncut _ ih | head _ ih | function _ ih | arguments _ ih
  | oneExpression _ ih | oneMember _ ih | ended _ _ ih | giveBack _ _ ih
  | declaration _ _ _ _ _ _ _ ih | elseBlock _ _ ih | elseChoice _ _ ih | assign _ _ _ _ ih
  | minus _ _ ih | field _ _ _ _ ih | parentheses _ _ _ ih | record _ _ _ ih
  | trailingComma _ _ ih | underName _ _ _ _ ih | underString _ _ _ _ _ ih
  | named _ _ _ _ _ _ _ _ ih | lambda _ _ _ _ _ _ ih => exact ih h
  | _ => exact List.forall_mem_nil _

end

end Derivation

/-! ### Lists that are read as what they mean -/

/-- Whether tokens are a named function and an expression that begins with a parenthesis or a minus
sign. -/
def Splits (xs : List Lexeme) : Prop :=
  ∃ (f : Derivation .named) (e : Derivation .expression), xs = f.lexemes ++ e.lexemes ∧
    BeginsEither e.lexemes

theorem Splits.ties {xs : List Lexeme} (h : Splits xs) : Ties xs := by
  obtain ⟨f, e, rfl, hb⟩ := h
  exact ties_of_beginsEither f hb

namespace Derivation

variable {c : Symbol}

/-- Whether a list has, of two readings that tie, the one that is read. Only where the list ends
without a semicolon does a function statement stand before the rest of what could be one
expression. Nothing is asked of trees that are no lists. -/
def WellChosen {c : Symbol} : Derivation c → Prop
  | last e => ¬Splits e.lexemes
  | cons first rest =>
    (∀ f, first = defined f → BeginsEither rest.lexemes → ∃ e, rest = last (value e)) ∧
      rest.WellChosen
  | _ => True

/-- Whether the bodies of all blocks in a tree have the readings that are read. -/
def Settled (d : Derivation c) : Prop := ∀ b ∈ d.bodies, b.WellChosen

theorem wellChosen_of_not_tied : (d : Derivation .statements) → ¬d.Tied → d.WellChosen
  | done, _ => trivial
  | last e, h => fun hsplits => h (.inl hsplits.ties)
  | cons first rest, h => by
      obtain ⟨hties, h⟩ := not_or.mp h
      refine ⟨fun f hf hb => ?_, rest.wellChosen_of_not_tied (not_or.mp h).2⟩
      obtain rfl := hf
      exact absurd (ties_of_beginsEither f hb) hties

/-- Where nothing ties, everything is settled. -/
theorem settled_of_not_tied {d : Derivation c} (h : ¬d.Tied) : d.Settled := by
  unfold Settled
  induction d with
  | block p body q ih => exact List.forall_mem_cons.mpr ⟨body.wellChosen_of_not_tied h, ih h⟩
  | choice w p test q body other ih ih₁ ih₂ =>
      obtain ⟨htest, h⟩ := not_or.mp h
      obtain ⟨hbody, hother⟩ := not_or.mp h
      exact List.forall_mem_append.mpr
        ⟨ih htest, List.forall_mem_append.mpr ⟨ih₁ hbody, ih₂ hother⟩⟩
  | last _ ih => exact ih (not_or.mp h).2
  | cons _ _ ih ih' =>
      obtain ⟨hleft, hright⟩ := not_or.mp (not_or.mp h).2
      exact List.forall_mem_append.mpr ⟨ih hleft, ih' hright⟩
  | assignField _ _ _ _ _ _ ih ih' | binary _ _ _ _ _ ih ih'
  | call _ _ _ _ ih ih' | method _ _ _ _ _ _ _ ih ih' | moreExpressions _ _ _ ih ih'
  | moreMembers _ _ _ ih ih' =>
      obtain ⟨hleft, hright⟩ := not_or.mp h
      exact List.forall_mem_append.mpr ⟨ih hleft, ih' hright⟩
  | program _ ih | chosen _ ih | defined _ ih | value _ ih | plain _ ih
  | tighter _ ih | bare _ ih | uncut _ ih | head _ ih | function _ ih | arguments _ ih
  | oneExpression _ ih | oneMember _ ih | ended _ _ ih | giveBack _ _ ih
  | declaration _ _ _ _ _ _ _ ih | elseBlock _ _ ih | elseChoice _ _ ih | assign _ _ _ _ ih
  | minus _ _ ih | field _ _ _ _ ih | parentheses _ _ _ ih | record _ _ _ ih
  | trailingComma _ _ ih | underName _ _ _ _ ih | underString _ _ _ _ _ ih
  | named _ _ _ _ _ _ _ _ ih | lambda _ _ _ _ _ _ ih => exact ih h
  | _ => exact List.forall_mem_nil _

end Derivation

end Scriptlet.Source
