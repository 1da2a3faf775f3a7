import Mathlib.Data.List.Induction
import Scriptlet.Proofs.Language

/-!
# Well-Formed Nodes

Not every node can be written. In a text, blocks, choices, returns and declarations have their
places, names are spelled as names are, and literals are what can be spelled. A node is
*well-formed* if it keeps to that, whatever its lines are; where it stands says what it may be.

## Main definitions

* `Standing`: where a node stands in another one.
* `Node.WellFormed`: whether a node may stand there.

## Main results

* `Source.Derivation.wellFormed_lower`: what a tree means is well-formed.
* `Source.wellFormed_of_program`: every program is well-formed.
-/

namespace Scriptlet

/-- Where a node stands. -/
inductive Standing
  /-- As a program, as the body of a function or as a branch of a choice. -/
  | block
  /-- Directly in a block. -/
  | statement
  /-- Anywhere else. -/
  | expression

/-- Whether a name is spelled as a name: it is none of the keywords, nor the symbol of an
operator. -/
def IsName (x : String) : Prop := (Source.Token.name x).WellSpelled

/-- Whether a node may stand in a place, in a program that is written. The undefined value is only
written by leaving the value of a `return` or a declaration out, and an operator's symbol only with
two operands. -/
inductive Node.WellFormed : Standing → Node → Prop
  | block {statements : List Node} {line : Int} (h : ∀ n ∈ statements, n.WellFormed .statement) :
      WellFormed .block (.block statements line)
  -- what only stands in a block
  | bareReturn {place line : Int} :
      WellFormed .statement (.giveBack (.constant .undefined place) line)
  | giveBack {value : Node} {line : Int} (h : value.WellFormed .expression) :
      WellFormed .statement (.giveBack value line)
  | bareDeclaration {x : String} {place line : Int} (hx : IsName x) :
      WellFormed .statement (.assign x (.constant .undefined place) true line)
  | declaration {x : String} {value : Node} {line : Int} (hx : IsName x)
      (h : value.WellFormed .expression) : WellFormed .statement (.assign x value true line)
  | branch {condition consequence alternative : Node} {line : Int}
      (hc : condition.WellFormed .expression) (hq : consequence.WellFormed .block)
      (ha : alternative.WellFormed .block) :
      WellFormed .statement (.branch condition consequence alternative line)
  | statement {n : Node} (h : n.WellFormed .expression) : WellFormed .statement n
  -- what stands anywhere
  | integer {k : Nat} {line : Int} (hk : k < Text.numeralBound) :
      WellFormed .expression (.constant (.integer k) line)
  | string {s : String} {line : Int} : WellFormed .expression (.constant (.string s) line)
  | name {x : String} {line : Int} (hx : IsName x) : WellFormed .expression (.name x line)
  | operation {op : Operator} {a b : Node} {place line : Int} (ha : a.WellFormed .expression)
      (hb : b.WellFormed .expression) :
      WellFormed .expression (.call (.name op.symbol place) [a, b] line)
  | call {callee : Node} {arguments : List Node} {line : Int} (hc : callee.WellFormed .expression)
      (ha : ∀ n ∈ arguments, n.WellFormed .expression) :
      WellFormed .expression (.call callee arguments line)
  | assign {x : String} {value : Node} {line : Int} (hx : IsName x)
      (h : value.WellFormed .expression) : WellFormed .expression (.assign x value false line)
  | function {name : Option String} {parameters : List String} {body : Node} {line : Int}
      (hx : ∀ x ∈ name, IsName x) (hp : ∀ p ∈ parameters, IsName p) (h : body.WellFormed .block) :
      WellFormed .expression (.function name parameters body line)
  | record {entries : List (String × Node)} {line : Int} (hk : (entries.map Prod.fst).Nodup)
      (h : ∀ e ∈ entries, e.2.WellFormed .expression) :
      WellFormed .expression (.record entries line)
  | field {receiver : Node} {x : String} {line : Int} (hx : IsName x)
      (h : receiver.WellFormed .expression) : WellFormed .expression (.field receiver x line)
  | assignField {receiver value : Node} {x : String} {line : Int} (hx : IsName x)
      (hr : receiver.WellFormed .expression) (hv : value.WellFormed .expression) :
      WellFormed .expression (.assignField receiver x value line)
  | callMethod {receiver : Node} {x : String} {arguments : List Node} {line : Int} (hx : IsName x)
      (hr : receiver.WellFormed .expression) (ha : ∀ n ∈ arguments, n.WellFormed .expression) :
      WellFormed .expression (.callMethod receiver x arguments line)

namespace Source

/-! ### Tokens that can be read -/

/-- Whether a token is as its terminal demands, and no integer literal with too many digits. -/
def Token.Readable (t : Token) : Prop := t.WellSpelled ∧ t.oversize? = none

/-- A word can be read as it is. -/
@[simp] theorem Token.readable_keyword (k : Keyword) : (Token.keyword k).Readable := ⟨trivial, rfl⟩

/-- An operator can be read as it is. -/
@[simp] theorem Token.readable_operator (op : Operator) : (Token.operator op).Readable :=
  ⟨trivial, rfl⟩

/-- A mark can be read as it is. -/
@[simp] theorem Token.readable_punctuation (m : Punctuation) : (Token.punctuation m).Readable :=
  ⟨trivial, rfl⟩

/-- A name can be read if it is one. -/
@[simp] theorem Token.readable_name {x : String} : (Token.name x).Readable ↔ IsName x :=
  ⟨And.left, fun h => ⟨h, rfl⟩⟩

/-- An integer literal can be read if it does not have too many digits. -/
theorem Token.readable_integer {digits : String} (h : (Token.integer digits).WellSpelled)
    (hl : digits.length ≤ Text.digitLimit) : (Token.integer digits).Readable :=
  ⟨h, by rw [oversize?, if_neg (Nat.not_lt.mpr hl)]⟩

/-- Digits write a number that has no more digits. -/
theorem ofDigits_lt {cs : List Char} (h : ∀ c ∈ cs, c.isDigit = true) :
    Text.ofDigits cs < Nat.pow 10 cs.length := by
  induction cs using List.reverseRecOn with
  | nil => exact Nat.one_pos
  | append_singleton cs c ih =>
      obtain ⟨hcs, hc⟩ := List.forall_mem_append.mp h
      have hdigit : 48 ≤ c.toNat ∧ c.toNat ≤ 57 := by
        simpa [Char.isDigit, UInt32.le_iff_toNat_le] using hc c (List.mem_singleton.mpr rfl)
      have hvalue : Text.digitValue c ≤ 9 := Nat.sub_le_of_le_add hdigit.2
      have hlt := ih hcs
      have hpow : Nat.pow 10 (cs.length + 1) = Nat.pow 10 cs.length * 10 := rfl
      rw [Text.ofDigits_append_singleton, List.length_append, List.length_singleton, hpow]
      omega

/-- As many digits as may be read make no integer that is too long to write. -/
theorem pow_le_numeralBound {n : Nat} (h : n ≤ Text.digitLimit) :
    Nat.pow 10 n ≤ Text.numeralBound := by
  unfold Text.numeralBound
  generalize Text.digitLimit = limit at h ⊢
  exact Nat.pow_le_pow_right (Nat.zero_lt_succ 9) h

/-- Zero is not too long to write. -/
theorem numeralBound_pos : 0 < Text.numeralBound :=
  Nat.lt_of_lt_of_le Nat.one_pos (pow_le_numeralBound (Nat.zero_le _))

/-- An integer that was read is not too long to write. -/
theorem ofDigits_lt_numeralBound {digits : String} (h : (Token.integer digits).Readable) :
    Text.ofDigits digits.toList < Text.numeralBound := by
  obtain ⟨⟨-, hdigits⟩, hsmall⟩ := h
  have hlength : digits.toList.length ≤ Text.digitLimit := by
    rw [Token.oversize?] at hsmall
    split at hsmall
    next => cases hsmall
    next hle => exact Nat.not_lt.mp hle
  exact Nat.lt_of_lt_of_le (ofDigits_lt hdigits) (pow_le_numeralBound hlength)

/-! ### What a tree means -/

/-- Whether what a tree means may stand where trees of its symbol stand. -/
def Symbol.WellFormed : (c : Symbol) → c.Meaning → Prop
  | .program, n | .block, n => Node.WellFormed .block n
  | .statements, ns | .statement, ns => ∀ n ∈ (ns : List Node), n.WellFormed .statement
  | .arguments, ns | .expressions, ns => ∀ n ∈ (ns : List Node), n.WellFormed .expression
  | .otherwise, n => ∀ m ∈ (n : Option Node), m.WellFormed .block
  | .parameters, ps | .names, ps => ∀ p ∈ (ps : List String), IsName p
  | .members, ms => ∀ m ∈ (ms : List (String × Node)), m.2.WellFormed .expression
  | .member, m => m.2.WellFormed .expression
  | .ending, n | .choice, n => Node.WellFormed .statement n
  | .named, n | .expression, n | .row _, n | .operand, n | .callee, n | .primary, n =>
    Node.WellFormed .expression n

namespace Derivation

variable {c : Symbol}

/-- Whether all tokens that a tree spells can be read. -/
def Readable (d : Derivation c) : Prop := ∀ x ∈ d.lexemes, x.token.Readable

/-- What a tree of tokens that can be read means is well-formed. -/
theorem wellFormed_lower (d : Derivation c) (hw : d.Readable) : c.WellFormed d.lower := by
  induction d with
  | program _ ih => exact .block (ih hw)
  | done | noArguments | skip => exact List.forall_mem_nil _
  | noParameters => exact List.forall_mem_nil _
  | noElse => exact fun n h => by cases h
  | parameters _ ih | plain _ ih | tighter _ ih | bare _ ih | uncut _ ih | head _ ih
  | function _ ih | arguments _ ih => exact ih hw
  | value _ ih => exact .statement (ih hw)
  | last _ ih | chosen _ ih | oneExpression _ ih | oneMember _ ih =>
      exact List.forall_mem_singleton.mpr (ih hw)
  | defined _ ih => exact List.forall_mem_singleton.mpr (.statement (ih hw))
  | bareReturn => exact .bareReturn
  | integer => exact .integer (ofDigits_lt_numeralBound (hw _ List.mem_cons_self))
  | string => exact .string
  | name => exact .name (hw _ List.mem_cons_self).1
  | emptyRecord => exact .record List.nodup_nil (List.forall_mem_nil _)
  | ended _ _ ih => exact List.forall_mem_singleton.mpr (ih (List.forall_mem_append.mp hw).1)
  | trailingComma _ _ ih =>
      exact List.forall_mem_singleton.mpr (ih (List.forall_mem_append.mp hw).1)
  | cons _ _ ih ih' =>
      obtain ⟨hfirst, hrest⟩ := List.forall_mem_append.mp hw
      exact List.forall_mem_append.mpr ⟨ih hfirst, ih' hrest⟩
  | giveBack _ _ ih => exact .giveBack (ih (List.forall_mem_cons.mp hw).2)
  | bareDeclaration =>
      simp only [Readable, lexemes, List.forall_mem_cons] at hw
      exact .bareDeclaration hw.2.1.1
  | declaration _ _ _ _ _ _ _ ih =>
      simp only [Readable, lexemes, List.forall_mem_cons] at hw
      exact .declaration hw.2.1.1 (ih hw.2.2.2)
  | block _ _ _ ih =>
      simp only [Readable, lexemes, List.forall_mem_cons, List.forall_mem_append] at hw
      exact .block (ih hw.2.1)
  | choice w p test q body other ih ih₁ ih₂ =>
      simp only [Readable, lexemes, List.forall_mem_cons, List.forall_mem_append] at hw
      obtain ⟨-, -, htest, -, hbody, hother⟩ := hw
      refine .branch (ih htest) (ih₁ hbody) ?_
      cases ho : other.lower with
      | none => exact .block (List.forall_mem_nil _)
      | some n => exact ih₂ hother n (by rw [ho]; rfl)
  | elseBlock _ _ ih =>
      intro n h
      obtain rfl := Option.some.inj h
      exact ih (List.forall_mem_cons.mp hw).2
  | elseChoice _ _ ih =>
      intro n h
      obtain rfl := Option.some.inj h
      exact .block (List.forall_mem_singleton.mpr (ih (List.forall_mem_cons.mp hw).2))
  | named _ _ _ _ _ _ _ ih ih' =>
      simp only [Readable, lexemes, List.forall_mem_cons, List.forall_mem_append] at hw
      obtain ⟨-, hname, -, hps, -, hbody⟩ := hw
      refine .function (fun n hn => ?_) (ih hps) (ih' hbody)
      obtain rfl := Option.some.inj hn
      exact hname.1
  | lambda _ _ _ _ _ ih ih' =>
      simp only [Readable, lexemes, List.forall_mem_cons, List.forall_mem_append] at hw
      obtain ⟨-, -, hps, -, hbody⟩ := hw
      exact .function nofun (ih hps) (ih' hbody)
  | oneName =>
      simp only [Readable, lexemes, List.forall_mem_cons] at hw
      exact List.forall_mem_singleton.mpr hw.1.1
  | moreNames _ _ _ _ ih =>
      simp only [Readable, lexemes, List.forall_mem_cons] at hw
      exact List.forall_mem_cons.mpr ⟨hw.1.1, ih hw.2.2⟩
  | parentheses _ _ _ ih =>
      simp only [Readable, lexemes, List.forall_mem_cons, List.forall_mem_append] at hw
      exact ih hw.2.1
  | assign _ _ _ _ ih =>
      simp only [Readable, lexemes, List.forall_mem_cons] at hw
      exact .assign hw.1.1 (ih hw.2.2)
  | assignField _ _ _ _ _ _ ih ih' =>
      simp only [Readable, lexemes, List.forall_mem_cons, List.forall_mem_append] at hw
      obtain ⟨hreceiver, -, hname, -, hvalue⟩ := hw
      exact .assignField hname.1 (ih hreceiver) (ih' hvalue)
  | binary _ _ _ _ _ ih ih' =>
      simp only [Readable, lexemes, List.forall_mem_cons, List.forall_mem_append] at hw
      exact .operation (ih hw.1) (ih' hw.2.2)
  | minus p r ih =>
      exact .operation (.integer numeralBound_pos) (ih (List.forall_mem_cons.mp hw).2)
  | field _ _ _ _ ih =>
      simp only [Readable, lexemes, List.forall_mem_cons, List.forall_mem_append] at hw
      exact .field hw.2.2.1.1 (ih hw.1)
  | call _ _ _ _ ih ih' =>
      simp only [Readable, lexemes, List.forall_mem_cons, List.forall_mem_append] at hw
      exact .call (ih hw.1) (ih' hw.2.2.1)
  | method _ _ _ _ _ _ _ ih ih' =>
      simp only [Readable, lexemes, List.forall_mem_cons, List.forall_mem_append] at hw
      obtain ⟨hreceiver, -, hname, -, hgiven, -⟩ := hw
      exact .callMethod hname.1 (ih hreceiver) (ih' hgiven)
  | record _ ms _ ih =>
      simp only [Readable, lexemes, List.forall_mem_cons, List.forall_mem_append] at hw
      exact .record (Entries.nodup_names_ofList ms.lower) fun e h =>
        ih hw.2.1 e (Entries.mem_of_mem_ofList h)
  | moreExpressions _ _ _ ih ih' =>
      simp only [Readable, lexemes, List.forall_mem_cons, List.forall_mem_append] at hw
      exact List.forall_mem_cons.mpr ⟨ih hw.1, ih' hw.2.2⟩
  | moreMembers _ _ _ ih ih' =>
      simp only [Readable, lexemes, List.forall_mem_cons, List.forall_mem_append] at hw
      exact List.forall_mem_cons.mpr ⟨ih hw.1, ih' hw.2.2⟩
  | underName _ _ _ _ ih =>
      simp only [Readable, lexemes, List.forall_mem_cons] at hw
      exact ih hw.2.2
  | underString _ _ _ _ _ ih =>
      simp only [Readable, lexemes, List.forall_mem_cons] at hw
      exact ih hw.2.2

end Derivation

/-- Every program is well-formed. -/
theorem wellFormed_of_program {source : String} {n : Node} (h : program source = .ok n) :
    n.WellFormed .block := by
  obtain ⟨-, hsmall, d, hd, rfl⟩ := exists_derivation h
  refine d.wellFormed_lower fun x hx => ?_
  rw [hd] at hx
  exact ⟨wellSpelled_of_mem_scan hx, hsmall x hx⟩

end Source

end Scriptlet
