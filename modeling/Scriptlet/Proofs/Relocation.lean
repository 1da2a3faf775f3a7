import Scriptlet.Proofs.Grammar

/-!
# Trees Do Not Depend on Places

A derivation tree stores where its tokens stand, and its nodes take their lines from there. But
whether tokens have a tree does not depend on where they stand: a tree of some tokens can be
moved to the same tokens at any other places.

## Main results

* `Derivation.exists_relocated`: a tree of tokens, at other places.
-/

namespace Scriptlet.Source

open Scriptlet.Text (Position)

/-- Whether two rows of lexemes are the same tokens, perhaps at different places. -/
def Alike (xs ys : List Lexeme) : Prop := xs.map Lexeme.token = ys.map Lexeme.token

variable {xs ys zs : List Lexeme}

/-- Only an empty row is like an empty one. -/
theorem Alike.nil (h : Alike xs []) : xs = [] := List.map_eq_nil_iff.mp h

/-- The first token is the same, and the rest is alike. -/
theorem Alike.cons {t : Token} {p : Position} (h : Alike xs (⟨t, p⟩ :: ys)) :
    ∃ q zs, xs = ⟨t, q⟩ :: zs ∧ Alike zs ys := by
  obtain ⟨⟨_, q⟩, zs, rfl, rfl, hzs⟩ := List.map_eq_cons_iff.mp h
  exact ⟨q, zs, rfl, hzs⟩

/-- A row that is like a single token is a single token. -/
theorem Alike.single {t : Token} {p : Position} (h : Alike xs [⟨t, p⟩]) :
    ∃ q, xs = [⟨t, q⟩] := by
  obtain ⟨q, zs, rfl, hzs⟩ := h.cons
  obtain rfl := hzs.nil
  exact ⟨q, rfl⟩

/-- A row that is like two rows, one after another, falls into two. -/
theorem Alike.append (h : Alike xs (ys ++ zs)) :
    ∃ us vs, xs = us ++ vs ∧ Alike us ys ∧ Alike vs zs := by
  rw [Alike, List.map_append] at h
  exact List.map_eq_append_iff.mp h

namespace Derivation

variable {c : Symbol}

/-- A tree of tokens, at other places. -/
theorem exists_relocated (d : Derivation c) (h : Alike xs d.lexemes) :
    ∃ d' : Derivation c, d'.lexemes = xs := by
  induction d generalizing xs with
  | program body ih =>
      obtain ⟨body', rfl⟩ := ih h
      exact ⟨program body', rfl⟩
  | done => exact ⟨done, h.nil.symm⟩
  | last e ih =>
      obtain ⟨e', rfl⟩ := ih h
      exact ⟨last e', rfl⟩
  | cons first rest ih ih' =>
      obtain ⟨us, vs, rfl, hu, hv⟩ := h.append
      obtain ⟨first', rfl⟩ := ih hu
      obtain ⟨rest', rfl⟩ := ih' hv
      exact ⟨cons first' rest', rfl⟩
  | ended e q ih =>
      obtain ⟨us, vs, rfl, hu, hv⟩ := h.append
      obtain ⟨e', rfl⟩ := ih hu
      obtain ⟨q', rfl⟩ := hv.single
      exact ⟨ended e' q', rfl⟩
  | chosen k ih =>
      obtain ⟨k', rfl⟩ := ih h
      exact ⟨chosen k', rfl⟩
  | defined f ih =>
      obtain ⟨f', rfl⟩ := ih h
      exact ⟨defined f', rfl⟩
  | skip q =>
      obtain ⟨q', rfl⟩ := h.single
      exact ⟨skip q', rfl⟩
  | value e ih =>
      obtain ⟨e', rfl⟩ := ih h
      exact ⟨value e', rfl⟩
  | bareReturn p =>
      obtain ⟨p', rfl⟩ := h.single
      exact ⟨bareReturn p', rfl⟩
  | giveBack p e ih =>
      obtain ⟨p', us, rfl, hu⟩ := h.cons
      obtain ⟨e', rfl⟩ := ih hu
      exact ⟨giveBack p' e', rfl⟩
  | bareDeclaration k hk w n p =>
      obtain ⟨w', us, rfl, hu⟩ := h.cons
      obtain ⟨p', rfl⟩ := hu.single
      exact ⟨bareDeclaration k hk w' n p', rfl⟩
  | declaration k hk w n p a e ih =>
      obtain ⟨w', us, rfl, h₁⟩ := h.cons
      obtain ⟨p', us, rfl, h₂⟩ := h₁.cons
      obtain ⟨a', us, rfl, h₃⟩ := h₂.cons
      obtain ⟨e', rfl⟩ := ih h₃
      exact ⟨declaration k hk w' n p' a' e', rfl⟩
  | block p body q ih =>
      obtain ⟨p', us, rfl, h₁⟩ := h.cons
      obtain ⟨us, vs, rfl, hu, hv⟩ := h₁.append
      obtain ⟨body', rfl⟩ := ih hu
      obtain ⟨q', rfl⟩ := hv.single
      exact ⟨block p' body' q', rfl⟩
  | choice w p test q body other ih ih₁ ih₂ =>
      obtain ⟨w', us, rfl, h₁⟩ := h.cons
      obtain ⟨p', us, rfl, h₂⟩ := h₁.cons
      obtain ⟨us, vs, rfl, hu, h₃⟩ := h₂.append
      obtain ⟨test', rfl⟩ := ih hu
      obtain ⟨q', vs, rfl, h₄⟩ := h₃.cons
      obtain ⟨us, vs, rfl, hu, hv⟩ := h₄.append
      obtain ⟨body', rfl⟩ := ih₁ hu
      obtain ⟨other', rfl⟩ := ih₂ hv
      exact ⟨choice w' p' test' q' body' other', rfl⟩
  | noElse => exact ⟨noElse, h.nil.symm⟩
  | elseBlock w b ih =>
      obtain ⟨w', us, rfl, hu⟩ := h.cons
      obtain ⟨b', rfl⟩ := ih hu
      exact ⟨elseBlock w' b', rfl⟩
  | elseChoice w k ih =>
      obtain ⟨w', us, rfl, hu⟩ := h.cons
      obtain ⟨k', rfl⟩ := ih hu
      exact ⟨elseChoice w' k', rfl⟩
  | named w n p o ps q body ih ih' =>
      obtain ⟨w', us, rfl, h₁⟩ := h.cons
      obtain ⟨p', us, rfl, h₂⟩ := h₁.cons
      obtain ⟨o', us, rfl, h₃⟩ := h₂.cons
      obtain ⟨us, vs, rfl, hu, h₄⟩ := h₃.append
      obtain ⟨ps', rfl⟩ := ih hu
      obtain ⟨q', vs, rfl, h₅⟩ := h₄.cons
      obtain ⟨body', rfl⟩ := ih' h₅
      exact ⟨named w' n p' o' ps' q' body', rfl⟩
  | noParameters => exact ⟨noParameters, h.nil.symm⟩
  | parameters ns ih =>
      obtain ⟨ns', rfl⟩ := ih h
      exact ⟨parameters ns', rfl⟩
  | oneName n p =>
      obtain ⟨p', rfl⟩ := h.single
      exact ⟨oneName n p', rfl⟩
  | moreNames n p q rest ih =>
      obtain ⟨p', us, rfl, h₁⟩ := h.cons
      obtain ⟨q', us, rfl, h₂⟩ := h₁.cons
      obtain ⟨rest', rfl⟩ := ih h₂
      exact ⟨moreNames n p' q' rest', rfl⟩
  | plain r ih =>
      obtain ⟨r', rfl⟩ := ih h
      exact ⟨plain r', rfl⟩
  | assign n p a e ih =>
      obtain ⟨p', us, rfl, h₁⟩ := h.cons
      obtain ⟨a', us, rfl, h₂⟩ := h₁.cons
      obtain ⟨e', rfl⟩ := ih h₂
      exact ⟨assign n p' a' e', rfl⟩
  | assignField o d n p a e ih ih' =>
      obtain ⟨us, vs, rfl, hu, h₁⟩ := h.append
      obtain ⟨o', rfl⟩ := ih hu
      obtain ⟨d', vs, rfl, h₂⟩ := h₁.cons
      obtain ⟨p', vs, rfl, h₃⟩ := h₂.cons
      obtain ⟨a', vs, rfl, h₄⟩ := h₃.cons
      obtain ⟨e', rfl⟩ := ih' h₄
      exact ⟨assignField o' d' n p' a' e', rfl⟩
  | tighter r ih =>
      obtain ⟨r', rfl⟩ := ih h
      exact ⟨tighter r', rfl⟩
  | binary left op hop p right ih ih' =>
      obtain ⟨us, vs, rfl, hu, h₁⟩ := h.append
      obtain ⟨left', rfl⟩ := ih hu
      obtain ⟨p', vs, rfl, h₂⟩ := h₁.cons
      obtain ⟨right', rfl⟩ := ih' h₂
      exact ⟨binary left' op hop p' right', rfl⟩
  | bare o ih =>
      obtain ⟨o', rfl⟩ := ih h
      exact ⟨bare o', rfl⟩
  | minus p r ih =>
      obtain ⟨p', us, rfl, h₁⟩ := h.cons
      obtain ⟨r', rfl⟩ := ih h₁
      exact ⟨minus p' r', rfl⟩
  | uncut k ih =>
      obtain ⟨k', rfl⟩ := ih h
      exact ⟨uncut k', rfl⟩
  | field o d n p ih =>
      obtain ⟨us, vs, rfl, hu, h₁⟩ := h.append
      obtain ⟨o', rfl⟩ := ih hu
      obtain ⟨d', vs, rfl, h₂⟩ := h₁.cons
      obtain ⟨p', rfl⟩ := h₂.single
      exact ⟨field o' d' n p', rfl⟩
  | head k ih =>
      obtain ⟨k', rfl⟩ := ih h
      exact ⟨head k', rfl⟩
  | call k p given q ih ih' =>
      obtain ⟨us, vs, rfl, hu, h₁⟩ := h.append
      obtain ⟨k', rfl⟩ := ih hu
      obtain ⟨p', vs, rfl, h₂⟩ := h₁.cons
      obtain ⟨us, vs, rfl, hu, hv⟩ := h₂.append
      obtain ⟨given', rfl⟩ := ih' hu
      obtain ⟨q', rfl⟩ := hv.single
      exact ⟨call k' p' given' q', rfl⟩
  | method o d n p b given q ih ih' =>
      obtain ⟨us, vs, rfl, hu, h₁⟩ := h.append
      obtain ⟨o', rfl⟩ := ih hu
      obtain ⟨d', vs, rfl, h₂⟩ := h₁.cons
      obtain ⟨p', vs, rfl, h₃⟩ := h₂.cons
      obtain ⟨b', vs, rfl, h₄⟩ := h₃.cons
      obtain ⟨us, vs, rfl, hu, hv⟩ := h₄.append
      obtain ⟨given', rfl⟩ := ih' hu
      obtain ⟨q', rfl⟩ := hv.single
      exact ⟨method o' d' n p' b' given' q', rfl⟩
  | integer digits p =>
      obtain ⟨p', rfl⟩ := h.single
      exact ⟨integer digits p', rfl⟩
  | string mark body p =>
      obtain ⟨p', rfl⟩ := h.single
      exact ⟨string mark body p', rfl⟩
  | name text p =>
      obtain ⟨p', rfl⟩ := h.single
      exact ⟨name text p', rfl⟩
  | parentheses p e q ih =>
      obtain ⟨p', us, rfl, h₁⟩ := h.cons
      obtain ⟨us, vs, rfl, hu, hv⟩ := h₁.append
      obtain ⟨e', rfl⟩ := ih hu
      obtain ⟨q', rfl⟩ := hv.single
      exact ⟨parentheses p' e' q', rfl⟩
  | emptyRecord p q =>
      obtain ⟨p', us, rfl, h₁⟩ := h.cons
      obtain ⟨q', rfl⟩ := h₁.single
      exact ⟨emptyRecord p' q', rfl⟩
  | record p ms q ih =>
      obtain ⟨p', us, rfl, h₁⟩ := h.cons
      obtain ⟨us, vs, rfl, hu, hv⟩ := h₁.append
      obtain ⟨ms', rfl⟩ := ih hu
      obtain ⟨q', rfl⟩ := hv.single
      exact ⟨record p' ms' q', rfl⟩
  | function f ih =>
      obtain ⟨f', rfl⟩ := ih h
      exact ⟨function f', rfl⟩
  | lambda w p ps q body ih ih' =>
      obtain ⟨w', us, rfl, h₁⟩ := h.cons
      obtain ⟨p', us, rfl, h₂⟩ := h₁.cons
      obtain ⟨us, vs, rfl, hu, h₃⟩ := h₂.append
      obtain ⟨ps', rfl⟩ := ih hu
      obtain ⟨q', vs, rfl, h₄⟩ := h₃.cons
      obtain ⟨body', rfl⟩ := ih' h₄
      exact ⟨lambda w' p' ps' q' body', rfl⟩
  | noArguments => exact ⟨noArguments, h.nil.symm⟩
  | arguments es ih =>
      obtain ⟨es', rfl⟩ := ih h
      exact ⟨arguments es', rfl⟩
  | oneExpression e ih =>
      obtain ⟨e', rfl⟩ := ih h
      exact ⟨oneExpression e', rfl⟩
  | moreExpressions e q rest ih ih' =>
      obtain ⟨us, vs, rfl, hu, h₁⟩ := h.append
      obtain ⟨e', rfl⟩ := ih hu
      obtain ⟨q', vs, rfl, h₂⟩ := h₁.cons
      obtain ⟨rest', rfl⟩ := ih' h₂
      exact ⟨moreExpressions e' q' rest', rfl⟩
  | oneMember m ih =>
      obtain ⟨m', rfl⟩ := ih h
      exact ⟨oneMember m', rfl⟩
  | trailingComma m q ih =>
      obtain ⟨us, vs, rfl, hu, hv⟩ := h.append
      obtain ⟨m', rfl⟩ := ih hu
      obtain ⟨q', rfl⟩ := hv.single
      exact ⟨trailingComma m' q', rfl⟩
  | moreMembers m q rest ih ih' =>
      obtain ⟨us, vs, rfl, hu, h₁⟩ := h.append
      obtain ⟨m', rfl⟩ := ih hu
      obtain ⟨q', vs, rfl, h₂⟩ := h₁.cons
      obtain ⟨rest', rfl⟩ := ih' h₂
      exact ⟨moreMembers m' q' rest', rfl⟩
  | underName key p q e ih =>
      obtain ⟨p', us, rfl, h₁⟩ := h.cons
      obtain ⟨q', us, rfl, h₂⟩ := h₁.cons
      obtain ⟨e', rfl⟩ := ih h₂
      exact ⟨underName key p' q' e', rfl⟩
  | underString mark body p q e ih =>
      obtain ⟨p', us, rfl, h₁⟩ := h.cons
      obtain ⟨q', us, rfl, h₂⟩ := h₁.cons
      obtain ⟨e', rfl⟩ := ih h₂
      exact ⟨underString mark body p' q' e', rfl⟩

end Derivation

end Scriptlet.Source
