import Scriptlet.Eval.Evaluate
import Scriptlet.Proofs.Persistence
import Scriptlet.Proofs.Plain

/-!
# Sealed Stores

Records, functions and environment frames are objects alike, and whatever can refer to a frame
could hand it to a script. In a *sealed* store nothing does: no entry of any object is a frame
other than the global one, an object without the shape of a frame has no parent, and functions
and frames refer to frames only, older ones than themselves.

An invariant of the whole store is needed, since any value may be read from any object. What the
single operations preserve is shown here; what evaluations preserve is shown from it in
`Scriptlet.Proofs.Sealing`.

## Main definitions

* `Object.IsFrame`: the shape of an environment frame.
* `Store.Public`: the values that a script may get hold of.
* `Store.Sealed`: the invariant.

## Main results

* `Store.Sealed.add`, `Store.Sealed.put`: a new object, and a new entry.
* `Store.Sealed.public_read`: whatever a name reads as may be got hold of.
* `Store.Sealed.getLast?_chain`: the chain of every frame ends in the global frame.
* `Store.read_of_parent_eq_none`: reading from an object without a parent reads its own entries.
-/

namespace Scriptlet

/-- Whether an object has the shape of an environment frame. A function may be called as frames
are named, but it has an action. -/
def Object.IsFrame (o : Object) : Prop := o.name = "env" ∧ o.action = none

namespace Store

/-- Whether a reference stands for a frame. -/
def IsFrame (s : Store) (r : Ref) : Prop := ∃ o, s.object? r = some o ∧ o.IsFrame

/-- Whether a script may get hold of a value: an object has no parent, and a node holds no
object. -/
def Public (s : Store) : Value → Prop
  | .undefined | .integer _ | .string _ => True
  | .object r => ∃ o, s.object? r = some o ∧ o.parent = none
  | .node n => n.Plain

/-- What is demanded of an object of a sealed store with the global frame `g`. -/
structure Holds (s : Store) (g r : Ref) (o : Object) : Prop where
  entries : ∀ e ∈ o.entries, s.Public e.2
  parent : ∀ p, o.parent = some p → o.IsFrame ∧ p.index < r.index ∧ s.IsFrame p
  root : o.IsFrame → o.parent = none → r = g
  closure : ∀ parameters body home, o.action = some (.closure parameters body home) →
    home.index < r.index ∧ s.IsFrame home ∧ body.Plain
  constant : ∀ v, o.action = some (.constant v) → s.Public v

/-- Whether no frame but the global one can be got hold of. -/
structure Sealed (g : Ref) (s : Store) : Prop where
  root : ∃ o, s.object? g = some o ∧ o.IsFrame ∧ o.parent = none
  holds : ∀ r o, s.object? r = some o → s.Holds g r o

variable {s t : Store} {g r : Ref}

/-! ### Growth -/

/-- A frame is in the store. -/
theorem IsFrame.index_lt (h : s.IsFrame r) : r.index < s.size := by
  obtain ⟨o, ho, -⟩ := h
  exact index_lt_of_object? ho

/-- A frame stays one. -/
theorem IsFrame.mono (h : s.IsFrame r) (hg : s.Grows t) : t.IsFrame r := by
  obtain ⟨o, ho, hn, ha⟩ := h
  obtain ⟨o', ho', hp⟩ := hg r o ho
  exact ⟨o', ho', hp.name.trans hn, hp.action.trans ha⟩

/-- A public value stays public. -/
theorem Public.mono {v : Value} (h : s.Public v) (hg : s.Grows t) : t.Public v := by
  cases v with
  | object r =>
      obtain ⟨o, ho, hn⟩ := h
      obtain ⟨o', ho', hp⟩ := hg r o ho
      exact ⟨o', ho', hp.parent.trans hn⟩
  | node n => exact h
  | _ => trivial

/-- What an object may hold, it may hold later. -/
theorem Holds.mono {o : Object} (h : s.Holds g r o) (hg : s.Grows t) : t.Holds g r o where
  entries := fun e he => (h.entries e he).mono hg
  parent := fun p hp => by
    obtain ⟨hf, hlt, hframe⟩ := h.parent p hp
    exact ⟨hf, hlt, hframe.mono hg⟩
  root := h.root
  closure := fun ps body home ha => by
    obtain ⟨hlt, hframe, hplain⟩ := h.closure ps body home ha
    exact ⟨hlt, hframe.mono hg, hplain⟩
  constant := fun v ha => (h.constant v ha).mono hg

/-- The global frame is a frame. -/
theorem Sealed.isFrame (h : s.Sealed g) : s.IsFrame g := by
  obtain ⟨o, ho, hf, -⟩ := h.root
  exact ⟨o, ho, hf⟩

/-- A value of a program is public. -/
theorem public_of_plain {v : Value} (h : v.Plain) : s.Public v := by
  cases v with
  | object | node => exact h.elim
  | _ => trivial

/-! ### Operations -/

/-- A new object of which as much holds as of the others. -/
theorem Sealed.add (h : s.Sealed g) {o : Object} (ho : (s.add o).Holds g s.fresh o) :
    (s.add o).Sealed g where
  root := by
    obtain ⟨o', ho', hf⟩ := h.root
    exact ⟨o', object?_add_of_object? ho', hf⟩
  holds := by
    intro r o' hr
    rcases object?_add_eq_some hr with hr | ⟨rfl, rfl⟩
    · exact (h.holds r o' hr).mono (s.grows_add o)
    · exact ho

/-- A new frame inside another one. -/
theorem Sealed.add_frame (h : s.Sealed g) {home : Ref} (hf : s.IsFrame home) :
    (s.add (.frame (some home))).Sealed g := by
  refine h.add ⟨nofun, fun p hp => ?_, fun _ => nofun, nofun, nofun⟩
  obtain rfl := Option.some.inj hp
  exact ⟨⟨rfl, rfl⟩, hf.index_lt, hf.mono (s.grows_add _)⟩

/-- A new record. -/
theorem Sealed.add_record (h : s.Sealed g) : (s.add (.record none)).Sealed g :=
  h.add ⟨nofun, nofun, fun hf => absurd hf.1 (by decide), nofun, nofun⟩

/-- A new function that is made in a frame. -/
theorem Sealed.add_closure (h : s.Sealed g) (name : String) (parameters : List String)
    {body : Node} (hb : body.Plain) {home : Ref} (hf : s.IsFrame home) :
    (s.add (.function name (.closure parameters body home))).Sealed g := by
  refine h.add ⟨nofun, nofun, fun hf => (nomatch hf.2), fun ps b r ha => ?_, nofun⟩
  obtain ⟨rfl, rfl, rfl⟩ := Action.closure.inj (Option.some.inj ha)
  exact ⟨hf.index_lt, hf.mono (s.grows_add _), hb⟩

/-- A new built-in function. -/
theorem Sealed.add_builtin (h : s.Sealed g) (name : String) (b : Builtin) :
    (s.add (.function name (.builtin b))).Sealed g :=
  h.add ⟨nofun, nofun, fun hf => (nomatch hf.2), nofun, nofun⟩

/-- An entry that a script may get hold of. -/
theorem Sealed.put (h : s.Sealed g) (r : Ref) (name : String) {v : Value} (hv : s.Public v) :
    (s.put r name v).Sealed g where
  root := by
    obtain ⟨o, ho, hf, hp⟩ := h.root
    obtain ⟨o', ho', hpersists⟩ := s.grows_put r name v g o ho
    exact ⟨o', ho', ⟨hpersists.name.trans hf.1, hpersists.action.trans hf.2⟩,
      hpersists.parent.trans hp⟩
  holds := by
    intro q o' hq
    obtain ⟨o, ho, rfl | ⟨-, rfl⟩⟩ := object?_put_eq_some hq
    · exact (h.holds q o' ho).mono (s.grows_put r name v)
    · have hold := (h.holds q o ho).mono (s.grows_put r name v)
      refine ⟨fun e he => ?_, hold.parent, hold.root, hold.closure, hold.constant⟩
      rcases Entries.exists_mem_of_mem_put he with he | rfl
      · exact hold.entries e he
      · exact hv.mono (s.grows_put r name v)

/-- Entries that a script may get hold of. -/
theorem Sealed.putAll (h : s.Sealed g) (r : Ref) {pairs : List (String × Value)}
    (hv : ∀ p ∈ pairs, s.Public p.2) : (s.putAll r pairs).Sealed g := by
  induction pairs generalizing s with
  | nil => exact h
  | cons p rest ih =>
      refine ih (h.put r p.1 (hv p List.mem_cons_self)) fun q hq => ?_
      exact (hv q (List.mem_cons_of_mem _ hq)).mono (s.grows_put r p.1 p.2)

/-- A new frame inside another one, in which names are set. -/
theorem Sealed.enter (h : s.Sealed g) {home : Ref} (hf : s.IsFrame home)
    {pairs : List (String × Value)} (hv : ∀ p ∈ pairs, s.Public p.2) :
    ((s.add (.frame (some home))).putAll s.fresh pairs).Sealed g :=
  (h.add_frame hf).putAll s.fresh fun p hp => (hv p hp).mono (s.grows_add _)

/-- A call begins with a frame. -/
theorem isFrame_enter (s : Store) (parent : Option Ref) (pairs : List (String × Value)) :
    ((s.add (.frame parent)).putAll s.fresh pairs).IsFrame s.fresh := by
  have hframe : (s.add (.frame parent)).IsFrame s.fresh :=
    ⟨_, object?_add_self s _, rfl, rfl⟩
  exact hframe.mono (grows_putAll _ _ _)

/-! ### Reading -/

/-- Whatever a name reads as, a script may get hold of. -/
theorem Sealed.public_read (h : s.Sealed g) (r : Ref) (name : String) :
    s.Public (s.read r name) := by
  rw [read]
  cases hv : (s.chain r).findSome? fun o => s.own? o name with
  | none => trivial
  | some v =>
      obtain ⟨q, -, hq⟩ := List.exists_of_findSome?_eq_some hv
      obtain ⟨o, ho, hlookup⟩ := Option.bind_eq_some_iff.mp hq
      obtain ⟨before, after, hentries, -⟩ := List.lookup_eq_some_iff.mp hlookup
      exact (h.holds q o ho).entries (name, v) (by simp [hentries])

/-- Reading from an object without a parent reads its own entries only. -/
theorem read_of_parent_eq_none {o : Object} (h : s.object? r = some o) (hp : o.parent = none)
    (name : String) : s.read r name = (s.own? r name).getD .undefined := by
  have hlt := index_lt_of_object? h
  obtain ⟨n, hn⟩ := Nat.exists_eq_add_one_of_ne_zero (Nat.ne_zero_of_lt hlt)
  have hchain : s.chain r = [r] := by
    rw [chain, hn, chainUpTo, h]
    simp [hp]
  rw [read, hchain]
  simp

/-- Going up from a frame ends in the global frame. -/
theorem Sealed.getLast?_chainUpTo (h : s.Sealed g) {n : Nat} (hr : s.IsFrame r)
    (hn : r.index < n) : (s.chainUpTo n r).getLast? = some g := by
  induction n generalizing r with
  | zero => exact absurd hn (Nat.not_lt_zero _)
  | succ n ih =>
      obtain ⟨o, ho, hf⟩ := hr
      rw [chainUpTo, ho, Option.bind_some]
      cases hp : o.parent with
      | none =>
          obtain rfl := (h.holds r o ho).root hf hp
          rfl
      | some p =>
          obtain ⟨-, hlt, hframe⟩ := (h.holds r o ho).parent p hp
          have hlast := ih hframe (by omega)
          show (r :: s.chainUpTo n p).getLast? = some g
          rw [List.getLast?_cons, hlast]
          rfl

/-- The chain of every frame ends in the global frame. -/
theorem Sealed.getLast?_chain (h : s.Sealed g) (hr : s.IsFrame r) :
    (s.chain r).getLast? = some g :=
  h.getLast?_chainUpTo hr hr.index_lt

/-- No frame but the global one can be got hold of. -/
theorem Sealed.eq_of_public (h : s.Sealed g) (hv : s.Public (.object r)) (hr : s.IsFrame r) :
    r = g := by
  obtain ⟨o, ho, hp⟩ := hv
  obtain ⟨o', ho', hf⟩ := hr
  obtain rfl := Option.some.inj (ho.symm.trans ho')
  exact (h.holds r o ho).root hf hp

/-! ### A fresh global frame -/

/-- The object of a reference that was just given out has no parent if it was made without. -/
theorem public_fresh (s : Store) {o : Object} (ho : o.parent = none) :
    (s.add o).Public (.object s.fresh) :=
  ⟨o, object?_add_self s o, ho⟩

/-- A store that consists of a global frame. -/
theorem sealed_frame : (empty.add (.frame none)).Sealed empty.fresh where
  root := ⟨.frame none, object?_add_self empty _, ⟨rfl, rfl⟩, rfl⟩
  holds := by
    intro r o hr
    rcases object?_add_eq_some hr with hr | ⟨rfl, rfl⟩
    · exact absurd (index_lt_of_object? hr) (Nat.not_lt_zero _)
    · exact ⟨nofun, nofun, fun _ _ => rfl, nofun, nofun⟩

/-- A new built-in function, set under its name in the global frame. -/
theorem Sealed.install (h : s.Sealed g) (b : Builtin) :
    ((s.add (.function b.name (.builtin b))).put g b.name (.object s.fresh)).Sealed g :=
  (h.add_builtin b.name b).put g b.name (s.public_fresh rfl)

/-- The store that a run of a program begins with. -/
theorem sealed_addGlobal : empty.addGlobal.Sealed empty.fresh := by
  suffices hfold : ∀ (bs : List Builtin) (s : Store), s.Sealed empty.fresh →
      (bs.foldl (fun t b =>
        (t.add (.function b.name (.builtin b))).put empty.fresh b.name (.object t.fresh))
          s).Sealed empty.fresh from
    hfold Builtin.all _ (sealed_frame.put _ "global" (empty.public_fresh rfl))
  intro bs
  induction bs with
  | nil => exact fun s h => h
  | cons b rest ih => exact fun s h => ih _ (h.install b)

end Store

end Scriptlet
