import Mathlib.Data.List.Forall2
import Scriptlet.Node.Equality
import Scriptlet.Proofs.Fields

/-!
# What It Is to Be the Same

Two nodes are the same if they are of one kind and the same in every field, their lines included.
The function that decides this has a clause for each kind, and goes through the entries of two
object literals in an order of its own. Here nodes are looked at by their fields instead, and
entries by what stands under each key, so that being the same is said once for all kinds. From that
it is an equivalence: of the nodes in the fields by induction, of a row of fields because it is one
of each field.

## Main definitions

* `Node.Field.Same`: two fields that are the same.
* `Value.Equal`: two values of one type that are the same in what they are made of.

## Main results

* `Node.same_iff`: nodes are the same if their kinds and their fields are.
* `Value.same_iff_equal`: values are the same if they are equal in what they are made of.
* `Value.equivalence_same`: being the same is an equivalence.
-/

namespace Scriptlet

/-! ### Related rows and contents -/

section

variable {α : Type} {R : α → α → Prop} {xs ys zs : List α}

/-- Two rows are related in the other order if that holds of the elements of the first. -/
theorem forall₂_swap (h : List.Forall₂ R xs ys) (swap : ∀ x ∈ xs, ∀ y, R x y → R y x) :
    List.Forall₂ R ys xs := by
  induction h with
  | nil => exact .nil
  | cons hxy _ ih =>
      obtain ⟨hx, hxs⟩ := List.forall_mem_cons.mp swap
      exact .cons (hx _ hxy) (ih hxs)

/-- Two rows are related by way of a third one if that holds of the elements of the first. -/
theorem forall₂_join (h : List.Forall₂ R xs ys) (h' : List.Forall₂ R ys zs)
    (join : ∀ x ∈ xs, ∀ y z, R x y → R y z → R x z) : List.Forall₂ R xs zs := by
  induction h generalizing zs with
  | nil => exact h'
  | cons hxy _ ih =>
      cases h' with
      | cons hyz hyzs =>
          obtain ⟨hx, hxs⟩ := List.forall_mem_cons.mp join
          exact .cons (hx _ _ hxy hyz) (ih hyzs hxs)

/-- A relation between two results may be turned round if it may between their values. -/
theorem optionRel_swap {x y : Option α} (h : Option.Rel R x y)
    (swap : ∀ a ∈ x, ∀ b, R a b → R b a) : Option.Rel R y x := by
  cases h with
  | none => exact .none
  | some hab => exact .some (swap _ rfl _ hab)

/-- Relations between results may be put together if they may between values. -/
theorem optionRel_join {x y z : Option α} (h : Option.Rel R x y) (h' : Option.Rel R y z)
    (join : ∀ a ∈ x, ∀ b c, R a b → R b c → R a c) : Option.Rel R x z := by
  cases h with
  | none => exact h'
  | some hab =>
      cases h' with
      | some hbc => exact .some (join _ rfl _ _ hab hbc)

end

/-! ### Fields that are the same -/

namespace Node

namespace Field

/-- Whether two fields are the same. Entries are if the same keys occur in them, with nodes under
each key that are the same; of several entries under one key the first counts. -/
inductive Same : Field → Field → Prop
  | datum (d : Datum) : Same (datum d) (datum d)
  | value {v w : Value} (h : v.same w) : Same (value v) (value w)
  | nodes {ns ms : List Node} (h : List.Forall₂ (fun n m : Node => n.same m) ns ms) :
      Same (nodes ns) (nodes ms)
  | entries {es fs : List (String × Node)}
      (h : ∀ key, Option.Rel (fun n m : Node => n.same m) (es.lookup key) (fs.lookup key)) :
      Same (entries es) (entries fs)

/-- Data of nodes are the same if they are equal. -/
@[simp] theorem same_datum {d e : Datum} : Same (datum d) (datum e) ↔ d = e :=
  ⟨fun h => by cases h; rfl, fun h => h ▸ .datum d⟩

/-- Values in nodes are the same if they are as values. -/
@[simp] theorem same_value {v w : Value} : Same (value v) (value w) ↔ v.same w :=
  ⟨fun h => by cases h with | value h => exact h, .value⟩

/-- Rows of nodes are the same if they are so one by one. -/
@[simp] theorem same_nodes {ns ms : List Node} :
    Same (nodes ns) (nodes ms) ↔ List.Forall₂ (fun n m : Node => n.same m) ns ms :=
  ⟨fun h => by cases h with | nodes h => exact h, .nodes⟩

/-- Entries are the same if every key has the same nodes, in whatever order. -/
@[simp] theorem same_entries {es fs : List (String × Node)} :
    Same (entries es) (entries fs) ↔
      ∀ key, Option.Rel (fun n m : Node => n.same m) (es.lookup key) (fs.lookup key) :=
  ⟨fun h => by cases h with | entries h => exact h, .entries⟩

end Field

end Node

/-! ### From the function to the fields -/

namespace Node

/-- Rows are compared one by one. -/
theorem agreesAll_iff {ns ms : List Node} :
    agreesAll false ns ms ↔ List.Forall₂ (fun n m : Node => n.same m) ns ms := by
  induction ns generalizing ms with
  | nil => cases ms <;> simp [agreesAll]
  | cons n rest ih => cases ms <;> simp [agreesAll, same, ih]

/-- An entry is compared with that of the same key, unless the key has come before. -/
theorem agreesEntries_cons {passed : List String} {first : String} {n : Node}
    {es fs : List (String × Node)} :
    agreesEntries false passed ((first, n) :: es) fs ↔
      (first ∉ passed → ∃ m, fs.lookup first = some m ∧ n.same m) ∧
        agreesEntries false (first :: passed) es fs := by
  rw [agreesEntries, Bool.and_eq_true, Bool.or_eq_true, List.contains_iff_mem]
  refine and_congr_left fun _ => ?_
  by_cases hfirst : first ∈ passed
  · simp only [hfirst, true_or, not_true_eq_false, false_implies]
  · cases fs.lookup first <;> simp [hfirst, same]

/-- To go through entries one after another is to look at every key that was not passed before. -/
theorem agreesEntries_iff {passed : List String} {es fs : List (String × Node)} :
    agreesEntries false passed es fs ↔
      ∀ key ∉ passed, ∀ n, es.lookup key = some n → ∃ m, fs.lookup key = some m ∧ n.same m := by
  induction es generalizing passed with
  | nil => simp [agreesEntries]
  | cons e rest ih =>
      obtain ⟨first, n⟩ := e
      rw [agreesEntries_cons, ih]
      constructor
      · rintro ⟨hn, hrest⟩ key hkey k hk
        rw [List.lookup_cons] at hk
        split at hk
        · next heq =>
            obtain rfl : key = first := eq_of_beq heq
            obtain rfl : n = k := Option.some.inj hk
            exact hn hkey
        · next hne =>
            refine hrest key (fun hmem => ?_) k hk
            rcases List.mem_cons.mp hmem with rfl | hmem
            · exact absurd (beq_self_eq_true key) (hne ▸ Bool.false_ne_true)
            · exact hkey hmem
      · intro h
        refine ⟨fun hfirst => h first hfirst n List.lookup_cons_self, fun key hkey k hk => ?_⟩
        obtain ⟨hne, hkey⟩ := not_or.mp (mt List.mem_cons.mpr hkey)
        refine h key hkey k ?_
        rw [List.lookup_cons, beq_eq_false_iff_ne.mpr hne]
        exact hk

/-- Whether the keys of some entries are all among those of others. -/
theorem keysWithin_iff {es fs : List (String × Node)} :
    keysWithin es fs ↔ ∀ key, (es.lookup key).isSome → (fs.lookup key).isSome := by
  simp only [keysWithin, List.all_eq_true, List.any_eq_true, beq_iff_eq, List.lookup_isSome_iff]
  constructor
  · rintro h key ⟨e, he, rfl⟩
    obtain ⟨f, hf, hkey⟩ := h e he
    exact ⟨f, hf, hkey.symm⟩
  · intro h e he
    obtain ⟨f, hf, hkey⟩ := h e.1 ⟨e, he, rfl⟩
    exact ⟨f, hf, hkey.symm⟩

/-- Two rows of entries agree if the same keys occur in them, with the same nodes under them. -/
theorem agreesEntries_and_keysWithin_iff {es fs : List (String × Node)} :
    (agreesEntries false [] es fs ∧ keysWithin fs es) ↔
      ∀ key, Option.Rel (fun n m : Node => n.same m) (es.lookup key) (fs.lookup key) := by
  rw [agreesEntries_iff, keysWithin_iff]
  constructor
  · rintro ⟨hsame, hkeys⟩ key
    have hsame := hsame key List.not_mem_nil
    have hkeys := hkeys key
    cases hn : es.lookup key with
    | some n =>
        obtain ⟨m, hm, h⟩ := hsame n hn
        rw [hm]
        exact .some h
    | none =>
        rw [hn, Option.isSome_none, Bool.false_eq_true, imp_false, Option.not_isSome_iff_eq_none]
          at hkeys
        rw [hkeys]
        exact .none
  · intro h
    constructor
    · intro key _ n hn
      have hrel := h key
      rw [hn] at hrel
      cases hm : fs.lookup key with
      | none => rw [hm] at hrel; cases hrel
      | some m => rw [hm] at hrel; cases hrel with | some h => exact ⟨m, rfl, h⟩
    · intro key hkey
      have hrel := h key
      obtain ⟨m, hm⟩ := Option.isSome_iff_exists.mp hkey
      rw [hm] at hrel
      cases hn : es.lookup key with
      | none => rw [hn] at hrel; cases hrel
      | some n => rfl

/-- Entries are compared in one direction, and then the other way round by their keys alone. -/
theorem agreesEntries_keysWithin_iff {es fs : List (String × Node)} {p : Prop} :
    (agreesEntries false [] es fs ∧ keysWithin fs es ∧ p) ↔
      (∀ key, Option.Rel (fun n m : Node => n.same m) (es.lookup key) (fs.lookup key)) ∧ p := by
  rw [← and_assoc, agreesEntries_and_keysWithin_iff]

/-- Two nodes are compared as the same. -/
theorem agrees_false {a b : Node} : agrees false a b = a.same b := rfl

/-- Two values are compared as the same. -/
theorem agrees_false_value {v w : Value} : Value.agrees false v w = v.same w := rfl

/-- Nodes are the same as values if they are as nodes. -/
theorem same_node {a b : Node} : (Value.node a).same (.node b) = a.same b := rfl

/-- **Two nodes are the same if they are of one kind and the same in all fields.** -/
theorem same_iff {a b : Node} :
    a.same b ↔ a.kind = b.kind ∧ List.Forall₂ Field.Same a.fields b.fields := by
  cases a <;> cases b <;> unfold same agrees <;>
    simp [agrees_false, agrees_false_value, same_node, kind, fields, agreesAll_iff,
      agreesEntries_keysWithin_iff, and_assoc]

end Node

/-! ### An equivalence

Each law holds of a field if it holds of the nodes in it, and of a node if it holds of its
fields. -/

/-- Values that are the same are one value, or nodes that are the same. -/
theorem Value.eq_or_nodes_of_same {v w : Value} (h : v.same w) :
    v = w ∨ ∃ a b, v = .node a ∧ w = .node b ∧ a.same b := by
  cases v <;> cases w <;> first
    | exact absurd h Bool.false_ne_true
    | exact .inr ⟨_, _, rfl, rfl, h⟩
    | exact .inl rfl
    | exact .inl (congrArg _ (eq_of_beq h))

namespace Node.Field

variable {f g h : Field}

/-- Every field is the same as itself, if the nodes inside are. -/
theorem Same.refl (law : ∀ n ∈ f.inside, n.same n) : f.Same f := by
  cases f with
  | datum d => exact .datum d
  | value v =>
      refine .value ?_
      cases v with
      | node n => exact law n (List.mem_singleton_self n)
      | undefined => rfl
      | integer _ | string _ | object _ => exact beq_self_eq_true _
  | nodes ns => exact .nodes (List.forall₂_same.mpr law)
  | entries es =>
      refine .entries fun key => ?_
      cases hn : es.lookup key with
      | none => exact .none
      | some n => exact .some (law n (mem_inside_of_lookup hn))

/-- What holds of fields holds the other way round, if it does of the nodes inside. -/
theorem Same.symm (hfg : f.Same g) (law : ∀ n ∈ f.inside, ∀ m, n.same m → m.same n) :
    g.Same f := by
  cases hfg with
  | datum d => exact .datum d
  | value hvw =>
      rcases Value.eq_or_nodes_of_same hvw with rfl | ⟨n, m, rfl, rfl, hnm⟩
      · exact .value hvw
      · exact .value (law n (List.mem_singleton_self n) m hnm)
  | nodes hrow => exact .nodes (forall₂_swap hrow law)
  | entries hkeys =>
      exact .entries fun key =>
        optionRel_swap (hkeys key) fun n hn => law n (mem_inside_of_lookup hn)

/-- Fields that are the same as a third are the same, if that holds of the nodes inside. -/
theorem Same.trans (hfg : f.Same g) (hgh : g.Same h)
    (law : ∀ n ∈ f.inside, ∀ m k, n.same m → m.same k → n.same k) : f.Same h := by
  cases hfg with
  | datum d => exact hgh
  | value hvw =>
      cases hgh with
      | value hwu =>
          rcases Value.eq_or_nodes_of_same hvw with rfl | ⟨n, m, rfl, rfl, hnm⟩
          · exact .value hwu
          · rcases Value.eq_or_nodes_of_same hwu with rfl | ⟨m, k, hm, rfl, hmk⟩
            · exact .value hvw
            · obtain rfl := Value.node.inj hm
              exact .value (law n (List.mem_singleton_self n) _ k hnm hmk)
  | nodes hrow =>
      cases hgh with
      | nodes hrow' => exact .nodes (forall₂_join hrow hrow' law)
  | entries hkeys =>
      cases hgh with
      | entries hkeys' =>
          exact .entries fun key =>
            optionRel_join (hkeys key) (hkeys' key) fun n hn => law n (mem_inside_of_lookup hn)

end Node.Field

namespace Node

/-- Every node is the same as itself. The induction is on the fields, as in the next two laws. -/
theorem same_refl (n : Node) : n.same n := by
  induction n using induction_inside with
  | ind n ih => exact same_iff.mpr ⟨rfl, List.forall₂_same.mpr fun f hf => .refl (ih f hf)⟩

/-- Being the same goes both ways. -/
theorem same_symm {n m : Node} (h : n.same m) : m.same n := by
  induction n using induction_inside generalizing m with
  | ind n ih =>
      obtain ⟨hkind, hfields⟩ := same_iff.mp h
      refine same_iff.mpr ⟨hkind.symm, forall₂_swap hfields fun f hf g hfg => ?_⟩
      exact hfg.symm fun k hk _ => ih f hf k hk

/-- Nodes that are the same as a third are the same. -/
theorem same_trans {n m k : Node} (h : n.same m) (h' : m.same k) : n.same k := by
  induction n using induction_inside generalizing m k with
  | ind n ih =>
      obtain ⟨hkind, hfields⟩ := same_iff.mp h
      obtain ⟨hkind', hfields'⟩ := same_iff.mp h'
      refine same_iff.mpr ⟨hkind.trans hkind', ?_⟩
      refine forall₂_join hfields hfields' fun f hf g e hfg hge => ?_
      exact hfg.trans hge fun x hx _ _ => ih f hf x hx

end Node

/-! ### Values -/

namespace Value

/-- **Being the same is an equivalence of all values.** A field that holds a value is the same as
another one if the values are, so the laws of fields are those of values. -/
theorem equivalence_same : Equivalence fun v w : Value => v.same w where
  refl _ := Node.Field.same_value.mp (.refl fun n _ => n.same_refl)
  symm h := Node.Field.same_value.mp ((Node.Field.Same.value h).symm fun _ _ _ => Node.same_symm)
  trans h h' := Node.Field.same_value.mp
    ((Node.Field.Same.value h).trans (.value h') fun _ _ _ _ => Node.same_trans)

/-- Whether two values are of one type and equal in what they are made of. -/
inductive Equal : Value → Value → Prop
  | undefined : Equal undefined undefined
  | integer (n : Int) : Equal (integer n) (integer n)
  | string (s : String) : Equal (string s) (string s)
  | object (r : Ref) : Equal (object r) (object r)
  | node {a b : Node} (hkind : a.kind = b.kind)
      (hfields : List.Forall₂ Node.Field.Same a.fields b.fields) : Equal (node a) (node b)

/-- **Values are the same if they are equal in what they are made of.** -/
theorem same_iff_equal {v w : Value} : v.same w ↔ v.Equal w := by
  constructor
  · intro h
    rcases eq_or_nodes_of_same h with rfl | ⟨a, b, rfl, rfl, hab⟩
    · cases v with
      | undefined => exact .undefined
      | integer n => exact .integer n
      | string s => exact .string s
      | object r => exact .object r
      | node n => exact .node rfl (Node.same_iff.mp h).2
    · obtain ⟨hkind, hfields⟩ := Node.same_iff.mp hab
      exact .node hkind hfields
  · intro h
    cases h with
    | node hkind hfields => exact Node.same_iff.mpr ⟨hkind, hfields⟩
    | undefined | integer _ | string _ | object _ => exact equivalence_same.refl _

end Value

end Scriptlet
