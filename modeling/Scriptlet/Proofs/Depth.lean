import Mathlib.Algebra.Order.Group.Nat
import Mathlib.Algebra.Order.Sub.Defs
import Mathlib.Order.Filter.AtTopBot.Basic
import Scriptlet.Proofs.Location
import Scriptlet.Proofs.Sealed
import Scriptlet.Proofs.Shadowing

/-!
# How Deep a Text Goes

A text is written as deep as there are levels for it. Where there are too few it is not there, and
more levels do not make it another one: a text is found with every number of levels from some number
on, and below that there is none. How many levels the parts of a text take is of no account for what
it says, either.

## Main definitions

* `NoText.ShortOf`: a text that is another one, unless it is missing for want of levels.
* `NoText.Settles`: a text that does not change any more from some number of levels on.

## Main results

* `Store.shortOf_render`: with more levels there is the same text.
* `Store.settles_render`: with enough levels there is one, or an integer in it is too long.
* `NoText.exists_need`: a text takes so many levels.
-/

namespace Scriptlet

open Filter

/-! ### More levels -/

namespace NoText

variable {α β : Type}

/-- Whether a text is another one, unless it is missing for want of levels. -/
def ShortOf (text text' : Except NoText α) : Prop :=
  text ≠ .error .tooDeep → text' = text

/-- A text that is there is there with enough levels. -/
theorem eq_ok_of_within {need levels : Nat} {text : Except NoText α} {a : α}
    (h : within need levels text = .ok a) : text = .ok a := by
  unfold within at h
  split at h
  · exact h
  · cases h

/-- An integer with a numeral is not too long. -/
theorem of_numeral_eq_ok {n : Int} {text : String} (h : numeral n = .ok text) :
    n.natAbs < Text.numeralBound ∧ text = toString n := by
  rcases Nat.lt_or_ge n.natAbs Text.numeralBound with hn | hn
  · rw [numeral_of_lt hn] at h
    exact ⟨hn, (Except.ok.inj h).symm⟩
  · rw [numeral_of_le hn] at h
    cases h

namespace ShortOf

variable {text text' : Except NoText α}

/-- Every text is short of itself. -/
theorem refl (text : Except NoText α) : ShortOf text text := fun _ => rfl

/-- A text that nests too deeply is short of every text. -/
theorem tooDeep (text : Except NoText α) : ShortOf (.error .tooDeep) text := fun h => absurd rfl h

/-- A text that needs less, when there are more levels. -/
theorem within {need need' few many : Nat} (hneed : need' ≤ need) (hlevels : few ≤ many)
    (h : ShortOf text text') :
    ShortOf (NoText.within need few text) (NoText.within need' many text') := by
  unfold NoText.within
  split
  next hle =>
    rw [if_pos (by omega)]
    exact h
  next => exact tooDeep _

/-- Texts that go on behind others. -/
theorem bind {f f' : α → Except NoText β} (h : ShortOf text text')
    (hf : ∀ a, ShortOf (f a) (f' a)) : ShortOf (text >>= f) (text' >>= f') := by
  intro hne
  cases text with
  | ok a =>
      rw [h nofun]
      exact hf a hne
  | error why =>
      rw [h fun hdeep => hne (congrArg (· >>= f) hdeep)]
      rfl

/-- The texts of a row. -/
theorem mapM {k k' : α → Except NoText β} {as : List α}
    (h : ∀ a ∈ as, ShortOf (k a) (k' a)) : ShortOf (as.mapM k) (as.mapM k') := by
  induction as with
  | nil => exact refl _
  | cons a rest ih =>
      obtain ⟨ha, hrest⟩ := List.forall_mem_cons.mp h
      rw [List.mapM_cons, List.mapM_cons]
      exact ha.bind fun b => (ih hrest).bind fun bs => refl _

end ShortOf

end NoText

open NoText (ShortOf)

/-- Whether no part of a text takes more levels at one depth than at another one. -/
structure TextDepth.AtMost (depth' depth : TextDepth) : Prop where
  atom (typeName : String) : depth'.atom typeName ≤ depth.atom typeName
  node (kind : String) : depth'.node kind ≤ depth.node kind
  row : depth'.row ≤ depth.row
  entry : depth'.entry ≤ depth.entry

/-- A depth is at most itself. -/
theorem TextDepth.AtMost.refl (depth : TextDepth) : depth.AtMost depth :=
  ⟨fun _ => le_rfl, fun _ => le_rfl, le_rfl, le_rfl⟩

/-- The flat depth is at most every depth. -/
theorem TextDepth.flat_atMost (depth : TextDepth) : flat.AtMost depth :=
  ⟨fun _ => Nat.zero_le _, fun _ => Nat.zero_le _, Nat.zero_le _, Nat.zero_le _⟩

section

variable {depth depth' : TextDepth}
  {object object' : (levels : Nat) → List Node → Ref → Except NoText String}

mutual

/-- With more levels, and with parts that take fewer, the description of a value is the same. -/
theorem Value.shortOf_describe (hdepth : depth'.AtMost depth)
    (hobject : ∀ few many enclosing r, few ≤ many →
      ShortOf (object few enclosing r) (object' many enclosing r)) :
    (v : Value) → {few many : Nat} → few ≤ many → (enclosing : List Node) →
      ShortOf (v.describe depth object few enclosing) (v.describe depth' object' many enclosing)
  | .undefined, _, _, h, _ | .integer _, _, _, h, _ | .string _, _, _, h, _ =>
      .within (hdepth.atom _) h (.refl _)
  | .object r, _, _, h, enclosing => by
      have hbelow := tsub_le_tsub h (hdepth.atom "JSObject")
      exact .within (hdepth.atom _) h (hobject _ _ enclosing r hbelow)
  | .node n, _, _, h, enclosing => Node.shortOf_describe hdepth hobject n h enclosing

/-- The description of a node with fewer levels. -/
theorem Node.shortOf_describe (hdepth : depth'.AtMost depth)
    (hobject : ∀ few many enclosing r, few ≤ many →
      ShortOf (object few enclosing r) (object' many enclosing r)) :
    (n : Node) → {few many : Nat} → few ≤ many → (enclosing : List Node) →
      ShortOf (n.describe depth object few enclosing)
        (n.describe depth' object' many enclosing) := by
  intro n few many h enclosing
  rw [Node.describe, Node.describe]
  split
  · exact .refl _
  have hbelow := tsub_le_tsub h (hdepth.node n.kind)
  have hrow := tsub_le_tsub hbelow hdepth.row
  refine .within (hdepth.node _) h ?_
  match n with
  | .block ns _ =>
      exact .bind (.within hdepth.row hbelow
        (Node.shortOf_describeAll hdepth hobject ns hrow _)) fun _ => .refl _
  | .literal v _ _ =>
      exact .bind (Value.shortOf_describe hdepth hobject v hbelow _) fun _ => .refl _
  | .name _ _ => exact .refl _
  | .assign _ n _ _ | .function _ _ n _ | .giveBack n _ | .field n _ _ =>
      exact .bind (Node.shortOf_describe hdepth hobject n hbelow _) fun _ => .refl _
  | .call n ns _ | .callMethod n _ ns _ =>
      exact .bind (Node.shortOf_describe hdepth hobject n hbelow _) fun _ =>
        .bind (.within hdepth.row hbelow
        (Node.shortOf_describeAll hdepth hobject ns hrow _)) fun _ => .refl _
  | .branch c q a _ =>
      exact .bind (Node.shortOf_describe hdepth hobject c hbelow _) fun _ =>
        .bind (Node.shortOf_describe hdepth hobject q hbelow _) fun _ =>
        .bind (Node.shortOf_describe hdepth hobject a hbelow _) fun _ => .refl _
  | .record es _ =>
      exact .bind (.within hdepth.row hbelow
        (Node.shortOf_describeEntries hdepth hobject es hrow _)) fun _ => .refl _
  | .assignField r _ v _ =>
      exact .bind (Node.shortOf_describe hdepth hobject r hbelow _) fun _ =>
        .bind (Node.shortOf_describe hdepth hobject v hbelow _) fun _ => .refl _

/-- The descriptions of some nodes with fewer levels. -/
theorem Node.shortOf_describeAll (hdepth : depth'.AtMost depth)
    (hobject : ∀ few many enclosing r, few ≤ many →
      ShortOf (object few enclosing r) (object' many enclosing r)) :
    (ns : List Node) → {few many : Nat} → few ≤ many → (enclosing : List Node) →
      ShortOf (Node.describeAll depth object few enclosing ns)
        (Node.describeAll depth' object' many enclosing ns)
  | [], _, _, _, _ => .refl _
  | n :: rest, _, _, h, enclosing => by
      rw [Node.describeAll, Node.describeAll]
      exact .bind (Node.shortOf_describe hdepth hobject n h enclosing) fun _ =>
        .bind (Node.shortOf_describeAll hdepth hobject rest h enclosing) fun _ => .refl _

/-- The descriptions of entries with fewer levels. -/
theorem Node.shortOf_describeEntries (hdepth : depth'.AtMost depth)
    (hobject : ∀ few many enclosing r, few ≤ many →
      ShortOf (object few enclosing r) (object' many enclosing r)) :
    (es : List (String × Node)) → {few many : Nat} → few ≤ many → (enclosing : List Node) →
      ShortOf (Node.describeEntries depth object few enclosing es)
        (Node.describeEntries depth' object' many enclosing es)
  | [], _, _, _, _ => .refl _
  | (_, n) :: rest, _, _, h, enclosing => by
      rw [Node.describeEntries, Node.describeEntries]
      exact .bind (Node.shortOf_describe hdepth hobject n h enclosing) fun _ =>
        .bind (Node.shortOf_describeEntries hdepth hobject rest h enclosing) fun _ => .refl _

end

end

namespace Store

variable {depth depth' : TextDepth}

/-- **With more levels there is the same text.** -/
theorem shortOf_render (hdepth : depth'.AtMost depth) (s : Store) {few many : Nat} (h : few ≤ many)
    (within : List Ref) (enclosing : List Node) (v : Value) :
    ShortOf (s.render depth few 0 within enclosing v)
      (s.render depth' many 0 within enclosing v) := by
  induction few using Nat.strong_induction_on generalizing many within enclosing v with
  | h few ih =>
  cases few with
  | zero => exact .tooDeep _
  | succ few =>
      obtain ⟨many, rfl⟩ := Nat.exists_eq_add_one_of_ne_zero (Nat.ne_zero_of_lt h)
      have hle : few ≤ many := Nat.le_of_succ_le_succ h
      -- what is inside a description is written with what is left below it
      have hobject (left left' : Nat) (enclosing : List Node) (r : Ref) (hl : left ≤ left') :
          ShortOf (s.render depth few (few - left) [] enclosing (.object r))
            (s.render depth' many (many - left') [] enclosing (.object r)) := by
        have hleft : few - (few - left) < few + 1 := by omega
        rw [render_eq_sub, render_eq_sub depth']
        exact ih _ hleft (by omega) _ _ _
      cases v with
      | string => exact .refl _
      | undefined | integer | node => exact Value.shortOf_describe hdepth hobject _ hle enclosing
      | object r =>
          rw [render, render]
          split
          · exact .refl _
          split
          · exact .refl _
          split
          · exact .refl _
          refine .bind (.mapM fun e _ => .bind ?_ fun _ => .refl _) fun _ => .refl _
          have hleft : few - depth.entry < few + 1 := by omega
          rw [render_eq_sub, render_eq_sub depth']
          exact ih _ hleft (tsub_le_tsub hle hdepth.entry) _ _ _

variable {few many : Nat}

/-- What an error message shows with fewer levels. -/
theorem shortOf_display (s : Store) (h : few ≤ many) (v : Value) :
    ShortOf (s.display depth few v) (s.display depth many v) :=
  s.shortOf_render (.refl depth) h [] [] v

/-- A description with fewer levels. -/
theorem shortOf_describe (s : Store) (h : few ≤ many) (v : Value) :
    ShortOf (s.describe depth few v) (s.describe depth many v) :=
  v.shortOf_describe (.refl depth)
    (fun _ _ enclosing r h => s.shortOf_render (.refl depth) h [] enclosing (.object r)) h []

/-- What is printed with fewer levels. A string needs none. -/
theorem shortOf_printed (s : Store) (h : few ≤ many) (v : Value) :
    ShortOf (s.printed depth few v) (s.printed depth many v) := by
  cases v with
  | string | undefined => exact .refl _
  | integer | object | node => exact s.shortOf_describe h _

end Store

/-! ### Nodes without objects -/

/-- The nodes right below a plain node are plain. -/
theorem Node.Plain.child {n m : Node} (h : n.Plain) (hm : m ∈ n.children) : m.Plain := by
  cases h with
  | literal | name => cases hm
  | block h => exact h m hm
  | call h hs | callMethod h hs => exact List.forall_mem_cons.mpr ⟨h, hs⟩ m hm
  | assign h | function h | giveBack h | field h =>
      obtain rfl := List.mem_singleton.mp hm
      exact h
  | branch hc hq ha => exact List.forall_mem_cons.mpr ⟨hc, by simp [hq, ha]⟩ m hm
  | record h =>
      obtain ⟨e, he, rfl⟩ := List.mem_map.mp hm
      exact h e he
  | assignField hr hv => exact List.forall_mem_cons.mpr ⟨hr, by simp [hv]⟩ m hm

/-- The description of a plain node does not depend on how objects look, since there are none in
it. -/
theorem Node.Plain.describe_eq {n : Node} (h : n.Plain) (depth : TextDepth)
    (object object' : (levels : Nat) → List Node → Ref → Except NoText String) (levels : Nat)
    (enclosing : List Node) :
    n.describe depth object levels enclosing = n.describe depth object' levels enclosing := by
  have all {ns : List Node} {levels : Nat} {enclosing : List Node}
      (hns : ∀ n ∈ ns, ∀ levels enclosing,
        n.describe depth object levels enclosing = n.describe depth object' levels enclosing) :
      describeAll depth object levels enclosing ns =
        describeAll depth object' levels enclosing ns := by
    induction ns with
    | nil => rfl
    | cons n rest ih =>
        obtain ⟨hn, hrest⟩ := List.forall_mem_cons.mp hns
        rw [describeAll, hn, ih hrest, describeAll]
  have every {es : List (String × Node)} {levels : Nat} {enclosing : List Node}
      (hes : ∀ e ∈ es, ∀ levels enclosing,
        e.2.describe depth object levels enclosing = e.2.describe depth object' levels enclosing) :
      describeEntries depth object levels enclosing es =
        describeEntries depth object' levels enclosing es := by
    induction es with
    | nil => rfl
    | cons e rest ih =>
        obtain ⟨he, hrest⟩ := List.forall_mem_cons.mp hes
        rw [describeEntries, he, ih hrest, describeEntries]
  induction h generalizing levels enclosing with
  | @literal v _ _ hv =>
      cases v with
      | object | node => exact hv.elim
      | undefined | integer | string => rfl
  | name => rfl
  | block _ ih =>
      rw [describe, describe]
      simp only [all ih]
  | call _ _ ih ih' | callMethod _ _ ih ih' =>
      rw [describe, describe]
      simp only [ih, all ih']
  | assign _ ih | function _ ih | giveBack _ ih | field _ ih =>
      rw [describe, describe]
      simp only [ih]
  | branch _ _ _ ih ih₁ ih₂ =>
      rw [describe, describe]
      simp only [ih, ih₁, ih₂]
  | record _ ih =>
      rw [describe, describe]
      simp only [every ih]
  | assignField _ _ ih ih' =>
      rw [describe, describe]
      simp only [ih, ih']

/-! ### Enough levels -/

namespace NoText

variable {α β : Type} {large : Prop}

/-- Whether a text does not change any more from some number of levels on: then there is one, or an
integer in it has too many digits, which is so only if `large`. -/
def Settles (large : Prop) (text : (levels : Nat) → Except NoText α) : Prop :=
  (∃ a, ∀ᶠ levels in atTop, text levels = .ok a) ∨
    large ∧ ∀ᶠ levels in atTop, text levels = .error .oversized

namespace Settles

variable {text : (levels : Nat) → Except NoText α}

/-- A text that needs no levels. -/
theorem ok (a : α) : Settles large fun _ => .ok a := .inl ⟨a, .of_forall fun _ => rfl⟩

/-- What is known of the values may be less. -/
theorem mono {large' : Prop} (h : Settles large text) (hl : large → large') :
    Settles large' text :=
  Or.imp_right (fun h => ⟨hl h.1, h.2⟩) h

/-- Only what is there with many levels counts. -/
theorem congr {text' : (levels : Nat) → Except NoText α} (h : Settles large text)
    (ht : ∀ᶠ levels in atTop, text' levels = text levels) : Settles large text' := by
  refine Or.imp (fun ⟨a, ha⟩ => ⟨a, ?_⟩) (fun ⟨hl, ha⟩ => ⟨hl, ?_⟩) h
  · filter_upwards [ht, ha] with levels ht ha
    exact ht.trans ha
  · filter_upwards [ht, ha] with levels ht ha
    exact ht.trans ha

/-- Some levels less are as good. -/
theorem sub (h : Settles large text) (k : Nat) : Settles large fun levels => text (levels - k) :=
  have hsub := tendsto_sub_atTop_nat k
  Or.imp (fun ⟨a, ha⟩ => ⟨a, hsub.eventually ha⟩) (fun ⟨hl, ha⟩ => ⟨hl, hsub.eventually ha⟩) h

/-- One level more is as good. -/
theorem succ (h : Settles large fun levels => text (levels + 1)) : Settles large text := by
  refine (h.sub 1).congr ?_
  filter_upwards [eventually_ge_atTop 1] with levels hle
  rw [Nat.sub_add_cancel hle]

/-- A text that needs some levels itself. -/
theorem within (need : Nat) (h : Settles large text) :
    Settles large fun levels => NoText.within need levels (text levels) := by
  refine h.congr ?_
  filter_upwards [eventually_ge_atTop need] with levels hle
  exact if_pos hle

/-- Texts that go on behind others. -/
theorem bind {f : (levels : Nat) → α → Except NoText β} (h : Settles large text)
    (hf : ∀ a, Settles large fun levels => f levels a) :
    Settles large fun levels => text levels >>= f levels := by
  rcases h with ⟨a, ha⟩ | ⟨hl, ha⟩
  · refine (hf a).congr ?_
    filter_upwards [ha] with levels ha
    rw [ha]
    rfl
  · refine .inr ⟨hl, ?_⟩
    filter_upwards [ha] with levels ha
    rw [ha]
    rfl

/-- The texts of a row settle if each of them does. -/
theorem mapM {k : (levels : Nat) → α → Except NoText β} {as : List α}
    (h : ∀ a ∈ as, Settles large fun levels => k levels a) :
    Settles large fun levels => as.mapM (k levels) := by
  induction as with
  | nil => exact ok _
  | cons a rest ih =>
      obtain ⟨ha, hrest⟩ := List.forall_mem_cons.mp h
      simp only [List.mapM_cons]
      exact ha.bind fun b => (ih hrest).bind fun bs => ok _

/-- The numeral of an integer. -/
theorem numeral (need : Nat) {k : Int} (h : Text.numeralBound ≤ k.natAbs → large) :
    Settles large fun levels => NoText.within need levels (NoText.numeral k) := by
  refine .within _ ?_
  rcases Nat.lt_or_ge k.natAbs Text.numeralBound with hk | hk
  · simp only [numeral_of_lt hk]
    exact .ok _
  · simp only [numeral_of_le hk]
    exact .inr ⟨h hk, .of_forall fun _ => rfl⟩

end Settles

/-- **A text that is there with many levels takes so many**, if more levels do not make it another
one. -/
theorem exists_need {text : (levels : Nat) → Except NoText α} {a : α}
    (hshort : ∀ {few many : Nat}, few ≤ many → ShortOf (text few) (text many))
    (h : ∀ᶠ levels in atTop, text levels = .ok a) :
    ∃ need, ∀ levels, text levels = if need ≤ levels then .ok a else .error .tooDeep := by
  obtain ⟨enough, henough⟩ := eventually_atTop.mp h
  have hthere : ∃ levels, text levels ≠ .error .tooDeep :=
    ⟨enough, by rw [henough enough le_rfl]; exact nofun⟩
  classical
  refine ⟨Nat.find hthere, fun levels => ?_⟩
  split
  next hle =>
    have hleast := hshort hle (Nat.find_spec hthere)
    have hmore := hshort (le_max_left levels enough) (hleast ▸ Nat.find_spec hthere)
    rw [← hmore, henough _ (le_max_right levels enough)]
  next hlt => exact not_not.mp (Nat.find_min hthere (Nat.lt_of_not_le hlt))

end NoText

open NoText (Settles)

namespace Node

/-- Whether all integers in the literals of a node can be written. -/
def Writable (n : Node) : Prop :=
  ∀ k serial line, n.Contains (.literal (.integer k) serial line) → k.natAbs < Text.numeralBound

/-- The nodes below a writable one are writable. -/
theorem Writable.child {n m : Node} (h : n.Writable) (hm : m ∈ n.children) : m.Writable :=
  fun k serial line hk => h k serial line (.child hm hk)

variable {depth : TextDepth} {object : (levels : Nat) → List Node → Ref → Except NoText String}
  {enclosing : List Node} {large : Prop}

/-- The descriptions of some nodes settle if each of them does. -/
theorem settles_describeAll {ns : List Node}
    (h : ∀ n ∈ ns, Settles large fun levels => n.describe depth object levels enclosing) :
    Settles large fun levels => describeAll depth object levels enclosing ns := by
  induction ns with
  | nil => exact .ok _
  | cons n rest ih =>
      obtain ⟨hn, hrest⟩ := List.forall_mem_cons.mp h
      exact hn.bind fun _ => (ih hrest).bind fun _ => .ok _

/-- So do those of entries. -/
theorem settles_describeEntries {es : List (String × Node)}
    (h : ∀ e ∈ es, Settles large fun levels => e.2.describe depth object levels enclosing) :
    Settles large fun levels => describeEntries depth object levels enclosing es := by
  induction es with
  | nil => exact .ok _
  | cons e rest ih =>
      obtain ⟨he, hrest⟩ := List.forall_mem_cons.mp h
      exact he.bind fun _ => (ih hrest).bind fun _ => .ok _

/-- A plain node is described if there are enough levels, and its integers can be written. -/
theorem Plain.settles_describe {n : Node} (h : n.Plain) (depth : TextDepth)
    (object : (levels : Nat) → List Node → Ref → Except NoText String) (enclosing : List Node) :
    Settles (¬n.Writable) fun levels => n.describe depth object levels enclosing := by
  induction n using induction_children generalizing enclosing with
  | h n ih =>
  have hpart {m : Node} (hm : m ∈ n.children) (hp : m.Plain) :
      Settles (¬n.Writable) fun levels =>
        m.describe depth object (levels - depth.node n.kind) (n :: enclosing) :=
    ((ih m hm hp _).mono fun hw h => hw (h.child hm)).sub _
  have hrow {ns : List Node} (hns : ∀ m ∈ ns, m ∈ n.children ∧ m.Plain) :
      Settles (¬n.Writable) fun levels => NoText.within depth.row (levels - depth.node n.kind)
        (describeAll depth object (levels - depth.node n.kind - depth.row) (n :: enclosing)
          ns) := by
    have hall : Settles (¬n.Writable) fun levels =>
        describeAll depth object levels (n :: enclosing) ns :=
      settles_describeAll fun m hm =>
        (ih m (hns m hm).1 (hns m hm).2 _).mono fun hw h => hw (h.child (hns m hm).1)
    exact ((hall.sub depth.row).within depth.row).sub (depth.node n.kind)
  unfold describe
  by_cases hmet : enclosing.any n.identical = true
  · -- a node inside itself is an ellipsis, however many levels there are
    simp only [if_pos hmet]
    exact .ok _
  simp only [if_neg hmet]
  refine .within _ ?_
  cases h with
  | name => exact .ok _
  | @literal v serial line hv =>
      have hvalue : Settles (¬(Node.literal v serial line).Writable) fun levels =>
          Value.describe depth object levels (Node.literal v serial line :: enclosing) v := by
        cases v with
        | undefined | string => exact .within _ (.ok _)
        | integer k =>
            exact .numeral _ fun hk hw => absurd (hw k _ _ .self) (Nat.not_lt.mpr hk)
        | object | node => exact hv.elim
      exact .bind (hvalue.sub _) fun _ => .ok _
  | block h => exact .bind (hrow fun m hm => ⟨hm, h m hm⟩) fun _ => .ok _
  | call h hs | callMethod h hs =>
      exact .bind (hpart List.mem_cons_self h) fun _ =>
        .bind (hrow fun m hm => ⟨List.mem_cons_of_mem _ hm, hs m hm⟩) fun _ => .ok _
  | assign h | function h | giveBack h | field h =>
      exact .bind (hpart List.mem_cons_self h) fun _ => .ok _
  | branch hc hq ha =>
      exact .bind (hpart (by simp [children]) hc) fun _ =>
        .bind (hpart (by simp [children]) hq) fun _ =>
        .bind (hpart (by simp [children]) ha) fun _ => .ok _
  | @record es line h =>
      have hentries : Settles (¬(Node.record es line).Writable) fun levels =>
          describeEntries depth object levels (Node.record es line :: enclosing) es := by
        refine settles_describeEntries fun e he => ?_
        have hmem : e.2 ∈ (Node.record es line).children := List.mem_map_of_mem he
        exact (ih e.2 hmem (h e he) _).mono fun hw h => hw (h.child hmem)
      exact .bind (((hentries.sub depth.row).within depth.row).sub _) fun _ => .ok _
  | assignField hr hv =>
      exact .bind (hpart (by simp [children]) hr) fun _ =>
        .bind (hpart (by simp [children]) hv) fun _ => .ok _

end Node

namespace Store

/-- Whether a value is another one or found in it: in entries of objects, or in literals of
nodes. -/
inductive Within (s : Store) : Value → Value → Prop
  | self {v : Value} : s.Within v v
  | entry {r : Ref} {o : Object} {e : String × Value} {v : Value} (ho : s.object? r = some o)
      (he : e ∈ o.entries) (h : s.Within e.2 v) : s.Within (.object r) v
  | literal {n : Node} {v : Value} {serial : Nat} {line : Int}
      (h : n.Contains (.literal v serial line)) : s.Within (.node n) v

/-- Whether every integer that is found in a value can be written. -/
def Writable (s : Store) (v : Value) : Prop :=
  ∀ k, s.Within v (.integer k) → k.natAbs < Text.numeralBound

variable {s : Store} {g : Ref} {depth : TextDepth}

/-- What a writable object holds is writable. -/
theorem Writable.entry {r : Ref} {o : Object} {e : String × Value} (h : s.Writable (.object r))
    (ho : s.object? r = some o) (he : e ∈ o.entries) : s.Writable e.2 :=
  fun k hk => h k (.entry ho he hk)

/-- A node is writable as a value if it is as a node. -/
theorem Writable.node {n : Node} (h : s.Writable (.node n)) : n.Writable :=
  fun k _ _ hk => h k (.literal hk)

/-- A value that is no object is described if there are enough levels. -/
theorem settles_describe_value
    (object : (levels left : Nat) → List Node → Ref → Except NoText String) {v : Value}
    (hv : s.Public v) (hobject : ∀ r, v ≠ .object r) :
    Settles (¬s.Writable v) fun levels => v.describe depth (object levels) levels [] := by
  cases v with
  | undefined | string => exact .within _ (.ok _)
  | integer k => exact .numeral _ fun hk hw => absurd (hw k .self) (Nat.not_lt.mpr hk)
  | object r => exact absurd rfl (hobject r)
  | node n =>
      have hn : n.Plain := hv
      have hsettles := hn.settles_describe depth (object 0) []
      refine (hsettles.mono fun hw h => hw h.node).congr (.of_forall fun levels => ?_)
      exact hn.describe_eq depth _ _ levels []

/-- **A value that a script may get hold of has a text**, if there are enough levels and its
integers can be written: no object is written inside itself, and there are only so many. -/
theorem settles_render (hs : s.Sealed g) (depth : TextDepth) {path : List Ref} (hn : path.Nodup)
    (hp : ∀ q ∈ path, q.index < s.size) {v : Value} (hv : s.Public v) :
    Settles (¬s.Writable v) fun levels => s.render depth levels 0 path [] v := by
  have hleft : s.size < path.length + (s.size + 1) := by omega
  generalize s.size + 1 = left at hleft
  induction left generalizing path v with
  | zero =>
      have hlength := length_le_size hn hp
      omega
  | succ left ih =>
      refine .succ ?_
      cases v with
      | string => exact .ok _
      | undefined | integer | node => exact settles_describe_value _ hv nofun
      | object r =>
          unfold render
          by_cases hmem : r ∈ path
          · simp only [if_pos (List.contains_iff_mem.mpr hmem)]
            exact .ok _
          simp only [if_neg (mt List.contains_iff_mem.mp hmem)]
          obtain ⟨o, ho, -⟩ := hv
          simp only [ho]
          split
          · exact .ok _
          have hnodup : (r :: path).Nodup := List.nodup_cons.mpr ⟨hmem, hn⟩
          have hvalid : ∀ q ∈ r :: path, q.index < s.size :=
            List.forall_mem_cons.mpr ⟨index_lt_of_object? ho, hp⟩
          have hlonger : s.size < (r :: path).length + left := by
            rw [List.length_cons]
            omega
          refine .bind (.mapM fun e he => .bind ?_ fun _ => .ok _) fun _ => .ok _
          have hentry := ih hnodup hvalid ((hs.holds r o ho).entries e he) hlonger
          refine ((hentry.mono fun hw h => hw (h.entry ho he)).sub depth.entry).congr ?_
          exact .of_forall fun levels => render_eq_sub ..

/-- A value is shown, described and printed if there are enough levels. -/
theorem settles_display (hs : s.Sealed g) (depth : TextDepth) {v : Value} (hv : s.Public v) :
    Settles (¬s.Writable v) fun levels => s.display depth levels v :=
  settles_render hs depth List.nodup_nil (List.forall_mem_nil _) hv

/-- The description of a public value settles. -/
theorem settles_describe (hs : s.Sealed g) (depth : TextDepth) {v : Value} (hv : s.Public v) :
    Settles (¬s.Writable v) fun levels => s.describe depth levels v := by
  cases v with
  | object r => exact .within _ (.sub (settles_display hs depth hv) _)
  | undefined | integer | string | node => exact settles_describe_value (fun _ => _) hv nofun

/-- So does what is printed of it. -/
theorem settles_printed (hs : s.Sealed g) (depth : TextDepth) {v : Value} (hv : s.Public v) :
    Settles (¬s.Writable v) fun levels => s.printed depth levels v := by
  cases v with
  | string | undefined => exact .ok _
  | integer | object | node => exact settles_describe hs depth hv

end Store

end Scriptlet
