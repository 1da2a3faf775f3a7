import Scriptlet.Proofs.Indentation
import Scriptlet.Proofs.Lines

/-!
# An Outline Tells Everything But Lines

Two programs that have the same outline are equal, but for the lines of the source that their nodes
stand on. The outline is read back in two steps: the margin gives the listing, and the listing gives
the nodes. There the kind of a node is the last word of its line, whatever the key in front of it
is, and says what the parts are; what plain parts say is told by how it is quoted.

## Main results

* `Node.Legible.told`: a listing tells everything but lines.
* `Source.relined_eq_of_outline_eq`: and so does an outline.
-/

namespace Scriptlet

open Listing (item part group)
open Scriptlet.Text (quote quote_inj quote_ne)

/-! ### What a listing tells -/

/-- Values of literals that were read are told apart. -/
theorem Value.Legible.eq_of_look_eq {v w : Value} (hv : v.Legible) (hw : w.Legible)
    (h : v.look = w.look) : v = w := by
  have hstring (s : String) : quote s ≠ "undefined" := quote_ne (c := 'u') rfl (by decide) s
  have hinteger (k : Nat) : k.repr ≠ "undefined" := Text.natRepr_ne (c := 'u') rfl rfl k
  cases hv with
  | undefined =>
      cases hw with
      | undefined => rfl
      | @integer k hk => exact absurd (h.trans (look_natCast hk)).symm (hinteger k)
      | @string s => exact absurd h.symm (hstring s)
  | @integer k hk =>
      rw [look_natCast hk] at h
      cases hw with
      | undefined => exact absurd h (hinteger k)
      | integer hm =>
          rw [look_natCast hm] at h
          have hread := congrArg (fun s => Nat.ofDigitChars 10 s.toList 0) h
          simp only [Nat.toList_repr, Nat.ofDigitChars_ten_toDigits] at hread
          rw [hread]
      | @string s => exact absurd h (Text.natRepr_ne_quote k s)
  | @string s =>
      cases hw with
      | undefined => exact absurd h (hstring s)
      | @integer k hk => exact absurd (h.trans (look_natCast hk)).symm (Text.natRepr_ne_quote k s)
      | string => rw [quote_inj h]

namespace Listing

/-- Parts are told apart by their texts and by what follows. -/
theorem part_inj {label text text' : String} {next next' : Listing}
    (h : part label text next = part label text' next') : text = text' ∧ next = next' := by
  obtain ⟨htext, -, hnext⟩ := item.inj h
  exact ⟨(String.append_right_inj _).mp htext, hnext⟩

/-- Groups are told apart by their elements, also if there are none. -/
theorem group_inj {label : String} {elements elements' : Listing}
    (h : group label elements = group label elements') : elements = elements' := by
  have hlabel : label ++ " = " ++ tupleText [] ≠ label ++ ":" := by
    rw [String.append_assoc]
    exact fun h => absurd ((String.append_right_inj _).mp h) (by decide)
  cases elements with
  | done =>
      cases elements' with
      | done => rfl
      | item => exact absurd (item.inj h).1 hlabel
  | item =>
      cases elements' with
      | done => exact absurd (item.inj h).1.symm hlabel
      | item => exact (item.inj h).2.1

/-- A key is told apart from the kind behind it, whatever the key is: the kind
begins behind the last blank. -/
theorem item_key_inj {key key' : String} {n m : Node} {below below' next next' : Listing}
    (h : item (key ++ " = " ++ n.kind) below next = item (key' ++ " = " ++ m.kind) below' next') :
    key = key' ∧ n.kind = m.kind ∧ below = below' ∧ next = next' := by
  have hkinds : ∀ k ∈ Node.kinds, ' ' ∉ k.toList.reverse := by decide
  have hkind (n : Node) : ' ' ∉ n.kind.toList.reverse := hkinds _ n.kind_mem_kinds
  obtain ⟨hline, hbelow, hnext⟩ := item.inj h
  have hchars := congrArg (fun s => s.toList.reverse) hline
  simp only [String.toList_append, List.reverse_append] at hchars
  obtain ⟨hn, hrest⟩ := Text.eq_of_append_cons_eq (hkind n) (hkind m) hchars
  have hkey := (List.cons.inj (List.cons.inj hrest).2).2
  exact ⟨String.toList_inj.mp (List.reverse_inj.mp hkey),
    String.toList_inj.mp (List.reverse_inj.mp hn), hbelow, hnext⟩

end Listing

namespace Node

/-- Truth values are told apart. -/
theorem flagText_inj {b c : Bool} (h : flagText b = flagText c) : b = c := by
  cases b <;> cases c <;> first | rfl | exact absurd h (by decide)

/-- Whether the listing of a node tells it from other nodes, but for its lines. -/
def Told (n : Node) : Prop :=
  ∀ m : Node, m.Legible → n.kind = m.kind → n.parts = m.parts →
    n.relined (fun _ => 0) = m.relined fun _ => 0

/-- A part that is a node is told, and so is what comes behind it. -/
theorem Told.eq_of_item_eq {n m : Node} {label : String} {next next' : Listing} (hn : n.Told)
    (hm : m.Legible) (h : item (label ++ n.kind) n.parts next =
      item (label ++ m.kind) m.parts next') :
    n.relined (fun _ => 0) = m.relined (fun _ => 0) ∧ next = next' := by
  obtain ⟨hline, hbelow, hnext⟩ := Listing.item.inj h
  exact ⟨hn m hm ((String.append_right_inj _).mp hline) hbelow, hnext⟩

/-- Rows of nodes are told apart if each node is. -/
theorem relinedAll_eq_of_elements_eq {ns ms : List Node} (hns : ∀ n ∈ ns, n.Told)
    (hms : ∀ m ∈ ms, m.Legible) (h : elements ns = elements ms) :
    relinedAll (fun _ => 0) ns = relinedAll (fun _ => 0) ms := by
  induction ns generalizing ms with
  | nil =>
      cases ms with
      | nil => rfl
      | cons m ms => cases h
  | cons n ns ih =>
      cases ms with
      | nil => cases h
      | cons m ms =>
          obtain ⟨hn, hns⟩ := List.forall_mem_cons.mp hns
          obtain ⟨hm, hms⟩ := List.forall_mem_cons.mp hms
          obtain ⟨hkind, hbelow, hnext⟩ := Listing.item.inj h
          rw [relinedAll, relinedAll, hn m hm hkind hbelow, ih hns hms hnext]

/-- Entries are told apart if each node is. -/
theorem relinedEntries_eq_of_entryItems_eq {es fs : List (String × Node)}
    (hes : ∀ n ∈ es.map Prod.snd, n.Told) (hfs : ∀ m ∈ fs.map Prod.snd, m.Legible)
    (h : entryItems es = entryItems fs) :
    relinedEntries (fun _ => 0) es = relinedEntries (fun _ => 0) fs := by
  induction es generalizing fs with
  | nil =>
      cases fs with
      | nil => rfl
      | cons f fs => cases h
  | cons e es ih =>
      cases fs with
      | nil => cases h
      | cons f fs =>
          obtain ⟨he, hes⟩ := List.forall_mem_cons.mp hes
          obtain ⟨hf, hfs⟩ := List.forall_mem_cons.mp hfs
          obtain ⟨hkey, hkind, hbelow, hnext⟩ := Listing.item_key_inj h
          rw [relinedEntries, relinedEntries, hkey, he f.2 hf hkind hbelow, ih hes hfs hnext]

/-- **A listing tells everything but lines.** -/
theorem Legible.told {n : Node} (h : n.Legible) : n.Told := by
  induction n using induction_children with
  | h n ih =>
  intro m hm hkind hlisting
  have hparts : ∀ k ∈ n.children, k.Told := fun k hk => ih k hk (h.child hk)
  have hlegible : ∀ k ∈ m.children, k.Legible := fun k hk => hm.child hk
  cases n with
  | block statements line =>
      cases m with
      | block statements' line' =>
          have hstatements : relinedAll (fun _ => 0) statements =
              relinedAll (fun _ => 0) statements' :=
            relinedAll_eq_of_elements_eq hparts hlegible (Listing.group_inj hlisting)
          rw [relined, relined, hstatements]
      | _ => simp [kind] at hkind
  | literal v serial line =>
      cases m with
      | literal v' serial' line' =>
          obtain ⟨rfl, hv⟩ := h v serial line .self
          obtain ⟨rfl, hv'⟩ := hm v' serial' line' .self
          rw [relined, relined, hv.eq_of_look_eq hv' (Listing.part_inj hlisting).1]
      | _ => simp [kind] at hkind
  | call callee arguments line =>
      cases m with
      | call callee' arguments' line' =>
          obtain ⟨hpart, hrest⟩ := List.forall_mem_cons.mp hparts
          obtain ⟨hl, hlrest⟩ := List.forall_mem_cons.mp hlegible
          obtain ⟨hcallee, hnext⟩ := hpart.eq_of_item_eq hl hlisting
          rw [relined, relined, hcallee,
            relinedAll_eq_of_elements_eq hrest hlrest (Listing.group_inj hnext)]
      | _ => simp [kind] at hkind
  | name x line =>
      cases m with
      | name x' line' => rw [relined, relined, quote_inj (Listing.part_inj hlisting).1]
      | _ => simp [kind] at hkind
  | assign x value declares line =>
      cases m with
      | assign x' value' declares' line' =>
          obtain ⟨hx, hlisting⟩ := Listing.part_inj hlisting
          obtain ⟨hvalue, hnext⟩ := (List.forall_mem_singleton.mp hparts).eq_of_item_eq
            (List.forall_mem_singleton.mp hlegible) hlisting
          rw [relined, relined, quote_inj hx, hvalue, flagText_inj (Listing.part_inj hnext).1]
      | _ => simp [kind] at hkind
  | function x parameters body line =>
      cases m with
      | function x' parameters' body' line' =>
          obtain ⟨hx, hlisting⟩ := Listing.part_inj hlisting
          obtain ⟨hparameters, hlisting⟩ := Listing.part_inj hlisting
          obtain ⟨hbody, -⟩ := (List.forall_mem_singleton.mp hparts).eq_of_item_eq
            (List.forall_mem_singleton.mp hlegible) hlisting
          rw [relined, relined, nameText?_inj hx, namesText_inj hparameters, hbody]
      | _ => simp [kind] at hkind
  | giveBack value line =>
      cases m with
      | giveBack value' line' =>
          obtain ⟨hvalue, -⟩ := (List.forall_mem_singleton.mp hparts).eq_of_item_eq
            (List.forall_mem_singleton.mp hlegible) hlisting
          rw [relined, relined, hvalue]
      | _ => simp [kind] at hkind
  | branch condition consequence alternative line =>
      cases m with
      | branch condition' consequence' alternative' line' =>
          obtain ⟨hc, hparts⟩ := List.forall_mem_cons.mp hparts
          obtain ⟨hlc, hlegible⟩ := List.forall_mem_cons.mp hlegible
          obtain ⟨hcondition, hlisting⟩ := hc.eq_of_item_eq hlc hlisting
          obtain ⟨hq, hparts⟩ := List.forall_mem_cons.mp hparts
          obtain ⟨hlq, hlegible⟩ := List.forall_mem_cons.mp hlegible
          obtain ⟨hconsequence, hlisting⟩ := hq.eq_of_item_eq hlq hlisting
          obtain ⟨halternative, -⟩ := (List.forall_mem_singleton.mp hparts).eq_of_item_eq
            (List.forall_mem_singleton.mp hlegible) hlisting
          rw [relined, relined, hcondition, hconsequence, halternative]
      | _ => simp [kind] at hkind
  | record entries line =>
      cases m with
      | record entries' line' =>
          have hentries : relinedEntries (fun _ => 0) entries =
              relinedEntries (fun _ => 0) entries' :=
            relinedEntries_eq_of_entryItems_eq hparts hlegible (Listing.item.inj hlisting).2.1
          rw [relined, relined, hentries]
      | _ => simp [kind] at hkind
  | field receiver x line =>
      cases m with
      | field receiver' x' line' =>
          obtain ⟨hreceiver, hnext⟩ := (List.forall_mem_singleton.mp hparts).eq_of_item_eq
            (List.forall_mem_singleton.mp hlegible) hlisting
          rw [relined, relined, hreceiver, quote_inj (Listing.part_inj hnext).1]
      | _ => simp [kind] at hkind
  | assignField receiver x value line =>
      cases m with
      | assignField receiver' x' value' line' =>
          obtain ⟨hr, hparts⟩ := List.forall_mem_cons.mp hparts
          obtain ⟨hlr, hlegible⟩ := List.forall_mem_cons.mp hlegible
          obtain ⟨hreceiver, hlisting⟩ := hr.eq_of_item_eq hlr hlisting
          obtain ⟨hx, hlisting⟩ := Listing.part_inj hlisting
          obtain ⟨hvalue, -⟩ := (List.forall_mem_singleton.mp hparts).eq_of_item_eq
            (List.forall_mem_singleton.mp hlegible) hlisting
          rw [relined, relined, hreceiver, quote_inj hx, hvalue]
      | _ => simp [kind] at hkind
  | callMethod receiver x arguments line =>
      cases m with
      | callMethod receiver' x' arguments' line' =>
          obtain ⟨hr, hrest⟩ := List.forall_mem_cons.mp hparts
          obtain ⟨hlr, hlrest⟩ := List.forall_mem_cons.mp hlegible
          obtain ⟨hreceiver, hlisting⟩ := hr.eq_of_item_eq hlr hlisting
          obtain ⟨hx, hnext⟩ := Listing.part_inj hlisting
          rw [relined, relined, hreceiver, quote_inj hx,
            relinedAll_eq_of_elements_eq hrest hlrest (Listing.group_inj hnext)]
      | _ => simp [kind] at hkind

end Node

/-- **An outline tells everything but lines.** Two programs with the same outline are equal when
lines do not count, if no key in them is broken over lines. -/
theorem Source.relined_eq_of_outline_eq {source source' : String} {p q : Node}
    (hp : program source = .ok p) (hq : program source' = .ok q)
    (hkp : p.UnbrokenKeys) (hkq : q.UnbrokenKeys)
    (h : (Value.node p).listing "  " = (Value.node q).listing "  ") :
    p.relined (fun _ => 0) = q.relined fun _ => 0 := by
  have hlp := (wellFormed_of_program hp).legible
  have hlq := (wellFormed_of_program hq).legible
  have hneat {n : Node} (hn : n.Legible) (hk : n.UnbrokenKeys) :
      (item ("" ++ n.kind) n.parts .done).Neat :=
    Node.neat_item (by decide) (Node.neat_parts hn hk) .done
  have houtline {n : Node} (hn : n.Legible) : (Value.node n).listing "  " =
      some ((item ("" ++ n.kind) n.parts .done).text ⟨"  ", 0⟩) := by
    rw [Listing.text_item, Listing.text_done, String.append_empty]
    exact hn.listed _ _
  rw [houtline hlp, houtline hlq] at h
  have hlisting := (hneat hlp hkp).eq_of_text_eq (hneat hlq hkq) (Option.some.inj h)
  exact (hlp.told.eq_of_item_eq hlq hlisting).1

namespace Legibility

/-- A program with a key that ends like a part and one that begins like a margin. -/
def source : String := "x = \x7b \"a = New\": 1, \"  b\": \"it's\" \x7d;"

/-- The same on four lines. -/
def broken : String := "\nx =\n\x7b \"a = New\": 1,\n \"  b\": \"it's\" \x7d;"

/-- The program, by the lines of the statement, of the object literal and of its second entry. -/
def program (statement literal entry : Int) : Node :=
  .block [.assign "x" (.record [("a = New", .constant (.integer 1) literal),
    ("  b", .constant (.string "it's") entry)] literal) false statement] statement

/-- The keys of the program have no line break. -/
theorem unbrokenKeys_program (statement literal entry : Int) :
    (program statement literal entry).UnbrokenKeys := by
  have hconstant (v : Value) (line : Int) : (Node.constant v line).UnbrokenKeys :=
    Node.unbrokenKeys_of_children nofun (List.forall_mem_nil _)
  refine Node.unbrokenKeys_of_children nofun (List.forall_mem_singleton.mpr ?_)
  refine Node.unbrokenKeys_of_children nofun (List.forall_mem_singleton.mpr ?_)
  refine Node.unbrokenKeys_of_children (fun entries line h => ?_) (List.forall_mem_cons.mpr
    ⟨hconstant _ _, List.forall_mem_singleton.mpr (hconstant _ _)⟩)
  have hkeys : ∀ key ∈ ["a = New", "  b"], '\n' ∉ key.toList := by decide
  obtain ⟨rfl, -⟩ := Node.record.inj h
  exact fun e he => hkeys e.1 (List.mem_map_of_mem he)

end Legibility

open Legibility in
/-- The keys are told from what stands behind and before them. -/
theorem outline_eq_broken :
    Source.program source = .ok (program 1 1 1) ∧ Source.program broken = .ok (program 2 3 4) ∧
    (program 1 1 1).UnbrokenKeys ∧ (program 2 3 4).UnbrokenKeys ∧
    (Value.node (program 1 1 1)).listing "  " =
      (Value.node (program 2 3 4)).listing "  " ∧
    (program 1 1 1).relined (fun _ => 0) = (program 2 3 4).relined fun _ => 0 := by
  have hsource : Source.program source = .ok (program 1 1 1) := by with_unfolding_all rfl
  have hbroken : Source.program broken = .ok (program 2 3 4) := by with_unfolding_all rfl
  have houtline : (Value.node (program 1 1 1)).listing "  " =
      (Value.node (program 2 3 4)).listing "  " := by with_unfolding_all rfl
  have hkeys := unbrokenKeys_program 1 1 1
  have hkeys' := unbrokenKeys_program 2 3 4
  exact ⟨hsource, hbroken, hkeys, hkeys', houtline,
    Source.relined_eq_of_outline_eq hsource hbroken hkeys hkeys' houtline⟩

end Scriptlet
