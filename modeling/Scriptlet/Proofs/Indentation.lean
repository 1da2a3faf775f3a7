import Scriptlet.Proofs.Listing

/-!
# Reading the Margin

The margin of an outline says how deep each line stands, and so what stands below what. But a key
is written as it is, and one that begins with blanks looks like a deeper one. Such a line ends with
the name of a kind, as no line does that has nothing below it but its own parts' labels, and below
every kind something follows that begins without a blank, one level deeper. A line that does not end
so begins without a blank itself. So depths can be read off, and the listing with them, as long as
no key is broken over lines.

## Main definitions

* `Row`, `Listing.rows`: the lines of a listing with their depths.
* `Laid`, `Listing.Neat`: rows, and listings, that can be read.
* `Node.UnbrokenKeys`: whether no key is broken over lines.

## Main results

* `Listing.rows_append_inj`: depths tell what stands below what.
* `Laid.eq_of_written_eq`: what is written of rows tells the rows.
* `Listing.Neat.eq_of_text_eq`: a text tells the listing.
* `Node.neat_parts`: the listings of nodes can be read.
-/

namespace Scriptlet

open Listing (item part opening group)
open Scriptlet.Text (quote quoteChars quoteMark isMark_quoteMark toList_quote)

/-! ### Ends of lines -/

/-- The last letters of the names of kinds. -/
def kindEnds : List Char := ['k', 'l', 's', 't', 'n', 'f', 'w']

/-- Whether a text stands on one line, and ends in a character of some sort. -/
structure EndsIn (P : Char → Prop) (t : String) : Prop where
  line : '\n' ∉ t.toList
  last : ∃ c ∈ t.toList.getLast?, P c

/-- Whether a text begins, and not with a blank. -/
def Flush (t : String) : Prop := (t.toList.head?.any (· != ' ')) = true

instance (t : String) : Decidable (Flush t) := inferInstanceAs (Decidable (_ = true))

/-- A text is flush if it begins with a character that is no blank. -/
theorem flush_iff {t : String} : Flush t ↔ ∃ c cs, t.toList = c :: cs ∧ c ≠ ' ' := by
  unfold Flush
  cases t.toList with
  | nil => simp
  | cons c cs => simp

/-- What stands behind a flush text does not count. -/
theorem Flush.append {t : String} (h : Flush t) (u : String) : Flush (t ++ u) := by
  obtain ⟨c, cs, ht, hc⟩ := flush_iff.mp h
  exact flush_iff.mpr ⟨c, cs ++ u.toList, by rw [String.toList_append, ht]; rfl, hc⟩

/-- Nor does what stands before the end of a text, if it has no line break. -/
theorem EndsIn.append {P : Char → Prop} {t : String} (h : EndsIn P t) {s : String}
    (hs : '\n' ∉ s.toList) : EndsIn P (s ++ t) := by
  obtain ⟨c, hc, hp⟩ := h.last
  refine ⟨?_, c, ?_, hp⟩
  · rw [String.toList_append, List.mem_append]
    exact fun hmem => hmem.elim hs h.line
  · rw [String.toList_append, List.getLast?_append, Option.mem_def.mp hc]
    rfl

/-! ### Rows -/

/-- A line of an outline. -/
structure Row where
  /-- How deep it stands. -/
  level : Nat
  /-- What stands behind the margin. -/
  text : String

/-- What is written of a row, without the line feed. -/
def Row.chars (r : Row) : List Char := List.replicate (2 * r.level) ' ' ++ r.text.toList

/-- The rows of a listing. -/
def Listing.rows (level : Nat) : Listing → List Row
  | done => []
  | item line below next => ⟨level, line⟩ :: (below.rows (level + 1) ++ next.rows level)

/-- What is written of rows. -/
def written (rows : List Row) : List Char := rows.flatMap fun r => r.chars ++ ['\n']

/-- A row is written with a line break behind it. -/
theorem written_cons (r : Row) (rows : List Row) :
    written (r :: rows) = r.chars ++ '\n' :: written rows := by
  rw [written, List.flatMap_cons, List.append_assoc]
  rfl

/-- Rows are written one after another. -/
theorem written_append (rows rows' : List Row) :
    written (rows ++ rows') = written rows ++ written rows' :=
  List.flatMap_append

/-- A level is two blanks. -/
theorem toList_indent (level : Nat) :
    (String.join (List.replicate level "  ")).toList = List.replicate (2 * level) ' ' := by
  induction level with
  | zero => rfl
  | succ level ih =>
      rw [List.replicate_succ, String.join_cons, String.toList_append, ih]
      rfl

/-- A line of an outline is a row. -/
theorem toList_line (level : Nat) (text : String) :
    (Margin.line ⟨"  ", level⟩ text).toList = (Row.mk level text).chars ++ ['\n'] := by
  rw [Margin.line, String.toList_append, String.toList_append, toList_indent]
  rfl

/-- A listing is written row by row. -/
theorem Listing.toList_text (l : Listing) (level : Nat) :
    (l.text ⟨"  ", level⟩).toList = written (l.rows level) := by
  induction l generalizing level with
  | done => rfl
  | item line below next ihb ihn =>
      rw [text_item, String.toList_append, String.toList_append, toList_line, Margin.deeper, ihb,
        ihn, rows, written_cons, written_append]
      simp only [List.append_assoc, List.cons_append, List.nil_append]

/-- Whether what comes behind a listing stands less deep than the listing. -/
def Shallow (level : Nat) (rest : List Row) : Prop := ∀ r ∈ rest.head?, r.level < level

/-- What stands less deep does not begin with a line of the listing. -/
theorem Shallow.ne_rows_item {level : Nat} {rest rest' : List Row} (h : Shallow level rest)
    (line : String) (below next : Listing) : rest ≠ (item line below next).rows level ++ rest' := by
  rintro rfl
  exact Nat.lt_irrefl level (h ⟨level, line⟩ rfl)

/-- Below a line there is nothing that comes next to it. -/
theorem Shallow.rows_append {level : Nat} {rest : List Row} (h : Shallow level rest)
    (next : Listing) : Shallow (level + 1) (next.rows level ++ rest) := by
  intro r hr
  cases next with
  | done => exact Nat.lt_succ_of_lt (h r hr)
  | item =>
      obtain rfl := Option.some.inj hr
      exact Nat.lt_succ_self level

/-- **Depths tell what stands below what.** -/
theorem Listing.rows_append_inj {l m : Listing} {level : Nat} {rest rest' : List Row}
    (hr : Shallow level rest) (hr' : Shallow level rest')
    (h : l.rows level ++ rest = m.rows level ++ rest') : l = m ∧ rest = rest' := by
  induction l generalizing m level rest rest' with
  | done =>
      cases m with
      | done => exact ⟨rfl, h⟩
      | item line below next => exact absurd h (hr.ne_rows_item line below next)
  | item line below next ihb ihn =>
      cases m with
      | done => exact absurd h.symm (hr'.ne_rows_item line below next)
      | item line' below' next' =>
          rw [rows, rows, List.cons_append, List.cons_append, List.append_assoc,
            List.append_assoc] at h
          obtain ⟨hrow, hbelow⟩ := List.cons.inj h
          obtain ⟨rfl, hnext⟩ := ihb (hr.rows_append next) (hr'.rows_append next') hbelow
          obtain ⟨rfl, hrest⟩ := ihn hr hr' hnext
          rw [(Row.mk.inj hrow).2]
          exact ⟨rfl, hrest⟩

/-! ### Reading rows -/

/-- Whether rows can be told from what is written of them. A row that does not end as a kind does
begins without a blank, and one that does has a row below it that begins so. -/
inductive Laid : List Row → Prop
  | nil : Laid []
  | plain {row : Row} {rest : List Row} (h : EndsIn (· ∉ kindEnds) row.text) (hf : Flush row.text)
      (hr : Laid rest) : Laid (row :: rest)
  | heading {row first : Row} {rest : List Row} (h : EndsIn (· ∈ kindEnds) row.text)
      (hlevel : first.level = row.level + 1) (hf : Flush first.text) (hr : Laid (first :: rest)) :
      Laid (row :: first :: rest)

/-- A row whose text ends as it should has no line break. -/
theorem Row.newline_notMem {P : Char → Prop} {r : Row} (h : EndsIn P r.text) : '\n' ∉ r.chars := by
  rw [chars, List.mem_append]
  exact fun hmem => hmem.elim (fun h => absurd (List.eq_of_mem_replicate h) (by decide)) h.line

/-- A row ends as its text does. -/
theorem Row.getLast?_chars {P : Char → Prop} {r : Row} (h : EndsIn P r.text) :
    ∃ c ∈ r.chars.getLast?, P c := by
  obtain ⟨c, hc, hp⟩ := h.last
  refine ⟨c, ?_, hp⟩
  rw [chars, List.getLast?_append, Option.mem_def.mp hc]
  rfl

/-- Rows at the same depth are told apart. -/
theorem Row.eq_of_level_eq {r r' : Row} (hlevel : r.level = r'.level) (h : r.chars = r'.chars) :
    r = r' := by
  obtain ⟨level, text⟩ := r
  obtain ⟨level', text'⟩ := r'
  obtain rfl : level = level' := hlevel
  rw [show text = text' from String.toList_inj.mp (List.append_cancel_left h)]

/-- What begins without a blank tells the blanks in front of it. -/
theorem eq_of_replicate_append_eq {t u : String} (ht : Flush t) (hu : Flush u) {n m : Nat}
    (h : List.replicate n ' ' ++ t.toList = List.replicate m ' ' ++ u.toList) : n = m := by
  have not_blank {t : String} (ht : Flush t) (cs : List Char) : t.toList ≠ ' ' :: cs := by
    obtain ⟨c, cs', htext, hc⟩ := flush_iff.mp ht
    rw [htext]
    exact fun h => hc (List.cons.inj h).1
  induction n generalizing m with
  | zero =>
      cases m with
      | zero => rfl
      | succ m => exact absurd h (not_blank ht _)
  | succ n ih =>
      cases m with
      | zero => exact absurd h.symm (not_blank hu _)
      | succ m => rw [ih (List.cons.inj h).2]

/-- Rows that do not begin with a blank are told apart. -/
theorem Row.eq_of_flush {r r' : Row} (hr : Flush r.text) (hr' : Flush r'.text)
    (h : r.chars = r'.chars) : r = r' := by
  have hlevel := eq_of_replicate_append_eq hr hr' h
  exact eq_of_level_eq (by omega) h

/-- Rows do not end in two ways. -/
theorem Row.not_endsIn_both {r r' : Row} (h : EndsIn (· ∈ kindEnds) r.text)
    (h' : EndsIn (· ∉ kindEnds) r'.text) : r.chars ≠ r'.chars := by
  intro heq
  obtain ⟨c, hc, hmem⟩ := getLast?_chars h
  obtain ⟨d, hd, hnot⟩ := getLast?_chars h'
  rw [heq, Option.mem_def.mp hd] at hc
  obtain rfl := Option.some.inj hc
  exact hnot hmem

/-- What is written of the first row is told apart from the rest. -/
theorem written_cons_inj {P Q : Char → Prop} {r r' : Row} {rows rows' : List Row}
    (hr : EndsIn P r.text) (hr' : EndsIn Q r'.text)
    (h : written (r :: rows) = written (r' :: rows')) :
    r.chars = r'.chars ∧ written rows = written rows' := by
  rw [written_cons, written_cons] at h
  exact Text.eq_of_append_cons_eq (Row.newline_notMem hr) (Row.newline_notMem hr') h

/-- A row leaves something to be read. -/
theorem written_cons_ne_nil (r : Row) (rows : List Row) : written (r :: rows) ≠ written [] := by
  rw [written_cons]
  exact List.append_ne_nil_of_right_ne_nil _ (List.cons_ne_nil _ _)

/-- **Rows are read back from what is written of them.** -/
theorem Laid.eq_of_written_eq {rows rows' : List Row} (h : Laid rows) (h' : Laid rows')
    (hw : written rows = written rows') : rows = rows' := by
  induction h generalizing rows' with
  | nil =>
      cases h' with
      | nil => rfl
      | plain | heading => exact absurd hw.symm (written_cons_ne_nil _ _)
  | @plain row rest h hf _ ih =>
      cases h' with
      | nil => exact absurd hw (written_cons_ne_nil _ _)
      | plain g gf gr =>
          obtain ⟨hchars, hrest⟩ := written_cons_inj h g hw
          rw [Row.eq_of_flush hf gf hchars, ih gr hrest]
      | heading g => exact absurd (written_cons_inj h g hw).1.symm (Row.not_endsIn_both g h)
  | @heading row first rest h hlevel hf _ ih =>
      cases h' with
      | nil => exact absurd hw (written_cons_ne_nil _ _)
      | plain g => exact absurd (written_cons_inj h g hw).1 (Row.not_endsIn_both h g)
      | @heading row' first' rest' g glevel gf gr =>
          -- the blanks in front of it may be its own: the row below it tells how deep it stands
          obtain ⟨hchars, hrest⟩ := written_cons_inj h g hw
          have hbelow := ih gr hrest
          have hrow : row.level + 1 = row'.level + 1 := by
            rw [← hlevel, (List.cons.inj hbelow).1, glevel]
          rw [Row.eq_of_level_eq (Nat.succ.inj hrow) hchars, hbelow]

/-! ### Listings that can be read -/

/-- Whether the rows of a listing can be read. -/
inductive Listing.Neat : Listing → Prop
  | done : Neat done
  | plain {line : String} {below next : Listing} (h : EndsIn (· ∉ kindEnds) line)
      (hf : Flush line) (hb : below.Neat) (hn : next.Neat) : Neat (item line below next)
  | heading {line first : String} {below after next : Listing} (h : EndsIn (· ∈ kindEnds) line)
      (hf : Flush first) (hb : (item first below after).Neat) (hn : next.Neat) :
      Neat (item line (item first below after) next)

namespace Listing

/-- The rows of a neat listing are laid out, whatever rows come behind. -/
theorem Neat.laid {l : Listing} (h : l.Neat) {level : Nat} {rest : List Row} (hr : Laid rest) :
    Laid (l.rows level ++ rest) := by
  induction h generalizing level rest with
  | done => exact hr
  | plain h hf _ _ ihb ihn =>
      rw [rows, List.cons_append, List.append_assoc]
      exact .plain h hf (ihb (ihn hr))
  | heading h hf _ _ ihb ihn =>
      rw [rows, List.cons_append, List.append_assoc]
      exact .heading h rfl hf (ihb (ihn hr))

/-- **A listing is read back from its text.** -/
theorem Neat.eq_of_text_eq {l m : Listing} (hl : l.Neat) (hm : m.Neat) {level : Nat}
    (h : l.text ⟨"  ", level⟩ = m.text ⟨"  ", level⟩) : l = m := by
  have hnil : Shallow level [] := fun _ h => by cases h
  have hwritten := congrArg String.toList h
  rw [toList_text, toList_text, ← List.append_nil (l.rows level),
    ← List.append_nil (m.rows level)] at hwritten
  exact (rows_append_inj hnil hnil
    ((hl.laid .nil).eq_of_written_eq (hm.laid .nil) hwritten)).1

end Listing

/-! ### Texts of plain parts -/

/-- Whether a text stands on one line, and does not end as a kind does. -/
abbrev Settled (t : String) : Prop := EndsIn (· ∉ kindEnds) t

/-- A quoted text ends with its mark. -/
theorem settled_quote (x : String) : Settled (quote x) := by
  have hmark : ∀ c, Text.IsMark c → c ∉ kindEnds := by
    rintro c (rfl | rfl) <;> decide
  refine ⟨?_, quoteMark x.toList, ?_, hmark _ (isMark_quoteMark _)⟩
  · rw [toList_quote]
    exact Text.newline_notMem_quoteChars _
  · rw [toList_quote, quoteChars, List.getLast?_append]
    rfl

/-- So does a name, unless it is missing. -/
theorem settled_nameText? (x : Option String) : Settled (nameText? x) := by
  cases x with
  | none => exact ⟨by decide, 'e', rfl, by decide⟩
  | some x => exact settled_quote x

/-- A truth value is one of two words. -/
theorem settled_flagText (b : Bool) : Settled (flagText b) := by
  cases b <;> exact ⟨by decide, 'e', rfl, by decide⟩

/-- Names stand between parentheses. -/
theorem settled_namesText (xs : List String) : Settled (namesText xs) := by
  cases xs with
  | nil => exact ⟨by decide, ')', rfl, by decide⟩
  | cons x xs =>
      refine ⟨?_, ')', ?_, by decide⟩
      · rw [toList_namesText_cons, List.mem_cons, List.mem_append]
        rintro (h | h | h)
        · exact absurd h (by decide)
        · exact Text.newline_notMem_quoteChars _ h
        · exact newline_notMem_namesRest xs h
      · rw [toList_namesText_cons, ← List.cons_append, List.getLast?_append, getLast?_namesRest]
        rfl

/-- A numeral consists of digits. -/
theorem settled_natRepr (k : Nat) : Settled k.repr := by
  have hends : (kindEnds.all fun c => !c.isDigit) = true := rfl
  refine ⟨fun h => absurd (Text.isDigit_of_mem_natRepr h) (by decide), _,
    List.getLast?_eq_some_getLast (Text.natRepr_ne_nil k), fun h => ?_⟩
  have hdigit := Text.isDigit_of_mem_natRepr (List.getLast_mem (Text.natRepr_ne_nil k))
  have hnot := List.all_eq_true.mp hends _ h
  rw [hdigit] at hnot
  exact absurd hnot (by decide)

/-- The look of a legible value is settled. -/
theorem settled_look {v : Value} (h : v.Legible) : Settled v.look := by
  cases h with
  | undefined => exact ⟨by decide, 'd', rfl, by decide⟩
  | string => exact settled_quote _
  | integer hk =>
      rw [Value.look_natCast hk]
      exact settled_natRepr _

/-- Whether a text may label a part. -/
def IsLabel (t : String) : Prop := '\n' ∉ t.toList ∧ Flush t

instance (t : String) : Decidable (IsLabel t) := inferInstanceAs (Decidable (_ ∧ _))

/-- A kind ends in one of a few letters. -/
theorem Node.endsIn_kind (n : Node) : EndsIn (· ∈ kindEnds) n.kind := by
  have hkinds : ∀ k ∈ kinds, '\n' ∉ k.toList ∧ (k.toList.getLast?.any (· ∈ kindEnds)) = true := by
    decide
  obtain ⟨hline, hlast⟩ := hkinds _ n.kind_mem_kinds
  obtain ⟨c, hc, hend⟩ := (Option.any_eq_true _ _).mp hlast
  exact ⟨hline, c, hc, of_decide_eq_true hend⟩

/-! ### Nodes have listings that can be read -/

namespace Listing

/-- A part with a settled text is neat. -/
theorem Neat.part {label text : String} {next : Listing} (hl : IsLabel label) (ht : Settled text)
    (hn : next.Neat) : (part label text next).Neat := by
  have hline : '\n' ∉ (label ++ " = ").toList := by
    rw [String.toList_append, List.mem_append]
    exact fun h => h.elim hl.1 (by decide)
  exact .plain (ht.append hline) ((hl.2.append _).append _) .done hn

/-- So is an opening line with a neat listing below it. -/
theorem Neat.opening {label : String} {below : Listing} (hl : IsLabel label) (hb : below.Neat) :
    (opening label below).Neat := by
  have hends : Settled ":" := ⟨by decide, ':', rfl, by decide⟩
  exact .plain (hends.append hl.1) (hl.2.append _) hb .done

/-- And a group, which may be empty. -/
theorem Neat.group {label : String} {elements : Listing} (hl : IsLabel label)
    (he : elements.Neat) : (group label elements).Neat := by
  cases elements with
  | done => exact .part hl ⟨by decide, ')', rfl, by decide⟩ .done
  | item => exact .opening hl he

/-- A group begins with its label. -/
theorem flush_group {label : String} (h : Flush label) (elements : Listing) :
    ∃ first below after, Listing.group label elements = item first below after ∧
      Flush first := by
  cases elements with
  | done => exact ⟨_, _, _, rfl, (h.append _).append _⟩
  | item => exact ⟨_, _, _, rfl, h.append _⟩

end Listing

namespace Node

/-- Something stands below every kind, and begins without a blank. -/
theorem exists_parts (n : Node) :
    ∃ first below after, n.parts = item first below after ∧ Flush first := by
  cases n with
  | block => exact Listing.flush_group (by decide) _
  | literal | name | assign | function =>
      exact ⟨_, _, _, rfl, Flush.append (Flush.append (by decide) _) _⟩
  | call | giveBack | branch | record | field | assignField | callMethod =>
      exact ⟨_, _, _, rfl, Flush.append (by decide) _⟩

/-- A node under a label is neat if its parts are. -/
theorem neat_item {n : Node} {label : String} {next : Listing} (hl : '\n' ∉ label.toList)
    (hp : n.parts.Neat) (hn : next.Neat) : (item (label ++ n.kind) n.parts next).Neat := by
  obtain ⟨first, below, after, hparts, hf⟩ := n.exists_parts
  rw [hparts] at hp ⊢
  exact .heading (n.endsIn_kind.append hl) hf hp hn

/-- Whether no key of an object literal is broken over lines. -/
def UnbrokenKeys (n : Node) : Prop :=
  ∀ entries line, n.Contains (.record entries line) → ∀ e ∈ entries, '\n' ∉ e.1.toList

/-- The keys below a node are among its own. -/
theorem UnbrokenKeys.child {n m : Node} (h : n.UnbrokenKeys) (hm : m ∈ n.children) :
    m.UnbrokenKeys :=
  fun entries line he => h entries line (.child hm he)

/-- A node has no broken keys if there are none right in it and none in the nodes below it. -/
theorem unbrokenKeys_of_children {n : Node} (hn : ∀ entries line, n = .record entries line →
    ∀ e ∈ entries, '\n' ∉ e.1.toList) (h : ∀ m ∈ n.children, m.UnbrokenKeys) :
    n.UnbrokenKeys := by
  intro entries line he
  cases he with
  | self => exact hn entries line rfl
  | child hm he => exact h _ hm entries line he

/-- Elements are neat if the parts of each are. -/
theorem neat_elements {ns : List Node} (h : ∀ n ∈ ns, n.parts.Neat) : (elements ns).Neat := by
  induction ns with
  | nil => exact .done
  | cons n ns ih =>
      obtain ⟨hn, hns⟩ := List.forall_mem_cons.mp h
      rw [elements, ← String.empty_append (s := n.kind)]
      exact neat_item (by decide) hn (ih hns)

/-- Entries are neat if the parts of each are, and no key has a line break. -/
theorem neat_entryItems {es : List (String × Node)} (h : ∀ n ∈ es.map Prod.snd, n.parts.Neat)
    (hkeys : ∀ e ∈ es, '\n' ∉ e.1.toList) : (entryItems es).Neat := by
  induction es with
  | nil => exact .done
  | cons e es ih =>
      obtain ⟨hn, hns⟩ := List.forall_mem_cons.mp h
      obtain ⟨hkey, hkeys⟩ := List.forall_mem_cons.mp hkeys
      have hline : '\n' ∉ (e.1 ++ " = ").toList := by
        rw [String.toList_append, List.mem_append]
        exact fun h => h.elim hkey (by decide)
      exact neat_item hline hn (ih hns hkeys)

/-- What stands below a node can be read. -/
theorem neat_parts {n : Node} (h : n.Legible) (hk : n.UnbrokenKeys) : n.parts.Neat := by
  induction n using induction_children with
  | h n ih =>
  have hparts : ∀ m ∈ n.children, m.parts.Neat := fun m hm => ih m hm (h.child hm) (hk.child hm)
  cases n with
  | block statements line => exact .group (by decide) (neat_elements hparts)
  | literal v serial line => exact .part (by decide) (settled_look (h v serial line .self).2) .done
  | name x line => exact .part (by decide) (settled_quote x) .done
  | call callee arguments line =>
      obtain ⟨hcallee, harguments⟩ := List.forall_mem_cons.mp hparts
      exact neat_item (by decide) hcallee (.group (by decide) (neat_elements harguments))
  | assign x value declares line =>
      have hvalue := List.forall_mem_singleton.mp hparts
      exact .part (by decide) (settled_quote x) <|
        neat_item (by decide) hvalue (.part (by decide) (settled_flagText declares) .done)
  | function x parameters body line =>
      have hbody := List.forall_mem_singleton.mp hparts
      exact .part (by decide) (settled_nameText? x) <|
        .part (by decide) (settled_namesText parameters) (neat_item (by decide) hbody .done)
  | giveBack value line =>
      have hvalue := List.forall_mem_singleton.mp hparts
      exact neat_item (by decide) hvalue .done
  | branch condition consequence alternative line =>
      obtain ⟨hcondition, hparts⟩ := List.forall_mem_cons.mp hparts
      obtain ⟨hconsequence, hparts⟩ := List.forall_mem_cons.mp hparts
      have halternative := List.forall_mem_singleton.mp hparts
      exact neat_item (by decide) hcondition <| neat_item (by decide) hconsequence <|
        neat_item (by decide) halternative .done
  | record entries line =>
      exact .opening (by decide) (neat_entryItems hparts (hk entries line .self))
  | field receiver x line =>
      have hreceiver := List.forall_mem_singleton.mp hparts
      exact neat_item (by decide) hreceiver (.part (by decide) (settled_quote x) .done)
  | assignField receiver x value line =>
      obtain ⟨hreceiver, hparts⟩ := List.forall_mem_cons.mp hparts
      have hvalue := List.forall_mem_singleton.mp hparts
      exact neat_item (by decide) hreceiver <| .part (by decide) (settled_quote x) <|
        neat_item (by decide) hvalue .done
  | callMethod receiver x arguments line =>
      obtain ⟨hreceiver, harguments⟩ := List.forall_mem_cons.mp hparts
      exact neat_item (by decide) hreceiver <| .part (by decide) (settled_quote x) <|
        .group (by decide) (neat_elements harguments)

end Node

end Scriptlet
