import Scriptlet.Proofs.Appearance
import Scriptlet.Proofs.Inversion

/-!
# Evaluations in Other Places

What an evaluation does in one session, it does in any other to which that is carried over: it ends
alike, and leaves the session that the first one leaves, carried over. Where lines are not kept,
this needs a tidy program, and no value that is handed over is a node then.

## Main definitions

* `Carrier.Carries`: one evaluation does elsewhere what another one does here.

## Main results

* `Carrier.Carries.bind`: one evaluation after another.
* `Carrier.Carries.tryCatch`: exits that are caught.
-/

namespace Scriptlet

/-! ### Stores without nodes -/

namespace Store

variable {s : Store}

/-- A new object without entries that can give no node back. -/
theorem Nodeless.add (h : s.Nodeless) {o : Object} (he : o.entries = [])
    (hc : ∀ parameters body home, o.action = some (.closure parameters body home) →
      body.Tidy false)
    (hv : ∀ v, o.action = some (.constant v) → v.Nodeless) : (s.add o).Nodeless where
  entries := by
    intro r o' ho'
    rcases object?_add_eq_some ho' with ho | ⟨-, rfl⟩
    · exact h.entries r o' ho
    · rw [he]
      exact List.forall_mem_nil _
  closure := by
    intro r parameters body home ha
    rcases action?_add_eq_some ha with ha | ⟨-, ha⟩
    · exact h.closure r parameters body home ha
    · exact hc parameters body home ha
  constant := by
    intro r v ha
    rcases action?_add_eq_some ha with ha | ⟨-, ha⟩
    · exact h.constant r v ha
    · exact hv v ha

/-- A new frame, or a new record. -/
theorem Nodeless.add_passive (h : s.Nodeless) {o : Object} (he : o.entries = [])
    (ha : o.action = none) : (s.add o).Nodeless := by
  refine h.add he ?_ ?_
  · intro _ _ _ hc
    rw [ha] at hc
    cases hc
  · intro _ hv
    rw [ha] at hv
    cases hv

/-- Setting a name to something that is no node brings no node into a store. -/
theorem Nodeless.put (h : s.Nodeless) (r : Ref) (name : String) {v : Value} (hv : v.Nodeless) :
    (s.put r name v).Nodeless where
  entries := by
    intro q o' ho'
    obtain ⟨o, ho, rfl | ⟨-, rfl⟩⟩ := object?_put_eq_some ho'
    · exact h.entries q o' ho
    · intro e he
      rcases Entries.exists_mem_of_mem_put he with he | rfl
      · exact h.entries q o ho e he
      · exact hv
  closure := by
    intro q parameters body home ha
    rw [action?_put] at ha
    exact h.closure q parameters body home ha
  constant := by
    intro q w ha
    rw [action?_put] at ha
    exact h.constant q w ha

/-- Nor does setting some names. -/
theorem Nodeless.putAll (h : s.Nodeless) (r : Ref) {pairs : List (String × Value)}
    (hv : ∀ p ∈ pairs, p.2.Nodeless) : (s.putAll r pairs).Nodeless := by
  induction pairs generalizing s with
  | nil => exact h
  | cons p rest ih =>
      obtain ⟨hp, hrest⟩ := List.forall_mem_cons.mp hv
      exact ih (h.put r p.1 hp) hrest

/-- A name never reads as a node. -/
theorem Nodeless.read (h : s.Nodeless) (r : Ref) (name : String) : (s.read r name).Nodeless := by
  rw [Store.read]
  cases hv : (s.chain r).findSome? fun o => s.own? o name with
  | none => exact Value.Plain.nodeless trivial
  | some v =>
      obtain ⟨q, -, hq⟩ := List.exists_of_findSome?_eq_some hv
      obtain ⟨o, ho, hlookup⟩ := Option.bind_eq_some_iff.mp hq
      obtain ⟨before, after, hentries, -⟩ := List.lookup_eq_some_iff.mp hlookup
      exact h.entries q o ho (name, v) (by simp [hentries])

/-- There is no node in an empty store. -/
theorem nodeless_empty : empty.Nodeless := ⟨nofun, nofun, nofun⟩

/-- There is none in a global frame. -/
theorem Nodeless.addGlobal (h : s.Nodeless) : s.addGlobal.Nodeless := by
  have hadd {t : Store} (ht : t.Nodeless) (b : Builtin) :
      (t.add (.function b.name (.builtin b))).Nodeless := by
    refine ht.add rfl ?_ ?_
    · rintro _ _ _ ⟨⟩
    · rintro _ ⟨⟩
  have hframe : (s.add (.frame none)).Nodeless := h.add_passive rfl rfl
  exact List.foldlRecOn (motive := Nodeless) _ _ (hframe.put _ _ (Value.nodeless_object _))
    fun t ht b _ => (hadd ht b).put _ _ (Value.nodeless_object _)

end Store

namespace Carrier

/-! ### Carrying over -/

/-- The outcome of an evaluation, carried over; `f` does so with its result. -/
def outcome {α β : Type} (c : Carrier) (f : α → β) :
    Except Exit α × Session → Except Exit β × Session
  | (.ok a, t) => (.ok (f a), c.session t)
  | (.error x, t) => (.error (c.exit x), c.session t)

/-- Where lines are kept a mistake gets the same line as here, and otherwise none. -/
theorem exit_onLine (c : Carrier) (line : Int) (x : Exit) :
    c.exit (x.onLine line) = (c.exit x).onLine (c.line line) := by
  cases x with
  | mistake m l => cases hk : c.keeps <;> cases l <;> simp [exit, Exit.onLine, Carrier.line, hk]
  | returned | fault | tooDeep => rfl

/-- Whether `e'` does elsewhere what `e` does in a session with a sealed store, and the results of
`e` have the property `P`. -/
structure Carries {α β : Type} (c : Carrier) (g : Ref) (s : Session) (e : Eval α) (f : α → β)
    (e' : Eval β) (P : Store → α → Prop) : Prop where
  seals : e.Seals g s P
  run : e'.runIn (c.session s) = c.outcome f (e.runIn s)
  fits : c.Fits (e.runIn s).2.store
  exit : ∀ v, (e.runIn s).1 = .error (.returned v) → c.Takes v

namespace Carries

variable {α β γ δ : Type} {c : Carrier} {g : Ref} {s t : Session} {e : Eval α} {f : α → β}
  {e' : Eval β} {P : Store → α → Prop} {k : γ → δ} {Q : Store → γ → Prop}
  {R : Store → Value → Prop}

/-- What holds after an evaluation that has a result. -/
theorem of_ok (h : c.Carries g s e f e' P) {a : α} (he : e.runIn s = (.ok a, t)) :
    e'.runIn (c.session s) = (.ok (f a), c.session t) ∧ c.Fits t.store := by
  obtain ⟨-, hrun, hfits, -⟩ := h
  rw [he] at hrun hfits
  exact ⟨hrun, hfits⟩

/-- An evaluation that goes on, here and there, as others do from later sessions. -/
theorem of_runIn_eq {d : Eval α} {d' : Eval β} (h : c.Carries g t d f d' P)
    (he : e.runIn s = d.runIn t) (he' : e'.runIn (c.session s) = d'.runIn (c.session t))
    (hg : s.store.Grows t.store) : c.Carries g s e f e' P := by
  obtain ⟨hseals, hrun, hfits, hexit⟩ := h
  refine ⟨hseals.of_runIn_eq he hg, ?_, ?_, ?_⟩
  · rw [he', he]
    exact hrun
  · rw [he]
    exact hfits
  · rw [he]
    exact hexit

/-- What is known of the result may be less. -/
theorem imp {R : Store → α → Prop} (h : c.Carries g s e f e' P)
    (hPR : ∀ t a, s.store.Grows t → P t a → R t a) : c.Carries g s e f e' R :=
  ⟨h.seals.imp hPR, h.run, h.fits, h.exit⟩

/-! #### Steps -/

/-- A value that is known before. -/
theorem pure (hs : s.store.Sealed g) (hf : c.Fits s.store) {a : α} (ha : P s.store a) :
    c.Carries g s (Pure.pure a) f (Pure.pure (f a)) P :=
  ⟨.pure hs ha, rfl, hf, nofun⟩

/-- An exit is carried over with the value that a `return` may have. -/
theorem throw (hs : s.store.Sealed g) (hf : c.Fits s.store) {x : Exit}
    (hx : ∀ v, x = .returned v → s.store.Public v ∧ c.Takes v) :
    c.Carries g s (MonadExcept.throw x) f (MonadExcept.throw (c.exit x)) P where
  seals := .throw hs fun v hv => (hx v hv).1
  run := rfl
  fits := hf
  exit := fun v hv => (hx v (Except.error.inj hv)).2

/-- A mistake has no line yet, so it stays the same. -/
theorem mistake (hs : s.store.Sealed g) (hf : c.Fits s.store) (m : Mistake) :
    c.Carries g s (Eval.mistake m) f (Eval.mistake m) P := by
  have hexit : c.exit (.mistake m none) = .mistake m none := congrArg (Exit.mistake m) (ite_self _)
  have hthrow : c.Carries g s (MonadExcept.throw (.mistake m none)) f _ P := throw hs hf nofun
  rw [hexit] at hthrow
  exact hthrow

/-- A fault stays the same. -/
theorem fault (hs : s.store.Sealed g) (hf : c.Fits s.store) (x : Fault) :
    c.Carries g s (Eval.fault x) f (Eval.fault x) P :=
  throw (x := .fault x) hs hf nofun

/-- Reading a name. -/
theorem read (hs : s.store.Sealed g) (hf : c.Fits s.store) {r : Ref} (hr : r.index < s.store.size)
    (name : String) :
    c.Carries g s (Eval.read r name) c.value (Eval.read (c.ref r) name)
      fun t v => t.Public v ∧ c.Takes v := by
  have hread : c.Carries g s (Pure.pure (s.store.read r name)) c.value
      (Pure.pure (c.value (s.store.read r name))) fun t v => t.Public v ∧ c.Takes v :=
    pure hs hf ⟨hs.public_read r name, fun hk => (hf hk).read r name⟩
  refine hread.of_runIn_eq rfl ?_ (.refl _)
  rw [Eval.runIn_read, Eval.runIn_pure, ← c.read_store hs hr]
  rfl

/-- Setting a name. -/
theorem put (hs : s.store.Sealed g) (hf : c.Fits s.store) (r : Ref) (name : String) {v : Value}
    (hv : s.store.Public v) (ht : c.Takes v) :
    c.Carries g s (Eval.put r name v) id (Eval.put (c.ref r) name (c.value v))
      fun _ _ => True where
  seals := .put hs r name hv
  run := congrArg (Prod.mk (Except.ok ())) (c.session_put s r name v).symm
  fits := fun hk => (hf hk).put r name (ht hk)
  exit := nofun

/-- Looking at the objects. -/
theorem store_bind {k : Store → Eval α} {k' : Store → Eval β}
    (h : c.Carries g s (k s.store) f (k' (c.store s.store)) P) :
    c.Carries g s (Eval.store >>= k) f (Eval.store >>= k') P :=
  h.of_runIn_eq (Eval.runIn_bind_of_ok (Eval.runIn_store s) k)
    (Eval.runIn_bind_of_ok (Eval.runIn_store _) k') (.refl _)

/-! #### Sequences -/

/-- One evaluation after another. -/
theorem bind {l : α → Eval γ} {l' : β → Eval δ} (he : c.Carries g s e f e' P)
    (hl : ∀ a t, e.runIn s = (.ok a, t) → s.store.Grows t.store → t.store.Sealed g →
      c.Fits t.store → P t.store a → c.Carries g t (l a) k (l' (f a)) Q) :
    c.Carries g s (e >>= l) k (e' >>= l') Q := by
  rcases hr : e.runIn s with ⟨x | a, t⟩
  · have hrun : (e >>= l).runIn s = (.error x, t) := by
      rw [Eval.runIn_bind, hr]
    have hrun' : (e' >>= l').runIn (c.session s) = (.error (c.exit x), c.session t) := by
      rw [Eval.runIn_bind, he.run, hr]
      rfl
    obtain ⟨⟨hgrows, hsealed, -, hpublic⟩, -, hfits, hexit⟩ := he
    rw [hr] at hgrows hsealed hpublic hfits hexit
    have hthrow : c.Carries g t (MonadExcept.throw x) k (MonadExcept.throw (c.exit x)) Q :=
      throw hsealed hfits fun v hv => ⟨hpublic v (by rw [hv]), hexit v (by rw [hv])⟩
    exact hthrow.of_runIn_eq hrun hrun' hgrows
  · obtain ⟨hrun, hfits⟩ := he.of_ok hr
    obtain ⟨hgrows, hsealed, ha⟩ := he.seals.of_ok hr
    exact (hl a t hr hgrows hsealed hfits ha).of_runIn_eq (Eval.runIn_bind_of_ok hr l)
      (Eval.runIn_bind_of_ok hrun l') hgrows

/-- A result that is thrown away. -/
theorem discard (he : c.Carries g s e f e' P) :
    c.Carries g s (discard e) id (discard e') fun _ _ => True :=
  he.bind fun _ _ _ _ ht hf _ => pure ht hf trivial

/-- A row of evaluations, whose results stay what they are. -/
theorem mapM {l : α → Eval γ} {l' : β → Eval δ}
    (hQ : ∀ t u b, t.Grows u → Q t b → Q u b) {as : List α} (hs : s.store.Sealed g)
    (hf : c.Fits s.store)
    (hl : ∀ a ∈ as, ∀ t, s.store.Grows t.store → t.store.Sealed g → c.Fits t.store →
      c.Carries g t (l a) k (l' (f a)) Q) :
    c.Carries g s (as.mapM l) (List.map k) ((as.map f).mapM l') fun t bs => ∀ b ∈ bs, Q t b := by
  induction as generalizing s with
  | nil => exact pure hs hf nofun
  | cons a rest ih =>
      rw [List.map_cons, List.mapM_cons, List.mapM_cons]
      refine (hl a List.mem_cons_self s (.refl _) hs hf).bind fun b t _ hst ht hft hb => ?_
      have hrest := ih ht hft fun a' ha' u htu hu =>
        hl a' (List.mem_cons_of_mem _ ha') u (hst.trans htu) hu
      refine hrest.bind fun bs u _ htu hu hfu hbs => pure hu hfu fun b' hb' => ?_
      rcases List.mem_cons.mp hb' with rfl | hb'
      · exact hQ t.store u.store b' htu hb
      · exact hbs b' hb'

/-- A row of evaluations, each of which is carried over from the session in which it begins. -/
theorem forM {l : α → Eval Unit} {l' : β → Eval Unit} {as : List α} (hs : s.store.Sealed g)
    (hf : c.Fits s.store)
    (hl : ∀ a ∈ as, ∀ t, s.store.Grows t.store → t.store.Sealed g → c.Fits t.store →
      c.Carries g t (l a) id (l' (f a)) fun _ _ => True) :
    c.Carries g s (as.forM l) id ((as.map f).forM l') fun _ _ => True := by
  induction as generalizing s with
  | nil => exact pure hs hf trivial
  | cons a rest ih =>
      show c.Carries g s (l a >>= fun _ => rest.forM l) id
        (l' (f a) >>= fun _ => (rest.map f).forM l') _
      refine (hl a List.mem_cons_self s (.refl _) hs hf).bind fun _ t _ hst ht hft _ => ?_
      exact ih ht hft fun a' ha' u htu hu =>
        hl a' (List.mem_cons_of_mem _ ha') u (hst.trans htu) hu

/-! #### Exits that are caught -/

/-- An exit that is caught. -/
theorem tryCatch {handler handler' : Exit → Eval α} {f : α → α} {e' : Eval α}
    (he : c.Carries g s e f e' P)
    (hx : ∀ x t, s.store.Grows t.store → t.store.Sealed g → c.Fits t.store →
      (∀ v, x = .returned v → t.store.Public v ∧ c.Takes v) →
        c.Carries g t (handler x) f (handler' (c.exit x)) P) :
    c.Carries g s (MonadExcept.tryCatch e handler) f (MonadExcept.tryCatch e' handler') P := by
  have hrun := Eval.runIn_tryCatch e handler s
  have hrun' := Eval.runIn_tryCatch e' handler' (c.session s)
  rcases hr : e.runIn s with ⟨x | a, t⟩
  · rw [he.run, hr] at hrun'
    rw [hr] at hrun
    obtain ⟨⟨hgrows, hsealed, -, hpublic⟩, -, hfits, hexit⟩ := he
    rw [hr] at hgrows hsealed hpublic hfits hexit
    have hhandler := hx x t hgrows hsealed hfits fun v hv =>
      ⟨hpublic v (by rw [hv]), hexit v (by rw [hv])⟩
    exact hhandler.of_runIn_eq hrun hrun' hgrows
  · rw [he.run, hr] at hrun'
    rw [hr] at hrun
    obtain ⟨-, hfits⟩ := he.of_ok hr
    obtain ⟨hgrows, hsealed, ha⟩ := he.seals.of_ok hr
    exact (pure hsealed hfits ha).of_runIn_eq hrun hrun' hgrows

/-- A mistake that gets a line gets the line that is left of it. -/
theorem onLine {f : α → α} {e' : Eval α} (h : c.Carries g s e f e' P) (line : Int) :
    c.Carries g s (Eval.onLine line e) f (Eval.onLine (c.line line) e') P := by
  rw [Eval.onLine_eq, Eval.onLine_eq]
  refine h.tryCatch fun x t _ ht hf hx => ?_
  rw [← c.exit_onLine]
  exact throw ht hf fun v hv => hx v (Exit.eq_of_onLine_eq_returned hv)

/-- The value of a `return` is carried over as the result. -/
theorem catchReturn {e e' : Eval Value}
    (h : c.Carries g s e c.value e' fun t v => t.Public v ∧ c.Takes v) :
    c.Carries g s (Eval.catchReturn e) c.value (Eval.catchReturn e')
      fun t v => t.Public v ∧ c.Takes v := by
  refine h.tryCatch fun x t _ ht hf hx => ?_
  cases x with
  | returned v => exact pure ht hf (hx v rfl)
  | mistake m l => exact throw (x := .mistake m l) ht hf nofun
  | fault f => exact throw (x := .fault f) ht hf nofun
  | tooDeep => exact throw (x := .tooDeep) ht hf nofun

/-- A program that is left by a `return`. -/
theorem refuseReturn {e e' : Eval Value} (h : c.Carries g s e c.value e' R) :
    c.Carries g s (Eval.refuseReturn e) c.value (Eval.refuseReturn e') R := by
  refine h.tryCatch fun x t _ ht hf hx => ?_
  cases x with
  | returned v => exact .mistake ht hf _
  | mistake m l => exact throw (x := .mistake m l) ht hf nofun
  | fault f => exact throw (x := .fault f) ht hf nofun
  | tooDeep => exact throw (x := .tooDeep) ht hf nofun

end Carries

end Carrier

end Scriptlet
