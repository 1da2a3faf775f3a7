import Scriptlet.CommandLine.Arguments

/-!
# One Switch More

The switch for a trace may stand anywhere among the arguments, as long as it is a switch there:
not behind the argument `--`, and not where another switch takes its value. Then it asks for a
trace, and for nothing else.

The arguments are read from the left, so the two command lines are read alike up to the switch.
What a switch takes of the arguments behind it is all that reaches over that place
(`settings_appetite`).

## Main definitions

* `traceSwitch`: the argument.
* `Invocation.traced`: the same, with a trace.
* `Appetite`: what a switch takes of the arguments behind it.
* `Requested`: two command lines of which one has the switch put in.

## Main results

* `classify_append`: the arguments in front of the separator are classified one by one.
* `request_of_traceSwitch`: what a command line asks for, with the switch put in.
-/

namespace Scriptlet.CommandLine

/-- The argument that asks for a trace. -/
def traceSwitch : Argument := ⟨"--trace", .switch .trace false none⟩

/-! ### Kinds of arguments -/

/-- The switch for a trace is known in full. -/
theorem kindOf_trace : kindOf "--trace" = .ok traceSwitch.kind := by rfl

/-- No candidate for a switch is the separator. -/
theorem ne_separator_of_mem_candidates {cs : List Char} {name : String} {kind : Kind}
    (h : (name, kind) ∈ candidates cs) : kind ≠ .separator := by
  unfold candidates at h
  split at h
  · obtain ⟨entry, -, he⟩ := List.mem_map.mp h
    rw [← (Prod.mk.inj he).2]
    nofun
  · obtain ⟨s, -, he⟩ := List.mem_map.mp h
    rw [← (Prod.mk.inj he).2]
    nofun
  · exact absurd h List.not_mem_nil

/-- No argument but `--` is the separator. -/
theorem ne_separator_of_kindOf {text : String} {kind : Kind} (h : kindOf text = .ok kind)
    (ht : text ≠ "--") : kind ≠ .separator := by
  unfold kindOf at h
  split at h
  next rest _ =>
    rw [if_neg ht] at h
    split at h
    · cases h
      nofun
    dsimp only at h
    split at h
    · cases h
      nofun
    · cases h
      nofun
    split at h
    next name k hcandidates =>
      cases h
      have hmem : (name, kind) ∈ candidates text.toList :=
        hcandidates ▸ List.mem_singleton_self _
      exact ne_separator_of_mem_candidates hmem
    next =>
      split at h <;> cases h <;> nofun
    next => cases h
  next =>
    cases h
    nofun

/-- An argument that is not the separator is classified by itself. -/
theorem classify_cons {text : String} {rest : List String} {as : List Argument}
    (ht : text ≠ "--") : classify (text :: rest) = .ok as ↔ ∃ kind, kindOf text = .ok kind ∧
      ∃ bs, classify rest = .ok bs ∧ as = ⟨text, kind⟩ :: bs := by
  rw [classify]
  cases hkind : kindOf text with
  | error m => exact ⟨nofun, fun ⟨_, h, _⟩ => nomatch h⟩
  | ok kind =>
      have hbehind : (do return ⟨text, kind⟩ :: (← classify rest)) = Except.ok as ↔
          ∃ bs, classify rest = .ok bs ∧ as = ⟨text, kind⟩ :: bs := by
        cases classify rest with
        | error m => exact ⟨nofun, fun ⟨_, h, _⟩ => nomatch h⟩
        | ok bs =>
            refine ⟨fun h => ⟨bs, rfl, (Except.ok.inj h).symm⟩, fun ⟨_, h, has⟩ => ?_⟩
            cases h
            exact congrArg Except.ok has.symm
      have hkind : kind ≠ .separator := ne_separator_of_kindOf hkind ht
      cases kind with
      | separator => exact absurd rfl hkind
      | plain | switch | unknown =>
          refine hbehind.trans ⟨fun h => ⟨_, rfl, h⟩, fun ⟨_, h, hbs⟩ => ?_⟩
          cases h
          exact hbs

/-- Arguments that do not hold the separator are classified one by one, and those behind them as
if they came first. -/
theorem classify_append {pre post : List String} {as : List Argument} (hpre : "--" ∉ pre) :
    classify (pre ++ post) = .ok as ↔ ∃ before, classify pre = .ok before ∧
      ∃ after, classify post = .ok after ∧ as = before ++ after := by
  induction pre generalizing as with
  | nil =>
      refine ⟨fun h => ⟨[], rfl, as, h, rfl⟩, fun ⟨before, h, after, hafter, has⟩ => ?_⟩
      cases h
      rw [has]
      exact hafter
  | cons text pre ih =>
      have htext : text ≠ "--" := (List.ne_of_not_mem_cons hpre).symm
      have hpre := List.not_mem_of_not_mem_cons hpre
      constructor
      · intro h
        obtain ⟨kind, hkind, bs, hbs, rfl⟩ := (classify_cons htext).mp h
        obtain ⟨before, hbefore, after, hafter, rfl⟩ := (ih hpre).mp hbs
        exact ⟨_, (classify_cons htext).mpr ⟨kind, hkind, before, hbefore, rfl⟩, after, hafter, rfl⟩
      · rintro ⟨before', h, after, hafter, rfl⟩
        obtain ⟨kind, hkind, before, hbefore, rfl⟩ := (classify_cons htext).mp h
        exact (classify_cons htext).mpr
          ⟨kind, hkind, before ++ after, (ih hpre).mpr ⟨before, hbefore, after, hafter, rfl⟩, rfl⟩

/-- Among arguments without the separator none is classified as one. -/
theorem ne_separator_of_classify {pre : List String} {before : List Argument} (hpre : "--" ∉ pre)
    (h : classify pre = .ok before) : ∀ a ∈ before, a.kind ≠ .separator := by
  induction pre generalizing before with
  | nil =>
      cases h
      exact List.forall_mem_nil _
  | cons text pre ih =>
      have htext : text ≠ "--" := (List.ne_of_not_mem_cons hpre).symm
      obtain ⟨kind, hkind, bs, hbs, rfl⟩ := (classify_cons htext).mp h
      exact List.forall_mem_cons.mpr ⟨ne_separator_of_kindOf hkind htext,
        ih (List.not_mem_of_not_mem_cons hpre) hbs⟩

/-! ### What switches take -/

/-- What a switch takes of the arguments behind it: none of them, the first, which must be plain,
or nothing, because it is misused. -/
inductive Appetite (f : List Argument → Except Misuse Settings) : Prop
  /-- It takes none. -/
  | none (set : List (Switch × String)) (h : ∀ next, f next = .ok ⟨set, next⟩)
  /-- It takes the first, as a value. -/
  | first (set : String → List (Switch × String))
      (hplain : ∀ value rest, f (⟨value, .plain⟩ :: rest) = .ok ⟨set value, rest⟩)
      (hother : ∀ next, (∀ value rest, next ≠ ⟨value, .plain⟩ :: rest) → ∃ m, f next = .error m)
  /-- It is misused. -/
  | misuse (m : Misuse) (h : ∀ next, f next = .error m)

/-- A switch takes at most the argument that comes next. -/
theorem bareSwitch_appetite (s : Switch) : Appetite (bareSwitch s) := by
  cases s with
  | grammar =>
      refine .first (fun value => [(.grammar, value)]) (fun _ _ => rfl) fun next hnext =>
        ⟨.missingValue .grammar, ?_⟩
      unfold bareSwitch
      rw [if_pos (show Switch.grammar.takesValue = true from rfl)]
      split
      · exact absurd rfl (hnext _ _)
      · rfl
  | help | outline | trace => exact .none _ fun _ => rfl

/-- It makes no difference to that what was set before. -/
theorem Appetite.after {f : List Argument → Except Misuse Settings} (h : Appetite f)
    (s : Switch) : Appetite fun next => (f next).map (Settings.after s) := by
  cases h with
  | none set h => exact .none ((s, "") :: set) fun next => by rw [h]; rfl
  | first set hplain hother =>
      refine .first (fun value => (s, "") :: set value) (fun value rest => ?_) fun next hnext => ?_
      · rw [hplain]
        rfl
      · obtain ⟨m, hm⟩ := hother next hnext
        exact ⟨m, by rw [hm]; rfl⟩
  | misuse m h => exact .misuse m fun next => by rw [h]; rfl

/-- So does one with something attached, which may be more switches. -/
theorem attachedSwitch_appetite (short : Bool) (s : Switch) (value : List Char) :
    Appetite fun next => attachedSwitch short s next value := by
  induction value generalizing short s with
  | nil =>
      cases s with
      | grammar => exact .none _ fun _ => rfl
      | help | outline | trace => exact .misuse _ fun _ => rfl
  | cons letter value ih =>
      simp only [attachedSwitch]
      split
      · exact .none _ fun _ => rfl
      split
      · exact .misuse _ fun _ => rfl
      split
      · exact (bareSwitch_appetite _).after s
      · exact (ih true _).after s

/-- What a switch takes of the arguments behind it depends on the switch alone. -/
theorem settings_appetite (short : Bool) (s : Switch) (attached : Option (List Char)) :
    Appetite (settings short s attached) := by
  cases attached with
  | none => exact bareSwitch_appetite s
  | some value => exact attachedSwitch_appetite short s value

/-! ### With a trace -/

/-- A request with a trace. -/
def Request.traced (r : Request) : Request := { r with trace := true }

/-- The same, with a trace if it is a request. -/
def Invocation.traced : Invocation → Invocation
  | .request r => .request r.traced
  | other => other

/-- The same progress, with a trace. -/
def Progress.traced (p : Progress) : Progress := { p with trace := true }

/-- The request that is made at the end has the trace that was asked for. -/
theorem Progress.traced_finish (p : Progress) : p.traced.finish = p.finish.traced := by
  rw [finish, finish]
  show (if p.extras.isEmpty then _ else _) = _
  split <;> rfl

/-- A trace that was asked for stays when an option is set. -/
theorem Progress.traced_set (p : Progress) (entry : Switch × String) :
    p.traced.set entry = (p.set entry).map traced := by
  rcases entry with ⟨_ | _ | _ | _, value⟩ <;> rfl

/-- It stays when several are. -/
theorem Progress.foldlM_set_traced (entries : List (Switch × String)) (p : Progress) :
    entries.foldlM set p.traced = (entries.foldlM set p).map traced := by
  induction entries generalizing p with
  | nil => rfl
  | cons entry rest ih =>
      rw [List.foldlM_cons, List.foldlM_cons, traced_set]
      cases p.set entry with
      | none => rfl
      | some q => exact ih q

/-! ### From the left to the right -/

namespace Progress

variable {p : Progress} {text : String} {rest : List Argument}

/-- The source. -/
theorem invocation_plain (hp : p.source = none)
    (hrest : ∀ a ∈ rest.head?, a.kind ≠ .separator) :
    p.invocation (⟨text, .plain⟩ :: rest) = { p with source := some text }.invocation rest := by
  rw [invocation]
  · exact hp
  · rintro text' rest' rfl
    exact hrest _ rfl rfl

/-- The source, and the separator next to it. -/
theorem invocation_plain_separator (hp : p.source = none) {text' : String} :
    p.invocation (⟨text, .plain⟩ :: ⟨text', .separator⟩ :: rest) =
      { p with source := some text }.invocation rest := by
  simp only [invocation, hp]

/-- An argument that comes after the source. -/
theorem invocation_plain_extra {source : String} (hp : p.source = some source) :
    p.invocation (⟨text, .plain⟩ :: rest) =
      { p with extras := text :: p.extras }.invocation rest := by
  conv => lhs; unfold invocation
  simp only [hp]

/-- The separator, away from the source. -/
theorem invocation_separator_extra {source : String} (hp : p.source = some source) :
    p.invocation (⟨text, .separator⟩ :: rest) =
      { p with extras := text :: p.extras }.invocation rest := by
  conv => lhs; unfold invocation
  simp only [hp]

/-- A switch. -/
theorem invocation_switch {s : Switch} {short : Bool} {attached : Option (List Char)}
    {r : Settings} (h : settings short s attached rest = .ok r) :
    p.invocation (⟨text, .switch s short attached⟩ :: rest) =
      match r.set.foldlM set p with
      | none => .help
      | some q => q.invocation r.rest := by
  rw [invocation]
  split
  next m h' => cases h.symm.trans h'
  next r' h' =>
    obtain rfl : r = r' := Except.ok.inj (h.symm.trans h')
    rfl

/-- A switch that is not used well ends the reading. -/
theorem invocation_of_misuse {s : Switch} {short : Bool} {attached : Option (List Char)}
    {m : Misuse} (h : settings short s attached rest = .error m) :
    p.invocation (⟨text, .switch s short attached⟩ :: rest) = .misuse m := by
  rw [invocation]
  split
  next m' h' => rw [Except.error.inj (h.symm.trans h')]
  next r h' => cases h.symm.trans h'

/-- What is asked for with a trace is what is asked for without, and a trace. -/
theorem traced_invocation (p : Progress) (arguments : List Argument) :
    p.traced.invocation arguments = (p.invocation arguments).traced := by
  fun_induction p.invocation arguments with
  | case1 p => simpa only [invocation] using p.traced_finish
  | case2 p text text' rest hp ih => exact (invocation_plain_separator (p := p.traced) hp).trans ih
  | case3 p text rest hrest hp ih =>
      rw [invocation]
      · exact ih
      · exact hp
      · exact hrest
  | case4 p text text' rest hp ih => exact (invocation_plain_extra (p := p.traced) hp).trans ih
  | case5 p text hp => simpa only [invocation, traced, hp] using p.traced_finish
  | case6 p text a rest hp ih =>
      rw [invocation]
      · exact ih
      · exact hp
  | case7 p text source rest hp ih =>
      exact (invocation_separator_extra (p := p.traced) hp).trans ih
  | case8 p text rest ih =>
      rw [invocation]
      exact ih
  | case9 p text s short attached next m h => exact invocation_of_misuse h
  | case10 p text s short attached next r h hset =>
      rw [invocation_switch h, foldlM_set_traced, hset]
      rfl
  | case11 p text s short attached next r h q hset hlength ih =>
      rw [invocation_switch h, foldlM_set_traced, hset]
      exact ih

/-- An option that is set is no extra argument. -/
theorem extras_set {p q : Progress} {entry : Switch × String} (h : p.set entry = some q) :
    q.extras = p.extras := by
  rcases entry with ⟨_ | _ | _ | _, value⟩ <;> cases h <;> rfl

/-- Nor are several. -/
theorem extras_foldlM_set {entries : List (Switch × String)} {p q : Progress}
    (h : entries.foldlM set p = some q) : q.extras = p.extras := by
  induction entries generalizing p with
  | nil =>
      cases h
      rfl
  | cons entry rest ih =>
      rw [List.foldlM_cons] at h
      obtain ⟨p', hp', h⟩ := Option.bind_eq_some_iff.mp h
      exact (ih h).trans (extras_set hp')

/-- An argument that nothing has taken spoils every request. -/
theorem extras_eq_nil {p : Progress} {arguments : List Argument} {r : Request}
    (h : p.invocation arguments = .request r) : p.extras = [] := by
  have hfinish (p : Progress) (h : p.finish = .request r) : p.extras = [] := by
    rw [finish] at h
    split at h
    · exact List.isEmpty_iff.mp ‹_›
    · cases h
  fun_induction p.invocation arguments with
  | case1 p | case5 p => exact hfinish p h
  | case2 _ _ _ _ _ ih | case3 _ _ _ _ _ ih | case6 _ _ _ _ _ ih => exact ih h
  -- the argument is one that nothing takes
  | case4 _ _ _ _ _ ih | case7 _ _ _ _ _ ih | case8 _ _ _ ih =>
      exact absurd (ih h) (List.cons_ne_nil _ _)
  | case9 | case10 => cases h
  | case11 p text s short attached next r h' q hset hlength ih =>
      exact (extras_foldlM_set hset).symm.trans (ih h)

/-- With the switch for a trace in front. -/
theorem invocation_traceSwitch (p : Progress) (after : List Argument) :
    p.invocation (traceSwitch :: after) = (p.invocation after).traced :=
  (invocation_switch (r := ⟨[(.trace, "")], after⟩) rfl).trans (p.traced_invocation after)

/-- What is a request with a trace is one without. -/
theorem exists_request {p : Progress} {after : List Argument} {r' : Request}
    (h : p.invocation (traceSwitch :: after) = .request r') :
    ∃ r, p.invocation after = .request r := by
  rw [invocation_traceSwitch] at h
  cases hafter : p.invocation after with
  | request r => exact ⟨r, rfl⟩
  | help | misuse => rw [hafter] at h; cases h

end Progress

/-! ### The switch between the arguments -/

section

variable {p : Progress} {before after : List Argument} {r r' : Request}

/-- Whether both of two command lines are requests, of which one has the switch for a trace behind
the first arguments. -/
structure Requested (p : Progress) (before after : List Argument) (r r' : Request) : Prop where
  without : p.invocation (before ++ after) = .request r
  traced : p.invocation (before ++ traceSwitch :: after) = .request r'
  separated : ∀ a ∈ before, a.kind ≠ .separator

/-- The switch cannot stand between the source and the separator. -/
theorem Requested.behind_source {text : String} (hp : p.source = none)
    (h : Requested p (⟨text, .plain⟩ :: before) after r r') :
    Requested { p with source := some text } before after r r' := by
  obtain ⟨h, h', hseparated⟩ := h
  have hbefore := (List.forall_mem_cons.mp hseparated).2
  rw [List.cons_append] at h h'
  cases before with
  | cons b before =>
      have hb (rest : List Argument) : ∀ a ∈ (b :: rest).head?, a.kind ≠ .separator :=
        fun a ha => Option.some.inj ha ▸ hbefore b List.mem_cons_self
      rw [List.cons_append, Progress.invocation_plain hp (hb _)] at h h'
      exact ⟨h, h', hbefore⟩
  | nil =>
      rw [List.nil_append, Progress.invocation_plain hp fun a ha => by cases ha; nofun] at h'
      refine ⟨?_, h', hbefore⟩
      obtain ⟨r'', h''⟩ := Progress.exists_request h'
      rw [← h, List.nil_append]
      refine (Progress.invocation_plain hp fun a ha hkind => ?_).symm
      obtain ⟨after, rfl⟩ := List.head?_eq_some_iff.mp ha
      obtain ⟨text', kind⟩ := a
      subst hkind
      rw [Progress.invocation_separator_extra rfl] at h''
      exact List.cons_ne_nil _ _ (Progress.extras_eq_nil h'')

/-- A switch has the same value, or none, in both. -/
theorem Requested.behind_switch {text : String} {s : Switch} {short : Bool}
    {attached : Option (List Char)}
    (h : Requested p (⟨text, .switch s short attached⟩ :: before) after r r') :
    ∃ q before', before' <:+ before ∧ Requested q before' after r r' := by
  obtain ⟨h, h', hseparated⟩ := h
  have hbefore := (List.forall_mem_cons.mp hseparated).2
  rw [List.cons_append] at h h'
  -- the switches are set, and the rest is read
  have hset (set : List (Switch × String)) (before' : List Argument) (hsuffix : before' <:+ before)
      (hf : settings short s attached (before ++ after) = .ok ⟨set, before' ++ after⟩)
      (hf' : settings short s attached (before ++ traceSwitch :: after) =
        .ok ⟨set, before' ++ traceSwitch :: after⟩) :
      ∃ q before', before' <:+ before ∧ Requested q before' after r r' := by
    rw [Progress.invocation_switch hf] at h
    rw [Progress.invocation_switch hf'] at h'
    dsimp only at h h'
    cases hset : set.foldlM Progress.set p with
    | none =>
        rw [hset] at h
        cases h
    | some q =>
        rw [hset] at h h'
        exact ⟨q, before', hsuffix, h, h', fun a ha => hbefore a (hsuffix.subset ha)⟩
  cases settings_appetite short s attached with
  | misuse m hf =>
      rw [Progress.invocation_of_misuse (hf _)] at h
      cases h
  | none set hf => exact hset set before List.suffix_rfl (hf _) (hf _)
  | first set hplain hother =>
      rcases before with _ | ⟨⟨value, kind⟩, before⟩
      -- it would take the switch for a trace as its value
      · obtain ⟨m, hm⟩ := hother (traceSwitch :: after) fun value rest hrest =>
          nomatch congrArg Argument.kind (List.cons.inj hrest).1
        rw [List.nil_append, Progress.invocation_of_misuse hm] at h'
        cases h'
      by_cases hkind : kind = .plain
      · subst hkind
        exact hset (set value) before (List.suffix_cons _ _) (hplain _ _) (hplain _ _)
      · obtain ⟨m, hm⟩ := hother (⟨value, kind⟩ :: before ++ after) fun value' rest hrest => by
          cases hrest
          exact hkind rfl
        rw [Progress.invocation_of_misuse hm] at h
        cases h

/-- The two command lines are read alike up to the switch. -/
theorem Requested.behind {a : Argument} (h : Requested p (a :: before) after r r') :
    ∃ q before', before' <:+ before ∧ Requested q before' after r r' := by
  have ha := h.separated a List.mem_cons_self
  have hwithout := h.without
  rw [List.cons_append] at hwithout
  obtain ⟨text, kind⟩ := a
  cases kind with
  | separator => exact absurd rfl ha
  | switch s short attached => exact h.behind_switch
  | unknown =>
      rw [Progress.invocation] at hwithout
      exact absurd (Progress.extras_eq_nil hwithout) (List.cons_ne_nil _ _)
  | plain =>
      cases hp : p.source with
      | none => exact ⟨_, before, List.suffix_rfl, h.behind_source hp⟩
      | some source =>
          rw [Progress.invocation_plain_extra hp] at hwithout
          exact absurd (Progress.extras_eq_nil hwithout) (List.cons_ne_nil _ _)

/-- The switch asks for a trace, and for nothing else. -/
theorem Requested.eq_traced (h : Requested p before after r r') : r' = r.traced := by
  induction hn : before.length using Nat.strongRecOn generalizing p before with
  | ind n ih =>
      subst hn
      cases before with
      | cons a before =>
          obtain ⟨q, before', hsuffix, h⟩ := h.behind
          exact ih _ (Nat.lt_succ_of_le hsuffix.length_le) h rfl
      | nil =>
          have h' := h.traced
          rw [List.nil_append, Progress.invocation_traceSwitch, ← List.nil_append after,
            h.without] at h'
          exact (Invocation.request.inj h').symm

end

/-- The switch for a trace may be put between the arguments. If what is left is a request, it is the
same, with a trace. -/
theorem request_of_traceSwitch {pre post : List String} {r r' : Request} (hpre : "--" ∉ pre)
    (h : invocation (pre ++ post) = .request r)
    (h' : invocation (pre ++ "--trace" :: post) = .request r') : r' = r.traced := by
  rw [invocation] at h h'
  cases has : classify (pre ++ post) with
  | error m =>
      rw [has] at h
      cases h
  | ok as =>
      cases has' : classify (pre ++ "--trace" :: post) with
      | error m =>
          rw [has'] at h'
          cases h'
      | ok as' =>
          rw [has] at h
          rw [has'] at h'
          obtain ⟨before, hbefore, after, hafter, rfl⟩ := (classify_append hpre).mp has
          obtain ⟨before', hbefore', after', hafter', rfl⟩ := (classify_append hpre).mp has'
          obtain rfl : before = before' := Except.ok.inj (hbefore.symm.trans hbefore')
          obtain ⟨kind, hkind, bs, hbs, rfl⟩ := (classify_cons (by decide)).mp hafter'
          obtain rfl : after = bs := Except.ok.inj (hafter.symm.trans hbs)
          obtain rfl : traceSwitch.kind = kind := Except.ok.inj (kindOf_trace.symm.trans hkind)
          exact Requested.eq_traced ⟨h, h', ne_separator_of_classify hpre hbefore⟩

end Scriptlet.CommandLine
