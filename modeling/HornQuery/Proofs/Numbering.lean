import Mathlib
import HornQuery.Proofs.Lines

/-!
# Numbered parameters

Values are supplied to SQL by position, so the parameter `?k` of a text has to stand for the `k`-th
placeholder of the list that goes with the text. Three walks over a fragment have a part in that. One
collects the placeholders in the order of the text (`Fragment.order`), one writes the text, and one lists
the placeholders of the scan, whatever is asked of it and with nested scans last (`Fragment.params`).

The first two agree on every fragment (`Fragment.numberedBy_order`). The third also lists what is
projected where nothing but existence is asked, so it agrees with them on scans that project no
placeholder (`Fragment.mem_order_iff`). All scans that a compiler makes are of that kind, and they have no
question marks in their names either (`Compiler.invariant_generated`), so the numbers of their
parameters can be read off the text itself (`Template.marks_fill`).
-/

namespace HornQuery

/-! ### Numbers in the text -/

/-- The digits behind each question mark. -/
def marks : List Char → List String
  | [] => []
  | c :: rest =>
    if c = '?' then String.ofList (rest.takeWhile Char.isDigit) :: marks rest else marks rest

/-- Text without question marks has no marks. -/
theorem marks_append {cs : List Char} (h : '?' ∉ cs) (rest : List Char) :
    marks (cs ++ rest) = marks rest := by
  induction cs with
  | nil => rfl
  | cons c cs ih =>
    rw [List.mem_cons, not_or] at h
    rw [List.cons_append, marks, if_neg (Ne.symm h.1), ih h.2]

/-- The number of a lookup ends where its digits end. -/
theorem marks_lookup (number : Placeholder → Nat) (key : Placeholder) (rest : List Char) :
    marks (((Piece.lookup key).write number).toList ++ rest) = (number key).repr :: marks rest := by
  have hwrite : (Piece.lookup key).write number = "(SELECT id FROM " ++ Schema.symbolTable ++
      " WHERE symbol = ?" ++ (number key).repr ++ " AND arity = 0)" := rfl
  have hbefore : "(SELECT id FROM ".toList ++ Schema.symbolTable.toList ++ " WHERE symbol = ?".toList =
      "(SELECT id FROM symbol WHERE symbol = ".toList ++ ['?'] := by decide
  have hdigits : ∀ c ∈ Nat.toDigits 10 (number key), c.isDigit = true := fun c hc ↦
    Nat.isDigit_of_mem_toDigits (by decide) (by decide) hc
  have hafter : '?' ∉ Nat.toDigits 10 (number key) ++ " AND arity = 0)".toList := by
    rw [List.mem_append, not_or]
    exact ⟨fun hmem ↦ absurd (hdigits _ hmem) (by decide), by decide⟩
  have hstop : (" AND arity = 0)".toList ++ rest).takeWhile Char.isDigit = [] := rfl
  rw [hwrite]
  simp only [String.toList_append, Nat.toList_repr, hbefore]
  rw [List.append_assoc, List.append_assoc, List.append_assoc, marks_append (by decide),
    ← List.append_assoc (Nat.toDigits 10 (number key)), List.singleton_append, marks, if_pos rfl,
    marks_append hafter, List.append_assoc, List.takeWhile_append_of_pos hdigits, hstop,
    List.append_nil, Nat.repr_eq_ofList_toDigits]

/-- A text without a question mark in it. -/
def Piece.Unmarked : Piece → Prop
  | .text s => '?' ∉ s.toList
  | .lookup _ => True

instance : DecidablePred Piece.Unmarked
  | .text s => inferInstanceAs (Decidable ('?' ∉ s.toList))
  | .lookup _ => isTrue trivial

/-- No text around the lookups has a question mark in it. -/
def Template.Unmarked (t : Template) : Prop := ∀ piece ∈ t, piece.Unmarked

instance (t : Template) : Decidable (Template.Unmarked t) :=
  inferInstanceAs (Decidable (∀ piece ∈ t, piece.Unmarked))

/-- The numbers that the text shows are those of the placeholders, one for each occurrence. -/
theorem Template.marks_fill {t : Template} (h : t.Unmarked) (number : Placeholder → Nat) :
    marks (t.fill number).toList = t.keys.map fun key ↦ (number key).repr := by
  induction t with
  | nil => rfl
  | cons piece t ih =>
    obtain ⟨hpiece, ht⟩ := List.forall_mem_cons.mp h
    have hrest := ih ht
    cases piece with
    | text s =>
      rw [Template.fill_text_cons, String.toList_append, marks_append hpiece, hrest]
      rfl
    | lookup key =>
      rw [Template.fill_cons, String.toList_append, marks_lookup, hrest]
      rfl

theorem Template.Spelled.unmarked {t : Template} (h : Template.Spelled t) : Template.Unmarked t := by
  intro piece hpiece
  cases piece with
  | text s => exact (h s hpiece).2
  | lookup key => trivial

/-! ### Text and list -/

namespace Fragment

/-- The text writes each placeholder with the number that it has in `number`. This is its place in the
list of parameters, counted from one, and each place of the list is written. -/
structure NumberedBy (f : Fragment) (number : Placeholder → Nat) : Prop where
  text : f.render.sql = f.template.fill number
  place : ∀ key ∈ f.template.keys, 1 ≤ number key ∧ f.render.params[number key - 1]? = some key
  written : ∀ k, 1 ≤ k → k ≤ f.render.params.length → ∃ key ∈ f.template.keys, number key = k

variable {f : Fragment} {key : Placeholder}

/-- Parameters are listed when they are met first, and never again. -/
theorem nodup_order (f : Fragment) : f.order.Nodup := by
  rw [f.order_eq]
  exact Distinct.nodup_ofList _

theorem numberedBy_order (f : Fragment) : f.NumberedBy fun key ↦ f.order.idxOf key + 1 := by
  have hmem : ∀ key, key ∈ f.order ↔ key ∈ f.template.keys := fun key ↦ by
    rw [f.order_eq, Distinct.mem_ofList]
  refine ⟨f.render_sql.trans f.fill_template.symm, fun key hkey ↦ ⟨by omega, ?_⟩, fun k hpos hle ↦ ?_⟩
  · rw [f.render_params]
    exact List.getElem?_idxOf ((hmem key).mpr hkey)
  · rw [f.render_params] at hle
    have hlt : k - 1 < f.order.length := by omega
    refine ⟨f.order[k - 1], (hmem _).mp (List.getElem_mem hlt), ?_⟩
    rw [f.nodup_order.idxOf_getElem]
    omega

/-- The numbers that a text can be written with are determined by its list of parameters. -/
theorem NumberedBy.number_eq {number : Placeholder → Nat} (h : f.NumberedBy number) {k : Nat}
    (hk : f.render.params[k]? = some key) : number key = k + 1 := by
  have hplaces := h.place
  rw [f.render_params] at hk hplaces
  have hkey : key ∈ f.template.keys := by
    rw [← Distinct.mem_ofList, ← f.order_eq]
    exact List.mem_of_getElem? hk
  obtain ⟨hpos, hplace⟩ := hplaces key hkey
  have hlt : number key - 1 < f.order.length := (List.getElem?_eq_some_iff.mp hplace).1
  have hsame : number key - 1 = k :=
    (List.getElem?_inj hlt f.nodup_order).mp (hplace.trans hk.symm)
  omega

/-! ### List and enumeration -/

/-- Where no placeholder is projected, the parameters of the text are the placeholders of the scan. -/
theorem mem_order_iff (h : f.scan.Bare) : key ∈ f.order ↔ key ∈ f.params := by
  rw [params, Distinct.mem_ofList, Scan.mem_placeholders_iff _ h]
  obtain ⟨⟨sources, conditions, projection⟩, shape⟩ := f
  exact mem_order_iff_textual h.1

/-- A substitution takes its placeholders away and brings in those of the expressions put in place of
placeholders that were there. -/
theorem mem_params_substitute {s : Scan} (h : s.Bare) (b : Bindings) (shape shape' : Shape) :
    key ∈ (Fragment.mk (s.substitute b) shape').params ↔
      key ∈ (Fragment.mk s shape).params ∧ b.lookup key = none ∨
        ∃ k ∈ (Fragment.mk s shape).params, ∃ e, b.lookup k = some e ∧ key ∈ e.placeholders := by
  simp only [params, Distinct.mem_ofList, Scan.mem_placeholders_iff _ h,
    Scan.mem_placeholders_iff _ (Scan.Bare.substitute s h), Scan.mem_textual_substitute]
  constructor
  · rintro ⟨k, hk, hkey⟩
    cases hlookup : b.lookup k with
    | none =>
      rw [hlookup] at hkey
      obtain rfl := List.mem_singleton.mp hkey
      exact .inl ⟨hk, hlookup⟩
    | some e =>
      rw [hlookup] at hkey
      exact .inr ⟨k, hk, e, hlookup, hkey⟩
  · rintro (⟨hkey, hlookup⟩ | ⟨k, hk, e, hlookup, hkey⟩)
    · exact ⟨key, hkey, by rw [hlookup]; exact List.mem_singleton.mpr rfl⟩
    · exact ⟨k, hk, by rw [hlookup]; exact hkey⟩

end Fragment

/-! ### What compilers make -/

/-- What is known of every compiled scan: it projects no placeholder, it draws from tables of the schema,
and its aliases and labels are generated. -/
structure Scan.Generated (scan : Scan) : Prop where
  bare : scan.Bare
  listed : scan.Listed
  declared : ∀ name ∈ scan.declared, SqlText name
  labels : ∀ entry ∈ scan.projection, SqlText entry.1

/-- Substitution leaves sources, aliases and labels alone. -/
theorem Scan.Generated.substitute {scan : Scan} (h : scan.Generated) (b : Bindings) :
    (scan.substitute b).Generated := by
  refine ⟨Scan.Bare.substitute scan h.bare, h.listed.substitute b, fun name hname ↦ ?_,
    fun entry hentry ↦ ?_⟩
  · rw [Scan.declared_substitute] at hname
    exact h.declared name hname
  · obtain ⟨sources, conditions, projection⟩ := scan
    obtain ⟨original, horiginal, rfl⟩ := List.mem_map.mp hentry
    exact h.labels original horiginal

namespace Compiler

variable {c : Compiler}

/-- All scans in the cache are generated, by scopes that were opened before. -/
structure Generated (c : Compiler) : Prop where
  inScope : c.Scoped
  scans : ∀ entry ∈ c.fragments, entry.2.scan.Generated

/-- A scope makes up the names in its scan and puts scans of the cache into it. -/
theorem generated_of_addGoals (hc : c.Generated) {rule : Option Rule} {goals : List Goal} {s : Scope}
    (h : c.openScope.2.addGoals rule goals c.openScope.1 = .ok s) (names : List String) :
    (s.finish names).scan.Generated := by
  have hcache : c.openScope.2.CacheBefore c.openScope.1.number := hc.inScope
  have hvalid : s.Valid := addGoals_valid hcache (Scope.Valid.empty _) h
  refine ⟨?_, ?_, fun name hname ↦ ((hvalid.finish names).2 name hname).sqlText, s.sqlText_labels names⟩
  · exact bare_of_addGoals (fun entry hentry ↦ (hc.scans entry hentry).bare) h names
  · exact listed_of_addGoals hc.inScope (fun entry hentry ↦ (hc.scans entry hentry).listed) h names

/-- What is compiled from goals is generated. -/
theorem generated_compileGoals (hc : c.Generated) {rule : Option Rule} {goals : List Goal}
    {names : List String} {f : Fragment} (h : (c.compileGoals rule goals names).2 = .ok f) :
    f.scan.Generated := by
  obtain ⟨s, hgoals, rfl⟩ := compileGoals_eq_ok h
  exact generated_of_addGoals hc hgoals names

/-- Opening a scope leaves the cache as it is. -/
theorem generated_openScope (hc : c.Generated) : c.openScope.2.Generated :=
  ⟨hc.inScope.openScope, hc.scans⟩

/-- A rule comes from the cache, or its scan is generated and then cached. -/
theorem generated_compileRule (hc : c.Generated) (r : Rule) :
    (c.compileRule r).1.Generated ∧ ∀ f, (c.compileRule r).2 = .ok f → f.scan.Generated := by
  have hscoped := (scoped_compileRule hc.inScope r).1
  obtain ⟨cached, hcached, h⟩ | ⟨-, s, hgoals, h⟩ | ⟨-, e, -, h⟩ := c.compileRule_cases r <;>
    rw [h] at hscoped ⊢
  · refine ⟨hc, fun f hf ↦ ?_⟩
    obtain rfl := Except.ok.inj hf
    exact hc.scans _ (mem_of_lookup_eq_some hcached)
  · have hnew := generated_of_addGoals hc hgoals (c.ruleNames r)
    refine ⟨⟨hscoped, fun entry hentry ↦ ?_⟩, fun f hf ↦ ?_⟩
    · rcases List.mem_append.mp hentry with hentry | hentry
      · exact hc.scans entry hentry
      · rw [List.mem_singleton.mp hentry]
        exact hnew
    · obtain rfl := Except.ok.inj hf
      exact hnew
  · exact ⟨generated_openScope hc, fun f hf ↦ by cases hf⟩

/-- A query from the cache is a generated scan with something substituted. -/
theorem generated_reuse (hc : c.Generated) {g : Goal} {compiled : CompiledQuery}
    (h : c.reuse g = some compiled) : compiled.fragment.scan.Generated := by
  obtain ⟨r, m, fragment, -, -, hfragment, rfl⟩ := reuse_eq_some h
  exact (hc.scans _ (mem_of_lookup_eq_some hfragment)).substitute _

/-- Whatever a compiler is asked for, what it returns is generated and what it keeps stays so. -/
theorem invariant_generated :
    Invariant (fun _ ↦ True) Generated fun f ↦ f.scan.Generated where
  resolve _ maxPasses hc :=
    resolve_induction (P := Generated) (fun _ r _ h ↦ (generated_compileRule h r).1)
      (fun _ _ _ h ↦ ⟨h.inScope, h.scans⟩) hc maxPasses
  compileRule _ r _ hc := (generated_compileRule hc r).1
  markFailed _ _ _ _ hc := ⟨hc.inScope, hc.scans⟩
  openScope _ hc := generated_openScope hc
  rule _ r f _ hc := (generated_compileRule hc r).2 f
  goals _ _ _ _ hc h := generated_compileGoals hc h
  reuse _ _ _ hc := generated_reuse hc

/-- The fragments that a compiler has returned and those that it keeps after a history. -/
def produced (c : Compiler) (ops : List Operation) : List Fragment :=
  (c.performAll ops).2 ++ (c.performAll ops).1.fragments.map Prod.snd

/-- Whatever a compiler produces is well scoped and generated. -/
theorem generated_of_mem_produced {program : Program} {symbols : SymbolTable} {policy : BodyPolicy}
    {ops : List Operation} {f : Fragment} (h : f ∈ (fresh program symbols policy).produced ops) :
    f.scan.WellScoped [] ∧ f.scan.Generated := by
  have hempty : (fresh program symbols policy).Generated :=
    ⟨fun _ hentry ↦ absurd hentry List.not_mem_nil, fun _ hentry ↦ absurd hentry List.not_mem_nil⟩
  obtain ⟨hkept, hreturned⟩ := invariant_generated.performAll (fun _ _ ↦ trivial) hempty
  rcases List.mem_append.mp h with h | h
  · exact ⟨(invariant_scoped.performAll (fun _ _ ↦ trivial) hempty.inScope).2 f h, hreturned f h⟩
  · obtain ⟨entry, hentry, rfl⟩ := List.mem_map.mp h
    exact ⟨(hkept.inScope entry hentry).1, hkept.scans entry hentry⟩

end Compiler

/-- **Parameters are numbered as placeholders are listed.**

* In every fragment, the list of parameters has no repeats. Wherever the text shows a placeholder, it
  shows `?k` where the placeholder is the `k`-th of the list, and each of `?1` to `?N` is shown. If no
  name has a question mark in it, these are the numbers behind the question marks of the text, from left
  to right.
* If neither the scan nor any scan nested in it projects a placeholder, the parameters of the text are the
  placeholders of the fragment. After a substitution, whatever is asked of the scan then, both are those
  that were there and are not bound, together with the placeholders of the expressions bound to those
  that were there.
* Every fragment that a compiler returns or keeps is of that kind, and no name in it has a question mark,
  whatever the compiler was given and asked for. -/
theorem Fragment.parameters_numbered :
    (∀ f : Fragment, f.render.params.Nodup ∧ ∃ number, f.NumberedBy number ∧
        (Template.Unmarked f.template →
          marks f.render.sql.toList = f.template.keys.map fun key ↦ (number key).repr)) ∧
      (∀ f : Fragment, f.scan.Bare →
        (∀ key, key ∈ f.render.params ↔ key ∈ f.params) ∧
          ∀ b shape key,
            (key ∈ (Fragment.mk (f.scan.substitute b) shape).render.params ↔
              key ∈ (Fragment.mk (f.scan.substitute b) shape).params) ∧
            (key ∈ (Fragment.mk (f.scan.substitute b) shape).params ↔
              key ∈ f.params ∧ b.lookup key = none ∨
                ∃ k ∈ f.params, ∃ e, b.lookup k = some e ∧ key ∈ e.placeholders)) ∧
      ∀ program symbols policy ops, ∀ f ∈ (Compiler.fresh program symbols policy).produced ops,
        f.scan.Bare ∧ Template.Unmarked f.template := by
  simp only [Fragment.render_params]
  refine ⟨fun f ↦ ⟨f.nodup_order, _, f.numberedBy_order, fun h ↦ ?_⟩, fun f h ↦ ⟨?_, ?_⟩, ?_⟩
  · rw [f.numberedBy_order.text, Template.marks_fill h]
  · exact fun key ↦ f.mem_order_iff h
  · intro b shape key
    exact ⟨mem_order_iff (Scan.Bare.substitute f.scan h), mem_params_substitute h b f.shape shape⟩
  · intro program symbols policy ops f hf
    obtain ⟨hwell, hgenerated⟩ := Compiler.generated_of_mem_produced hf
    have hspelled := Fragment.spelled_template hwell hgenerated.declared hgenerated.listed
      fun _ _ ↦ hgenerated.labels
    exact ⟨hgenerated.bare, hspelled.unmarked⟩

/-- A fragment in whose text `Y` is met inside a nested scan, before `Z`. -/
def crossed : Fragment where
  shape := .existence
  scan :=
    { sources := [⟨"fact_2ary", "f2_0"⟩]
      conditions :=
        [.eq (.column "f2_0" "arg1_id") (.param (.external "X")),
          .exists
            { sources := [⟨"fact_2ary", "f1_0"⟩]
              conditions :=
                [.eq (.column "f1_0" "arg1_id") (.param (.external "Y")),
                  .eq (.column "f1_0" "arg2_id") (.param (.external "X"))] },
          .eq (.column "f2_0" "arg2_id") (.param (.external "Z"))] }

theorem bare_crossed : crossed.scan.Bare :=
  ⟨fun _ h ↦ absurd h List.not_mem_nil, trivial,
    ⟨fun _ h ↦ absurd h List.not_mem_nil, trivial, trivial, trivial⟩, trivial, trivial⟩

/-- The text meets the placeholders in another order than the enumeration, and `X` twice. Where `X` is
replaced by `Y` and `Y` by a number, `Y` is bound and yet among the placeholders afterwards. A query that
reuses a cached scan has a parameter of the rule and one of its own. -/
theorem Fragment.parameters_numbered_crossed :
    crossed.render.params = [.external "X", .external "Y", .external "Z"] ∧
      crossed.params = [.external "X", .external "Z", .external "Y"] ∧
      marks crossed.render.sql.toList = ["1", "2", "1", "3"] ∧
      (∀ key, key ∈ crossed.render.params ↔ key ∈ crossed.params) ∧
      Placeholder.external "Y" ∈ (Fragment.mk (crossed.scan.substitute
        [(.external "X", .param (.external "Y")), (.external "Y", .int 7)]) .existence).params ∧
      ((stepProgram.compiler .joinAll).produced
          [.resolve 1, .compileQuery ⟨[stepGoal], ""⟩]).map (fun f ↦ f.render.params) =
        [[.rule ⟨"step", 3⟩ "X", .external "to"], [.rule ⟨"step", 3⟩ "X", .rule ⟨"step", 3⟩ "Y"]] ∧
      ∀ f ∈ (stepProgram.compiler .joinAll).produced
          [.resolve 1, .compileQuery ⟨[stepGoal], ""⟩],
        f.scan.Bare ∧ Template.Unmarked f.template := by
  obtain ⟨hnumbered, hlisted, hproduced⟩ := Fragment.parameters_numbered
  obtain ⟨-, number, hnumber, hmarks⟩ := hnumbered crossed
  obtain ⟨hsame, hsubstituted⟩ := hlisted crossed bare_crossed
  have hX : number (.external "X") = 1 := hnumber.number_eq (k := 0) rfl
  have hY : number (.external "Y") = 2 := hnumber.number_eq (k := 1) rfl
  have hZ : number (.external "Z") = 3 := hnumber.number_eq (k := 2) rfl
  have htext : marks crossed.render.sql.toList =
      [Placeholder.external "X", .external "Y", .external "X", .external "Z"].map
        fun key ↦ (number key).repr := hmarks (by decide +kernel)
  refine ⟨rfl, rfl, ?_, hsame, ?_, by decide +kernel, hproduced _ _ _ _⟩
  · rw [htext, List.map, List.map, List.map, List.map, hX, hY, hZ]
    rfl
  · refine (hsubstituted _ _ _).2.mpr (.inr ⟨.external "X", ?_, .param (.external "Y"), rfl, ?_⟩)
    · decide
    · exact List.mem_singleton.mpr rfl

end HornQuery
