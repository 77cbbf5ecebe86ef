import Mathlib
import HornQuery.Proofs.QueryText
import HornQuery.Proofs.Written

/-!
# Displayed rules are read as themselves

The written form of a rule quotes nothing. If every name in it could be written without quotes, it is
a text of its own that says this one rule: the reader finds the nodes that the rule has
(`Goal.node`), and collecting them gives the rule back (`Rule.parse_display`).

A name by itself may also be a numeral, but what is applied to arguments may not. A numeral at the end
of the body is followed by the period of the rule and by nothing else, so the period is not taken for
a decimal point.
-/

namespace HornQuery

open Node Node.Reader Text

/-! ### Names that need no quotes -/

namespace Node

/-- A small letter followed by letters, digits and underscores. -/
def IsAtomName (text : String) : Prop :=
  ∃ c r, text.toList = c :: r ∧ c.isLower ∧ ∀ d ∈ r, isNameChar d

/-- Digits, or a period with digits behind it and perhaps before it. -/
def IsNumeral (text : String) : Prop :=
  ∃ whole, (∀ c ∈ whole, c.isDigit) ∧
    (whole ≠ [] ∧ text.toList = whole ∨
      ∃ fraction, fraction ≠ [] ∧ (∀ c ∈ fraction, c.isDigit) ∧
        text.toList = whole ++ '.' :: fraction)

/-- A name or a numeral that is read as itself. -/
def IsPlain (text : String) : Prop :=
  IsAtomName text ∨ IsNumeral text

end Node

/-- The names in a goal need no quotes. -/
structure Goal.Plain (g : Goal) : Prop where
  alone : g.args = [] → IsPlain g.functor
  applied : g.args ≠ [] → IsAtomName g.functor
  consts : ∀ text, .const text ∈ g.args → IsPlain text

/-- The names in a rule need no quotes. -/
structure Rule.Plain (r : Rule) : Prop where
  head : (Goal.mk r.name r.head).Plain
  body : ∀ g ∈ r.body, g.Plain

/-- The node that a term is read from. -/
def Term.node : Term → Node
  | .var name => .var name
  | .const text => .atom text
  | .param name => .param name

/-- The node that a goal is read from. -/
def Goal.node (g : Goal) : Node :=
  if g.args.isEmpty then .atom g.functor else .compound g.functor (g.args.map Term.node)

/-! ### Texts of terms -/

namespace Node.Reader

variable {s u v w : List Char} {text : String} {x : Node}

/-- What is read from a text to its end is read from it wherever it stands. -/
theorem spells_of_term {c : Char} {depth : Nat} (h : term depth (c :: s) = .ok (x, []))
    (hc : isBlank c = false) (hpercent : c ≠ '%') : Spells (c :: s) x [] := by
  obtain ⟨a, w, heq, ha, hw⟩ := term_spells h
  rw [List.append_nil] at heq
  cases ha with
  | nil => rwa [heq]
  | blank hblank _ =>
    obtain ⟨rfl, -⟩ := List.cons.inj heq
    rw [hc] at hblank
    cases hblank
  | comment _ _ => exact absurd (List.cons.inj heq).1 hpercent

theorem ne_percent_of_isNameChar {c : Char} (h : isNameChar c) : c ≠ '%' := by
  rintro rfl
  exact absurd h (by decide)

/-- A text of name characters is one name. -/
theorem name_toList (h : ∀ c ∈ text.toList, isNameChar c) : name text.toList = (text, []) := by
  have hread := name_append h (s := []) (by simp [Ends])
  rwa [List.append_nil, String.ofList_toList] at hread

theorem spells_var (h : IsVarName text) : Spells text.toList (.var text) [] := by
  obtain ⟨c, r, htext, hc, hr⟩ := h
  have hname : isNameChar c := isNameChar_of_isUpper hc
  have hread : name text.toList = (text, []) :=
    name_toList (htext ▸ List.forall_mem_cons.mpr ⟨hname, hr⟩)
  rw [htext] at hread ⊢
  have hterm : term 1 (c :: r) = .ok (.var text, []) := by rw [term_of_isUpper 0 hc, hread]
  exact spells_of_term hterm (not_isBlank_of_isNameChar hname) (ne_percent_of_isNameChar hname)

theorem spells_param (h : IsParamName text) : Spells (':' :: text.toList) (.param text) [] := by
  have hread := name_toList h.2
  have hne : text.isEmpty = false := by
    rw [← Bool.not_eq_true, String.isEmpty_iff]
    rintro rfl
    exact h.1 rfl
  have hterm : term 1 (':' :: text.toList) = .ok (.param text, []) := by
    rw [term_of_colon 0, hread, hne]
    rfl
  exact spells_of_term hterm (by decide) (by decide)

theorem spells_numeral (h : IsNumeral text) : Spells text.toList (.atom text) [] := by
  -- the first character says that a numeral starts, and the numeral takes the whole text
  obtain ⟨c, r, htext, hstarts, hread⟩ : ∃ c r, text.toList = c :: r ∧
      startsNumeral (c :: r) = true ∧ numeral (c :: r) = (text, []) := by
    obtain ⟨whole, hwhole, ⟨hne, htext⟩ | ⟨fraction, hne, hfraction, htext⟩⟩ := h
    · have hread := numeral_whole hwhole (u := []) rfl
      rw [List.append_nil, ← htext, String.ofList_toList] at hread
      obtain ⟨c, r, rfl⟩ := List.exists_cons_of_ne_nil hne
      exact ⟨c, r, htext, startsNumeral_of_isDigit (hwhole c List.mem_cons_self) r, htext ▸ hread⟩
    · have hread := numeral_fraction hwhole hfraction hne (u := []) (by simp)
      rw [List.append_nil, ← htext, String.ofList_toList, htext] at hread
      cases whole with
      | cons c r =>
        exact ⟨c, r ++ '.' :: fraction, htext,
          startsNumeral_of_isDigit (hwhole c List.mem_cons_self) _, hread⟩
      | nil =>
        obtain ⟨d, fraction, rfl⟩ := List.exists_cons_of_ne_nil hne
        exact ⟨'.', d :: fraction, htext, hfraction d List.mem_cons_self, hread⟩
  have hplain : isBlank c = false ∧ c ≠ '%' := by
    by_cases hdot : c = '.'
    · subst hdot
      decide
    · rw [startsNumeral_cons hdot] at hstarts
      have hname := isNameChar_of_isDigit hstarts
      exact ⟨not_isBlank_of_isNameChar hname, ne_percent_of_isNameChar hname⟩
  have hterm : term 1 (c :: r) = .ok (.atom text, []) := by
    rw [term_of_startsNumeral 0 hstarts, hread]
  rw [htext]
  exact spells_of_term hterm hplain.1 hplain.2

/-- A name is read with the arguments that stand in parentheses behind it, or alone. -/
theorem term_atomName (h : IsAtomName text) (depth : Nat) {s : List Char}
    (hs : ∀ c ∈ s.head?, isNameChar c = false) :
    ∃ c r, text.toList = c :: r ∧ isNameChar c ∧ term (depth + 1) (c :: (r ++ s)) =
      application (commaList (term depth) depth) text s := by
  obtain ⟨c, r, htext, hc, hr⟩ := h
  have hname : isNameChar c := isNameChar_of_isLower hc
  refine ⟨c, r, htext, hname, ?_⟩
  obtain ⟨htake, hdrop⟩ := span_append (p := isNameChar) (w := c :: r) (u := s)
    (List.forall_mem_cons.mpr ⟨hname, hr⟩) hs
  rw [term_of_isLower depth hc, name, ← List.cons_append, htake, hdrop, ← htext, String.ofList_toList]

theorem spells_atomName (h : IsAtomName text) : Spells text.toList (.atom text) [] := by
  obtain ⟨c, r, htext, hname, hread⟩ := term_atomName h 0 (s := []) (by simp)
  rw [List.append_nil] at hread
  rw [htext]
  exact spells_of_term hread (not_isBlank_of_isNameChar hname) (ne_percent_of_isNameChar hname)

/-- A plain text is written without quotes, as a name or as a numeral. -/
theorem spells_plain (h : IsPlain text) : Spells text.toList (.atom text) [] :=
  h.elim spells_atomName spells_numeral

/-- Arguments are written in parentheses right behind the name. -/
theorem spells_compound (h : IsAtomName text) {xs : List Node} (hv : SpellsList v xs []) :
    Spells (text.toList ++ '(' :: (v ++ [')'])) (.compound text xs) [] := by
  obtain ⟨c, r, htext, hname, hread⟩ :=
    term_atomName h (v.length + 1) (s := '(' :: (v ++ [')'])) (by simp; decide)
  have hclose : skipLayout [')'] = [')'] := skipLayout_cons (by decide) (by decide) []
  have hargs : commaList (term (v.length + 1)) (v.length + 1) (v ++ [')']) =
      .ok (xs, skipLayout [')']) :=
    hv.reads (.of_cons (by decide) (by decide) (by decide) _ _) (by rw [hclose]; decide)
      (Nat.lt_succ_self _) (Nat.lt_succ_self _)
  rw [htext, List.cons_append]
  refine spells_of_term (hread.trans ?_) (not_isBlank_of_isNameChar hname)
    (ne_percent_of_isNameChar hname)
  rw [application, hargs, hclose]
  simp only [bind, Except.bind]
  rw [expect_of_skipLayout hclose]
  rfl

/-- Terms are read from their texts with commas and blanks between them. -/
theorem spells_intercalate {α : Type} {text : α → List Char} {node : α → Node} {xs : List α}
    (hne : xs ≠ []) (h : ∀ x ∈ xs, Spells (text x) (node x) []) :
    SpellsList ([',', ' '].intercalate (xs.map text)) (xs.map node) [] := by
  induction xs with
  | nil => exact absurd rfl hne
  | cons x xs ih =>
    have hfirst := h x List.mem_cons_self
    cases xs with
    | nil => simpa using hfirst.list
    | cons y ys =>
      have hrest := ih (by simp) fun z hz ↦ h z (List.mem_cons_of_mem _ hz)
      have hlist := hfirst.cons .nil (.blank (c := ' ') (by decide) .nil) hrest
      simpa [List.intercalate_cons_cons] using hlist

end Node.Reader

/-! ### Texts of goals -/

/-- A term is displayed as it would be written, if its constants need no quotes. -/
theorem Term.spells_display {t : Term} (hwritten : t.Written)
    (hplain : ∀ text, t = .const text → IsPlain text) : Spells t.display.toList t.node [] := by
  cases t with
  | var name => exact spells_var hwritten
  | const text => exact spells_plain (hplain text rfl)
  | param name =>
    have hdisplay : (Term.param name).display.toList = ':' :: name.toList := by
      simp [Term.display, toString]
    rw [hdisplay]
    exact spells_param hwritten

/-- A goal is displayed as it would be written, without parentheses if it has no arguments. -/
theorem Goal.spells_display {g : Goal} (hwritten : g.Written) (hplain : g.Plain) :
    Spells g.display.toList g.node [] := by
  by_cases hnil : g.args = []
  · have hdisplay : g.display = g.functor := by simp [Goal.display, hnil]
    have hnode : g.node = .atom g.functor := by simp [Goal.node, hnil]
    rw [hdisplay, hnode]
    exact spells_plain (hplain.alone hnil)
  · have hdisplay : g.display.toList = g.functor.toList ++ '(' ::
        ([',', ' '].intercalate (g.args.map fun t ↦ t.display.toList) ++ [')']) := by
      simp [Goal.display, hnil, String.toList_intercalate, Function.comp_def]
    have hnode : g.node = .compound g.functor (g.args.map Term.node) := by simp [Goal.node, hnil]
    rw [hdisplay, hnode]
    refine spells_compound (hplain.applied hnil) (spells_intercalate hnil fun t ht ↦ ?_)
    refine Term.spells_display (hwritten.args t ht) ?_
    rintro text rfl
    exact hplain.consts text ht

/-! ### Texts of rules -/

namespace Node.Reader

variable {v w : List Char} {x : Node}

/-- No term starts with a question mark. -/
theorem Spells.head_ne (hw : Spells w x []) :
    ∃ c r, w = c :: r ∧ isBlank c = false ∧ c ≠ '%' ∧ c ≠ '?' := by
  obtain ⟨c, r, rfl, hblank, hpercent⟩ := hw.solid.first
  refine ⟨c, r, rfl, hblank, hpercent, ?_⟩
  rintro rfl
  have hread : term (r.length + 2) ('?' :: r ++ []) = .ok (x, []) :=
    hw.reads ⟨by simp, by simp⟩ (by simp)
  rw [List.append_nil, term, skipLayout_cons (by decide) (by decide)] at hread
  cases hread

/-- A head, the sign between head and body, and goals closed by a period are a rule. -/
theorem clause_rule {gs : List Node} (hw : Spells w x []) (hv : SpellsList v gs []) :
    clause (w ++ ' ' :: ':' :: '-' :: ' ' :: (v ++ ['.'])) = .ok (.rule x gs, []) := by
  have hperiod : skipLayout ['.'] = ['.'] := skipLayout_cons not_isBlank_period (by decide) []
  have hhead : term ((w ++ ' ' :: ':' :: '-' :: ' ' :: (v ++ ['.'])).length + 1)
      (w ++ ' ' :: ':' :: '-' :: ' ' :: (v ++ ['.'])) =
        .ok (x, ' ' :: ':' :: '-' :: ' ' :: (v ++ ['.'])) :=
    hw.reads (.of_cons (by decide) (by decide) (by decide) _ _)
      (by simp only [List.length_append]; omega)
  have hsign : skipLayout (' ' :: ':' :: '-' :: ' ' :: (v ++ ['.'])) =
      ':' :: '-' :: ' ' :: (v ++ ['.']) := by
    rw [skipLayout, if_pos (by decide), skipLayout_cons (by decide) (by decide)]
  have hbody := hv.goals.reads (a := [' ']) (.blank (by decide) .nil) (.period []) (by
    rw [hperiod]
    intro c hc
    obtain rfl := Option.some.inj hc
    decide)
  rw [hperiod] at hbody
  have hrule := assertion_of_rule hhead hsign hbody
  obtain ⟨c, r, rfl, -, hpercent, hquestion⟩ := hw.head_ne
  rw [List.cons_append] at hrule ⊢
  rw [clause_eq_assertion hpercent hquestion, hrule]

end Node.Reader

/-- A displayed rule is read as one clause, from the first character on. -/
theorem Rule.parseTree_display {r : Rule} (hwritten : r.Written) (hplain : r.Plain) :
    parseTree r.display = .ok [⟨0, .rule (Goal.mk r.name r.head).node (r.body.map Goal.node)⟩] := by
  have hhead := Goal.spells_display hwritten.head hplain.head
  have hbody : SpellsList ([',', ' '].intercalate (r.body.map fun g ↦ g.display.toList))
      (r.body.map Goal.node) [] :=
    spells_intercalate hwritten.nonempty fun g hg ↦
      Goal.spells_display (hwritten.body g hg) (hplain.body g hg)
  have hdisplay : r.display.toList = (Goal.mk r.name r.head).display.toList ++
      ' ' :: ':' :: '-' :: ' ' ::
        ([',', ' '].intercalate (r.body.map fun g ↦ g.display.toList) ++ ['.']) := by
    simp [Rule.display, String.toList_intercalate, Function.comp_def]
  have hclause := clause_rule hhead hbody
  obtain ⟨c, s, hcons, hblank, -⟩ := hhead.head_ne
  rw [hcons, List.cons_append] at hdisplay hclause
  exact (parseTree_of_clause hdisplay hblank).1 _ hclause

/-! ### Collecting a displayed rule -/

namespace Survey

/-- A survey that succeeds hands its result on. -/
theorem result_bind {α β : Type} {x : Survey α} {a : α} (h : x.result = .ok a) (f : α → Survey β) :
    (x >>= f).result = (f a).result := by
  obtain ⟨entries, result⟩ := x
  obtain rfl : result = .ok a := h
  rfl

/-- Things that are each surveyed from their node are surveyed from the list of their nodes. -/
theorem result_mapM {α : Type} {node : α → Node} {f : Node → Survey α} {xs : List α}
    (h : ∀ x ∈ xs, (f (node x)).result = .ok x) : ((xs.map node).mapM f).result = .ok xs := by
  induction xs with
  | nil => rfl
  | cons x xs ih =>
    have hrest := ih fun y hy ↦ h y (List.mem_cons_of_mem _ hy)
    rw [List.map_cons, List.mapM_cons, result_bind (h x List.mem_cons_self), result_bind hrest]
    rfl

/-- Surveying what a term is written as gives the term again. Parameters are excluded, because only
queries may have them. -/
theorem term_node {role : Role} {t : Term} (hrole : role ≠ .fact) (ht : t.isParam = false) :
    (term role t.node).result = .ok t := by
  cases t with
  | var name => simp only [Term.node, term, hrole, if_false]; rfl
  | const text => rfl
  | param name => cases ht

/-- The same for goals, whose arguments are surveyed one by one. -/
theorem goal_node {role : Role} {g : Goal} (hrole : role ≠ .fact)
    (hg : ∀ t ∈ g.args, t.isParam = false) : (goal role g.node).result = .ok g := by
  obtain ⟨functor, args⟩ := g
  cases args with
  | nil => rfl
  | cons t ts =>
    have hargs := result_mapM (f := term role) fun x hx ↦ term_node hrole (hg x hx)
    exact (result_bind hargs _).trans rfl

/-- The nodes of a rule without parameters are collected as that rule. -/
theorem rule_node {r : Rule} (hr : ∀ t ∈ r.terms, t.isParam = false) :
    (clause (.rule (Goal.mk r.name r.head).node (r.body.map Goal.node))).result = .ok (.rule r) := by
  have hhead : (goal .head (Goal.mk r.name r.head).node).result = .ok ⟨r.name, r.head⟩ :=
    goal_node (by decide) fun t ht ↦ hr t (List.mem_append_left _ ht)
  have hbody : ((r.body.map Goal.node).mapM (goal .body)).result = .ok r.body :=
    result_mapM fun g hg ↦ goal_node (by decide) fun t ht ↦
      hr t (List.mem_append_right _ (List.mem_flatMap.mpr ⟨g, hg, ht⟩))
  have hrule : (rule (Goal.mk r.name r.head).node (r.body.map Goal.node)).result = .ok r := by
    rw [rule, result_bind hhead, result_bind hbody]
    rfl
  rw [clause, result_bind hrule]
  rfl

end Survey

/-- A clause that is a rule makes a program of this rule alone. -/
theorem Draft.visit_rule (source : String) {c : Located} {r : Rule}
    (h : (Survey.clause c.node).result = .ok (.rule r)) :
    ∃ p : Program, Draft.visit { source } c = (⟨source, c.offset, p, 0⟩, none) ∧ p.rules = [r] ∧
      p.facts = [] ∧ p.queries = [] := by
  obtain ⟨vars, occurrences, heq⟩ := Program.foldl_register (Survey.clause c.node).entries {}
  refine ⟨{ (Draft.noted { source } c).program with rules := [r] }, ?_, rfl, ?_, ?_⟩
  · simp only [Draft.visit, h, Draft.noted, Draft.register, heq, Draft.add]
    rfl
  · simp only [Draft.program_noted, heq]
  · simp only [Draft.program_noted, heq]

/-- **A displayed rule is read as itself.** If the names in a rule of a program need no quotes, its
written form is a program whose only clause is that rule. -/
theorem Rule.parse_display {source : String} {parsed : Parsed}
    (h : Program.parse source = .ok parsed) {r : Rule} (hr : r ∈ parsed.program.rules)
    (hplain : r.Plain) :
    ∃ p : Program, Program.parse r.display = .ok ⟨p, 1, 0⟩ ∧ p.rules = [r] ∧ p.facts = [] ∧
      p.queries = [] := by
  have hwritten : r.Written := (Program.written_of_parse h).rules r hr
  have hknown : r.Known parsed.program.symbols := (Program.collected_of_parse h).closed.rules r hr
  obtain ⟨p, hvisit, hp⟩ := Draft.visit_rule (c := ⟨0, _⟩) r.display
    (Survey.rule_node fun t ht ↦ (hknown t ht).2)
  refine ⟨p, ?_, hp⟩
  simp only [Program.parse, Rule.parseTree_display hwritten hplain, bind, Except.bind, Draft.visitAll,
    hvisit]
  rfl

/-- A rule with names that were quoted and with numerals in every place where they may stand. -/
def numeralRule : Rule where
  name := "p"
  head := [.var "X", .const "b_1", .const "3.5"]
  body := [⟨"q", []⟩, ⟨".5", []⟩, ⟨"r", [.var "X", .const "7"]⟩, ⟨"42", []⟩]

theorem numeralRule_plain : numeralRule.Plain := by
  have hletter : ∀ c : Char, c.isLower → IsAtomName (String.ofList [c]) := fun c hc ↦
    ⟨c, [], String.toList_ofList, hc, by simp⟩
  have hdigit : ∀ c ∈ ['3', '5', '7', '4', '2'], ∀ d ∈ [c], d.isDigit := by simp
  have hb : IsPlain "b_1" := Or.inl ⟨'b', ['_', '1'], rfl, by decide, by simp; decide⟩
  have hdecimal : IsPlain "3.5" :=
    Or.inr ⟨['3'], hdigit _ (by simp), Or.inr ⟨['5'], by simp, hdigit _ (by simp), rfl⟩⟩
  have hfraction : IsPlain ".5" :=
    Or.inr ⟨[], by simp, Or.inr ⟨['5'], by simp, hdigit _ (by simp), rfl⟩⟩
  have hseven : IsPlain "7" := Or.inr ⟨['7'], hdigit _ (by simp), Or.inl ⟨by simp, rfl⟩⟩
  have hlast : IsPlain "42" := Or.inr ⟨['4', '2'], by simp, Or.inl ⟨by simp, rfl⟩⟩
  refine ⟨⟨by simp [numeralRule], fun _ ↦ hletter 'p' rfl, ?_⟩, ?_⟩
  · simp [numeralRule, hb, hdecimal]
  · simp only [numeralRule, List.forall_mem_cons]
    exact ⟨⟨fun _ ↦ Or.inl (hletter 'q' rfl), by simp, by simp⟩, ⟨fun _ ↦ hfraction, by simp, by simp⟩,
      ⟨by simp, fun _ ↦ hletter 'r' rfl, by simp [hseven]⟩, ⟨fun _ ↦ hlast, by simp, by simp⟩, by simp⟩

/-- Quotes that are not needed are not displayed, and the rule is read all the same. -/
theorem Rule.parse_display_numerals :
    ∃ parsed, Program.parse "'p'(X, 'b_1', '3.5') :- 'q', .5, r(X, 7), '42'." = .ok parsed ∧
      numeralRule ∈ parsed.program.rules ∧
      numeralRule.display = "p(X, b_1, 3.5) :- q, .5, r(X, 7), 42." ∧
      ∃ p : Program, Program.parse numeralRule.display = .ok ⟨p, 1, 0⟩ ∧ p.rules = [numeralRule] ∧
        p.facts = [] ∧ p.queries = [] := by
  refine ⟨_, rfl, List.mem_singleton.mpr rfl, rfl, ?_⟩
  exact @Rule.parse_display "'p'(X, 'b_1', '3.5') :- 'q', .5, r(X, 7), '42'." _ rfl _
    (List.mem_singleton.mpr rfl) numeralRule_plain

end HornQuery
