import Mathlib
import HornQuery.Proofs.Grammar

/-!
# Printed trees

`Printed` relates a tree to every text it may be printed as: names between quotes, an opening
parenthesis right behind the name it belongs to, and any layout at every other place between two
tokens of a clause. Between clauses stand blanks only, because a comment there is a clause.

Reading inverts printing, whatever layout was chosen (`parseTree_printed`). Two facts about single
characters carry the argument. Layout is skipped up to the first character of a token, which is
neither blank nor a percent sign; and whatever may stand behind a term (`Ends`) neither lengthens its
name nor opens arguments. The bounds on depth and number of items are met because the text of a term
is longer than the text of each of its arguments.
-/

namespace HornQuery

namespace Node

open Text Reader

/-! ### The texts of a tree -/

/-- Blanks, and comments up to their newline. -/
inductive IsLayout : List Char → Prop
  | nil : IsLayout []
  | blank {c : Char} {s : List Char} : isBlank c → IsLayout s → IsLayout (c :: s)
  | comment {text s : List Char} : '\n' ∉ text → IsLayout s →
      IsLayout ('%' :: (text ++ '\n' :: s))

/-- One or more items with commas between them and layout around each. -/
inductive Listed (item : Node → List Char → Prop) : List Node → List Char → Prop
  | last {t : Node} {a w b : List Char} : IsLayout a → item t w → IsLayout b →
      Listed item [t] (a ++ (w ++ b))
  | more {t : Node} {ts : List Node} {a w b v : List Char} : IsLayout a → item t w → IsLayout b →
      Listed item ts v → Listed item (t :: ts) (a ++ (w ++ (b ++ ',' :: v)))

/-- The texts of a term. -/
inductive TermText : Node → List Char → Prop
  | atom (text : String) : TermText (.atom text) ('\'' :: (text.toList ++ ['\'']))
  | var (name : String) : TermText (.var name) name.toList
  | param (name : String) : TermText (.param name) (':' :: name.toList)
  | compound (name : String) {args : List Node} {w : List Char} : Listed TermText args w →
      TermText (.compound name args) ('\'' :: (name.toList ++ '\'' :: '(' :: (w ++ [')'])))

/-- The texts of a clause. The text that a query keeps is not printed: it is found again in the
printed goals. -/
inductive ClauseText : Node → List Char → Prop
  | comment (text : String) : ClauseText (.comment text) ('%' :: (text.toList ++ ['\n']))
  | query {goals : List Node} (text : String) {w : List Char} : Listed TermText goals w →
      ClauseText (.query goals text) ('?' :: '-' :: (w ++ ['.']))
  | rule {head : Node} {body : List Node} {v a w : List Char} : TermText head v → IsLayout a →
      Listed TermText body w → ClauseText (.rule head body) (v ++ (a ++ ':' :: '-' :: (w ++ ['.'])))
  | fact {term : Node} {v a : List Char} : TermText term v → IsLayout a →
      ClauseText (.fact term) (v ++ (a ++ ['.']))

/-- The texts of the clauses of a tree from the byte `start` of a source on, with blanks before,
between and behind them. -/
inductive Printed : Nat → List Located → List Char → Prop
  | nil {start : Nat} {gap : List Char} : (∀ c ∈ gap, isBlank c) → Printed start [] gap
  | cons {start : Nat} {node : Node} {tree : List Located} {gap w s : List Char} :
      (∀ c ∈ gap, isBlank c) → ClauseText node w →
      Printed (start + utf8Length gap + utf8Length w) tree s →
      Printed start (⟨start + utf8Length gap, node⟩ :: tree) (gap ++ (w ++ s))

/-- A clause without the text that a query keeps. -/
def untexted : Node → Node
  | .query goals _ => .query goals ""
  | node => node

end Node

/-- A clause at its place, without the text that a query keeps. -/
def Located.untexted (c : Located) : Located :=
  ⟨c.offset, c.node.untexted⟩

namespace Node

open Text Reader

/-! ### Every well-formed tree can be printed -/

/-- Things that can be printed can be listed. -/
theorem exists_listed {item : Node → List Char → Prop} {ts : List Node} (hne : ts ≠ [])
    (hts : ∀ t ∈ ts, ∃ w, item t w) : ∃ w, Listed item ts w := by
  induction ts with
  | nil => exact absurd rfl hne
  | cons t ts ih =>
    obtain ⟨w, hw⟩ := hts t List.mem_cons_self
    cases ts with
    | nil => exact ⟨_, .last .nil hw .nil⟩
    | cons t' ts =>
      obtain ⟨v, hv⟩ := ih (by simp) fun u hu ↦ hts u (List.mem_cons_of_mem _ hu)
      exact ⟨_, .more .nil hw .nil hv⟩

/-- Every term can be printed, by quoting all its names. -/
theorem IsTerm.exists_text {t : Node} (h : t.IsTerm) : ∃ w, TermText t w := by
  induction h with
  | @atom text _ => exact ⟨_, .atom text⟩
  | @var name _ => exact ⟨_, .var name⟩
  | @param name _ => exact ⟨_, .param name⟩
  | @compound name args _ hne _ ih =>
    obtain ⟨w, hw⟩ := exists_listed hne ih
    exact ⟨_, .compound name hw⟩

/-- Every well-formed clause can be printed. -/
theorem WellFormed.exists_text {node : Node} (h : node.WellFormed) : ∃ w, ClauseText node w := by
  cases h with
  | @comment text _ => exact ⟨_, .comment text⟩
  | @query goals text hne hgoals =>
    obtain ⟨w, hw⟩ := exists_listed hne fun g hg ↦ (hgoals g hg).exists_text
    exact ⟨_, .query text hw⟩
  | rule hhead hne hbody =>
    obtain ⟨v, hv⟩ := hhead.exists_text
    obtain ⟨w, hw⟩ := exists_listed hne fun g hg ↦ (hbody g hg).exists_text
    exact ⟨_, .rule hv .nil hw⟩
  | fact hterm =>
    obtain ⟨v, hv⟩ := hterm.exists_text
    exact ⟨_, .fact hv .nil⟩

theorem space_blank : ∀ c ∈ [' '], isBlank c := by
  intro c hc
  obtain rfl := List.mem_singleton.mp hc
  decide

/-- So every list of clauses can, with a space before each. -/
theorem exists_printed (start : Nat) {nodes : List Node} (h : ∀ n ∈ nodes, n.WellFormed) :
    ∃ tree text, tree.map Located.node = nodes ∧ Printed start tree text := by
  induction nodes generalizing start with
  | nil => exact ⟨[], [], rfl, .nil (by simp)⟩
  | cons node nodes ih =>
    obtain ⟨w, hw⟩ := (h node List.mem_cons_self).exists_text
    obtain ⟨tree, text, hmap, hprinted⟩ :=
      ih (start + utf8Length [' '] + utf8Length w) fun n hn ↦ h n (List.mem_cons_of_mem _ hn)
    exact ⟨⟨start + utf8Length [' '], node⟩ :: tree, _, by simp [hmap], .cons space_blank hw hprinted⟩

namespace Reader

/-! ### Layout -/

theorem skipComment_append {text : List Char} (h : '\n' ∉ text) (s : List Char) :
    skipComment (text ++ '\n' :: s) = skipLayout s := by
  induction text with
  | nil => simp [skipComment]
  | cons c text ih =>
    obtain ⟨hc, htext⟩ := not_or.mp (mt List.mem_cons.mpr h)
    rw [List.cons_append, skipComment, if_neg (Ne.symm hc), ih htext]

/-- Layout is skipped as a whole, whatever follows. -/
theorem skipLayout_append {a : List Char} (ha : IsLayout a) (s : List Char) :
    skipLayout (a ++ s) = skipLayout s := by
  induction ha with
  | nil => rfl
  | blank hc _ ih => rw [List.cons_append, skipLayout, if_pos hc, ih]
  | @comment text b htext _ ih =>
    rw [List.cons_append, skipLayout, if_neg (by decide), if_pos rfl, List.append_assoc,
      List.cons_append, skipComment_append htext, ih]

theorem skipLayout_cons {c : Char} (hc : isBlank c = false) (hpercent : c ≠ '%') (s : List Char) :
    skipLayout (c :: s) = c :: s := by
  rw [skipLayout, if_neg (by simp [hc]), if_neg hpercent]

/-! ### What may stand behind a term -/

/-- A term may end before `s`: the next character neither continues a name nor opens arguments. -/
def Ends (s : List Char) : Prop :=
  ∀ c ∈ s.head?, isNameChar c = false ∧ c ≠ '('

/-- Names are made of ASCII digits, letters and underscores. -/
theorem toNat_of_isNameChar {c : Char} (h : isNameChar c) :
    (48 ≤ c.toNat ∧ c.toNat ≤ 57) ∨ (65 ≤ c.toNat ∧ c.toNat ≤ 90) ∨
      (97 ≤ c.toNat ∧ c.toNat ≤ 122) ∨ c.toNat = 95 := by
  simp only [isNameChar, Char.isAlphanum, Char.isAlpha, Char.isUpper, Char.isLower, Char.isDigit,
    Bool.or_eq_true, Bool.and_eq_true, decide_eq_true_eq, beq_iff_eq, ge_iff_le,
    UInt32.le_iff_toNat_le] at h
  rcases h with ((h | h) | h) | rfl
  · exact Or.inr (Or.inl h)
  · exact Or.inr (Or.inr (Or.inl h))
  · exact Or.inl h
  · decide

/-- No character of a name is blank. -/
theorem not_isBlank_of_isNameChar {c : Char} (h : isNameChar c) : isBlank c = false := by
  have hrange := toNat_of_isNameChar h
  simp only [isBlank, blankRanges, List.any_cons, List.any_nil, Bool.or_false, Bool.or_eq_false_iff,
    Bool.and_eq_false_iff, decide_eq_false_iff_not]
  omega

/-- A token that is neither part of a name nor an opening parenthesis ends a term. -/
theorem ends_cons {c : Char} (hname : isNameChar c = false) (hopen : c ≠ '(') (s : List Char) :
    Ends (c :: s) := by
  rintro d hd
  obtain rfl := Option.some.inj hd
  exact ⟨hname, hopen⟩

/-- Layout before it makes no difference. -/
theorem ends_append {a s : List Char} (ha : IsLayout a) (hs : Ends s) : Ends (a ++ s) := by
  cases ha with
  | nil => exact hs
  | @blank c b hc _ =>
    refine ends_cons ?_ ?_ _
    · by_contra hname
      rw [not_isBlank_of_isNameChar (by simpa using hname)] at hc
      cases hc
    · rintro rfl
      exact absurd hc (by decide)
  | comment => exact ends_cons (by decide) (by decide) _

/-! ### Terms -/

/-- A name is read up to where it ends. -/
theorem name_append {l s : List Char} (hl : ∀ c ∈ l, isNameChar c) (hs : Ends s) :
    name (l ++ s) = (String.ofList l, s) := by
  have hstop : s.takeWhile isNameChar = [] ∧ s.dropWhile isNameChar = s := by
    cases s with
    | nil => exact ⟨rfl, rfl⟩
    | cons c s =>
      have hc := (hs c rfl).1
      simp [hc]
  rw [name, List.takeWhile_append_of_pos hl, List.dropWhile_append_of_pos hl, hstop.1, hstop.2,
    List.append_nil]

/-- A quoted name is read up to its closing quote. -/
theorem quoted_append (start : List Char) {text : String} (h : IsQuotable text) (s : List Char) :
    quoted start (text.toList ++ '\'' :: s) = .ok (text, s) := by
  have hpos : ∀ c ∈ text.toList, (decide (c ≠ '\'') && decide (c ≠ '\n')) = true := by
    intro c hc
    simpa using h c hc
  rw [quoted, List.takeWhile_append_of_pos hpos, List.dropWhile_append_of_pos hpos]
  simp

/-- The first character of a text of a term starts a token, and no clause of another kind. -/
theorem termText_eq_cons {t : Node} {w : List Char} (hw : TermText t w) (ht : t.IsTerm) :
    ∃ c r, w = c :: r ∧ isBlank c = false ∧ c ≠ '%' ∧ c ≠ '?' := by
  cases hw with
  | atom => exact ⟨_, _, rfl, by decide⟩
  | param => exact ⟨_, _, rfl, by decide⟩
  | compound => exact ⟨_, _, rfl, by decide⟩
  | var =>
    cases ht with
    | var hname =>
      obtain ⟨c, r, heq, hupper, -⟩ := hname
      refine ⟨c, r, heq, not_isBlank_of_isNameChar (isNameChar_of_isUpper hupper), ?_, ?_⟩
      · rintro rfl
        exact absurd hupper (by decide)
      · rintro rfl
        exact absurd hupper (by decide)

/-- Behind a quoted name, as behind a plain one, there may be arguments. -/
theorem term_quoted {depth : Nat} {a : List Char} (ha : IsLayout a) {text : String}
    (h : IsQuotable text) (s : List Char) :
    term (depth + 1) (a ++ '\'' :: (text.toList ++ '\'' :: s)) =
      application (commaList (term depth) depth) text s := by
  have hstart : ∀ r, startsNumeral ('\'' :: r) = false := by
    intro r
    cases r <;> rfl
  rw [term, skipLayout_append ha, skipLayout_cons (by decide) (by decide)]
  simp only [hstart, quoted_append _ h]
  rfl

theorem term_param {depth : Nat} {a : List Char} (ha : IsLayout a) {text : String}
    (h : IsParamName text) {s : List Char} (hs : Ends s) :
    term (depth + 1) (a ++ ':' :: (text.toList ++ s)) = .ok (.param text, s) := by
  have hstart : ∀ r, startsNumeral (':' :: r) = false := by
    intro r
    cases r <;> rfl
  have hempty : text.isEmpty = false := by
    simpa using h.1
  rw [term, skipLayout_append ha, skipLayout_cons (by decide) (by decide)]
  simp [hstart, name_append h.2 hs, hempty]

theorem term_var {depth : Nat} {a : List Char} (ha : IsLayout a) {text : String}
    (h : IsVarName text) {s : List Char} (hs : Ends s) :
    term (depth + 1) (a ++ (text.toList ++ s)) = .ok (.var text, s) := by
  obtain ⟨c, r, heq, hupper, hr⟩ := h
  have hname : isNameChar c := isNameChar_of_isUpper hupper
  have hrange : 65 ≤ c.toNat ∧ c.toNat ≤ 90 := by
    simpa [Char.isUpper, UInt32.le_iff_toNat_le] using hupper
  have hdigit : c.isDigit = false := by
    simp only [Char.isDigit, Bool.and_eq_false_iff, decide_eq_false_iff_not, ge_iff_le,
      UInt32.le_iff_toNat_le]
    right
    change ¬ c.toNat ≤ 57
    omega
  -- A capital letter is neither a digit nor a period, so no numeral starts here.
  have hstart : startsNumeral (c :: (r ++ s)) = false := by
    unfold startsNumeral
    split
    · rename_i heq
      obtain ⟨rfl, -⟩ := List.cons.inj heq
      exact absurd hupper (by decide)
    · rename_i heq
      obtain ⟨rfl, -⟩ := List.cons.inj heq
      exact hdigit
    · rfl
  have hpercent : c ≠ '%' := by
    rintro rfl
    exact absurd hupper (by decide)
  have hcolon : c ≠ ':' := by
    rintro rfl
    exact absurd hupper (by decide)
  have hread : name (c :: (r ++ s)) = (text, s) := by
    rw [← List.cons_append, name_append (by simpa [hname] using hr) hs, ← heq, String.ofList_toList]
  rw [heq, List.cons_append, term, skipLayout_append ha,
    skipLayout_cons (not_isBlank_of_isNameChar hname) hpercent]
  simp [hstart, hcolon, hupper, hread]

/-- Items are read back one by one, if each is and there is a closing token behind them. -/
theorem commaList_listed (item : List Char → Except Failure (Node × List Char)) {m : Nat}
    {ts : List Node} {w : List Char} (hw : Listed TermText ts w) (hm : w.length ≤ m)
    (hitem : ∀ t ∈ ts, ∀ u a s, TermText t u → u.length ≤ m → IsLayout a → Ends s →
      item (a ++ (u ++ s)) = .ok (t, s))
    {bound : Nat} (hbound : w.length < bound) {close : Char} (hclose : close = ')' ∨ close = '.')
    (s : List Char) : commaList item bound (w ++ close :: s) = .ok (ts, close :: s) := by
  have hsolid : isBlank close = false ∧ close ≠ '%' ∧ isNameChar close = false ∧ close ≠ '(' := by
    rcases hclose with rfl | rfl <;> decide
  induction hw generalizing bound with
  | @last t a u b ha hu hb =>
    obtain ⟨bound, rfl⟩ : ∃ n, bound = n + 1 := ⟨bound - 1, by omega⟩
    simp only [List.length_append] at hm
    have hread := hitem t List.mem_cons_self u a (b ++ close :: s) hu (by omega) ha
      (ends_append hb (ends_cons hsolid.2.2.1 hsolid.2.2.2 _))
    rw [List.append_assoc, List.append_assoc, commaList, hread]
    simp only [bind, Except.bind, skipLayout_append hb, skipLayout_cons hsolid.1 hsolid.2.1]
    rcases hclose with rfl | rfl <;> rfl
  | @more t ts a u b v ha hu hb _ ih =>
    obtain ⟨bound, rfl⟩ : ∃ n, bound = n + 1 := ⟨bound - 1, by omega⟩
    simp only [List.length_append, List.length_cons] at hm hbound
    have hread := hitem t List.mem_cons_self u a (b ++ ',' :: (v ++ close :: s)) hu (by omega) ha
      (ends_append hb (ends_cons (by decide) (by decide) _))
    have hrest := ih (by omega) (fun t ht ↦ hitem t (List.mem_cons_of_mem _ ht))
      (show v.length < bound by omega)
    simp only [List.append_assoc, List.cons_append]
    rw [commaList, hread]
    simp only [bind, Except.bind, skipLayout_append hb, skipLayout_cons (c := ',') (by decide)
      (by decide), hrest]
    rfl

/-- A printed term is read back if the depth exceeds the length of its text. -/
theorem term_printed (depth : Nat) {t : Node} {w a s : List Char} (hw : TermText t w)
    (ht : t.IsTerm) (hdepth : w.length < depth) (ha : IsLayout a) (hs : Ends s) :
    term depth (a ++ (w ++ s)) = .ok (t, s) := by
  induction depth generalizing t w a s with
  | zero => omega
  | succ depth ih =>
    cases ht with
    | @atom text htext =>
      cases hw
      simp only [List.cons_append, List.append_assoc, List.nil_append]
      rw [term_quoted ha htext]
      unfold application
      split
      · exact absurd rfl (hs '(' rfl).2
      · rfl
    | var hname =>
      cases hw
      exact term_var ha hname hs
    | param hname =>
      cases hw
      exact term_param ha hname hs
    | @compound name args hname hne hargs =>
      cases hw with
      | @compound _ _ v hv =>
        simp only [List.length_cons, List.length_append, List.length_nil] at hdepth
        -- The arguments are shorter than the whole, so they may be one level less deep.
        have hread := commaList_listed (term depth) hv (Nat.le_refl _)
          (fun t ht u a s hu hlen ha hs ↦ ih hu (hargs t ht) (by omega) ha hs)
          (show v.length < depth by omega) (Or.inl rfl) s
        simp only [List.cons_append, List.append_assoc, List.nil_append]
        rw [term_quoted ha hname, application, hread]
        rfl

/-! ### Clauses -/

/-- Printed goals are read back up to the period. -/
theorem goals_printed {gs : List Node} {w : List Char} (hw : Listed TermText gs w)
    (hgs : ∀ g ∈ gs, g.IsTerm) (s : List Char) : goals (w ++ '.' :: s) = .ok (gs, '.' :: s) := by
  have hlen : w.length < (w ++ '.' :: s).length + 1 := by
    simp only [List.length_append]
    omega
  have hread := commaList_listed (term ((w ++ '.' :: s).length + 1)) hw (Nat.le_refl _)
    (fun t ht u a r hu hle ha hr ↦ term_printed _ hu (hgs t ht) (by omega) ha hr) hlen
    (Or.inr rfl) s
  rw [goals, hread]
  rfl

/-- The layout before the first item is skipped, and nothing else. -/
theorem skipLayout_listed {gs : List Node} {w : List Char} (hw : Listed TermText gs w)
    (hgs : ∀ g ∈ gs, g.IsTerm) (s : List Char) :
    ∃ v, Listed TermText gs v ∧ skipLayout (w ++ s) = v ++ s := by
  cases hw with
  | @last t a u b ha hu hb =>
    obtain ⟨c, r, rfl, hblank, hpercent, -⟩ := termText_eq_cons hu (hgs t List.mem_cons_self)
    refine ⟨_, .last .nil hu hb, ?_⟩
    rw [List.append_assoc, skipLayout_append ha]
    exact skipLayout_cons hblank hpercent _
  | @more t ts a u b v ha hu hb hv =>
    obtain ⟨c, r, rfl, hblank, hpercent, -⟩ := termText_eq_cons hu (hgs t List.mem_cons_self)
    refine ⟨_, .more .nil hu hb hv, ?_⟩
    rw [List.append_assoc, skipLayout_append ha]
    exact skipLayout_cons hblank hpercent _

theorem skipLine_append {text : List Char} (h : '\n' ∉ text) (s : List Char) :
    skipLine (text ++ '\n' :: s) = s := by
  induction text with
  | nil => simp [skipLine]
  | cons c text ih =>
    obtain ⟨hc, htext⟩ := not_or.mp (mt List.mem_cons.mpr h)
    rw [List.cons_append, skipLine, if_neg (Ne.symm hc), ih htext]

/-- A comment is read back, because it has no newline in it. -/
theorem comment_append {text : String} (h : IsCommentText text) (s : List Char) :
    comment (text.toList ++ '\n' :: s) = (.comment text, s) := by
  have hpos : ∀ c ∈ text.toList, decide (c ≠ '\n') = true := by
    intro c hc
    exact decide_eq_true (ne_of_mem_of_not_mem hc h.1)
  have hkeep : text.toList.reverse.dropWhile (fun c ↦ decide (c = '\r')) = text.toList.reverse := by
    cases hrev : text.toList.reverse with
    | nil => rfl
    | cons c r =>
      have hc : c ≠ '\r' := by
        rintro rfl
        apply h.2
        rw [← List.head?_reverse, hrev]
        rfl
      simp [hc]
  rw [comment, skipLine_append h.1, List.takeWhile_append_of_pos hpos]
  simp [hkeep]

/-- The text of a clause starts with it. -/
theorem clauseText_eq_cons {node : Node} {w : List Char} (hw : ClauseText node w)
    (hnode : node.WellFormed) : ∃ c r, w = c :: r ∧ isBlank c = false := by
  cases hw with
  | comment => exact ⟨_, _, rfl, by decide⟩
  | query => exact ⟨_, _, rfl, by decide⟩
  | rule hv =>
    cases hnode with
    | rule hhead =>
      obtain ⟨c, r, rfl, hblank, -⟩ := termText_eq_cons hv hhead
      exact ⟨c, _, rfl, hblank⟩
  | fact hv =>
    cases hnode with
    | fact hterm =>
      obtain ⟨c, r, rfl, hblank, -⟩ := termText_eq_cons hv hterm
      exact ⟨c, _, rfl, hblank⟩

/-- A clause that starts with neither mark is a rule or a fact. -/
theorem clause_eq_assertion {c : Char} (hpercent : c ≠ '%') (hquery : c ≠ '?') (s : List Char) :
    clause (c :: s) = assertion (c :: s) := by
  unfold clause
  split
  · rename_i heq
    exact absurd (List.cons.inj heq).1 hpercent
  · rename_i heq
    exact absurd (List.cons.inj heq).1 hquery
  · rfl

/-- A printed clause is read back, but for the text that a query keeps. -/
theorem clause_printed {node : Node} {w : List Char} (hw : ClauseText node w)
    (hnode : node.WellFormed) (s : List Char) :
    ∃ found, clause (w ++ s) = .ok (found, s) ∧ found.untexted = node.untexted := by
  cases hnode with
  | @comment text htext =>
    cases hw
    refine ⟨.comment text, ?_, rfl⟩
    simp only [List.cons_append, List.append_assoc, List.nil_append]
    rw [clause, comment_append htext]
  | @query goals text _ hgoals =>
    cases hw with
    | @query _ _ v hv =>
      obtain ⟨u, hu, hskip⟩ := skipLayout_listed hv hgoals ('.' :: s)
      refine ⟨.query goals (String.ofList (trim (consumed (u ++ '.' :: s) ('.' :: s)))), ?_, rfl⟩
      simp only [List.cons_append, List.append_assoc, List.nil_append]
      rw [clause, query, hskip, goals_printed hu hgoals]
      rfl
  | @rule head body hhead _ hbody =>
    cases hw with
    | @rule _ _ v a u hv ha hu =>
      -- A printed term starts with neither mark, so the clause is not taken for a comment or a
      -- query.
      obtain ⟨c, r, rfl, -, hpercent, hquery⟩ := termText_eq_cons hv hhead
      refine ⟨.rule head body, ?_, rfl⟩
      have hread := term_printed (((c :: r) ++ (a ++ ':' :: '-' :: (u ++ '.' :: s))).length + 1)
        hv hhead (by simp only [List.length_append]; omega) .nil
        (ends_append ha (ends_cons (c := ':') (by decide) (by decide) ('-' :: (u ++ '.' :: s))))
      rw [List.nil_append] at hread
      simp only [List.append_assoc, List.cons_append, List.nil_append] at hread ⊢
      rw [clause_eq_assertion hpercent hquery, assertion, hread]
      simp only [bind, Except.bind, skipLayout_append ha, skipLayout_cons (c := ':') (by decide)
        (by decide), goals_printed hu hbody]
      rfl
  | @fact term hterm =>
    cases hw with
    | @fact _ v a hv ha =>
      obtain ⟨c, r, rfl, -, hpercent, hquery⟩ := termText_eq_cons hv hterm
      refine ⟨.fact term, ?_, rfl⟩
      have hread := term_printed (((c :: r) ++ (a ++ '.' :: s)).length + 1) hv hterm
        (by simp only [List.length_append]; omega) .nil
        (ends_append ha (ends_cons (c := '.') (by decide) (by decide) s))
      rw [List.nil_append] at hread
      simp only [List.append_assoc, List.cons_append, List.nil_append] at hread ⊢
      rw [clause_eq_assertion hpercent hquery, assertion, hread]
      simp only [bind, Except.bind, skipLayout_append ha, skipLayout_cons (c := '.') (by decide)
        (by decide)]
      rfl

/-- Printed clauses are read back, each at the byte at which it was printed. -/
theorem clauses_printed {start : Nat} {tree : List Located} {s : List Char}
    (h : Printed start tree s) (htree : ∀ c ∈ tree, c.node.WellFormed) {bound : Nat}
    (hbound : s.length ≤ bound) :
    ∃ found, clauses bound s = .ok found ∧ ∀ before, utf8Length before = start →
      found.map (fun entry ↦ Located.untexted ⟨offsetOf (before ++ s) entry.1, entry.2⟩) =
        tree.map Located.untexted := by
  induction h generalizing bound with
  | @nil start gap hgap =>
    refine ⟨[], ?_, fun _ _ ↦ rfl⟩
    cases bound with
    | zero => rfl
    | succ bound =>
      rw [clauses, List.dropWhile_eq_nil_iff.mpr hgap]
  | @cons start node tree gap w s hgap hw _ ih =>
    obtain ⟨c, r, rfl, hblank⟩ := clauseText_eq_cons hw (htree _ List.mem_cons_self)
    simp only [List.length_append, List.length_cons] at hbound
    obtain ⟨bound, rfl⟩ : ∃ n, bound = n + 1 := ⟨bound - 1, by omega⟩
    obtain ⟨first, hfirst, hnode⟩ := clause_printed hw (htree _ List.mem_cons_self) s
    obtain ⟨more, hmore, hrest⟩ :=
      ih (fun c hc ↦ htree c (List.mem_cons_of_mem _ hc)) (show s.length ≤ bound by omega)
    have hdrop : (gap ++ ((c :: r) ++ s)).dropWhile isBlank = c :: (r ++ s) := by
      rw [List.dropWhile_append_of_pos hgap]
      simp [hblank]
    refine ⟨((c :: r) ++ s, first) :: more, ?_, ?_⟩
    · rw [clauses, hdrop]
      simp only [← List.cons_append, hfirst, bind, Except.bind, hmore]
      rfl
    · intro before hbefore
      have hoffset : offsetOf (before ++ (gap ++ ((c :: r) ++ s))) ((c :: r) ++ s) =
          start + utf8Length gap := by
        simp only [offsetOf, utf8Length_append, hbefore]
        omega
      -- The offsets of the rest are counted from the end of this clause.
      have htail := hrest (before ++ (gap ++ (c :: r))) (by simp [hbefore, Nat.add_assoc])
      simp only [List.append_assoc] at htail
      rw [List.map_cons, List.map_cons, hoffset, htail, Located.untexted, Located.untexted, hnode]

end Reader

/-- A printed tree is read back, apart from the texts of its queries. -/
theorem parseTree_of_printed {tree : List Located} {text : List Char} (h : Printed 0 tree text)
    (htree : ∀ c ∈ tree, c.node.WellFormed) :
    (parseTree (String.ofList text)).map (List.map Located.untexted) =
      .ok (tree.map Located.untexted) := by
  obtain ⟨found, hfound, heq⟩ := Reader.clauses_printed h htree (Nat.le_refl _)
  have hread := heq [] rfl
  simp only [parseTree, String.toList_ofList, hfound, Except.map, List.map_map]
  exact congrArg Except.ok hread

/-- **Reading and printing agree.** Whatever layout is chosen, a printed tree is read back, with every
clause at the byte at which it was printed; every well-formed tree can be printed; and every tree that
is read is well formed. -/
theorem parseTree_printed :
    (∀ (tree : List Located) (text : List Char), (∀ c ∈ tree, c.node.WellFormed) →
        Printed 0 tree text →
        (parseTree (String.ofList text)).map (List.map Located.untexted) =
          .ok (tree.map Located.untexted)) ∧
      (∀ nodes : List Node, (∀ n ∈ nodes, n.WellFormed) →
        ∃ tree text, tree.map Located.node = nodes ∧ Printed 0 tree text) ∧
      ∀ (source : String) (tree : List Located), parseTree source = .ok tree →
        ∀ c ∈ tree, c.node.WellFormed :=
  ⟨fun _ _ htree h ↦ parseTree_of_printed h htree, fun _ ↦ exists_printed 0,
    fun _ _ ↦ parseTree_wellFormed⟩

/-- Quoted names that look like other tokens, a parameter before a rule's mark, and a comment inside a
clause behind one that is a clause. -/
theorem parseTree_printed_marks :
    (parseTree "%é\n '-'( :1 ) %.\n:-':-'(X).").map (List.map Located.untexted) =
      .ok [⟨0, .comment "é"⟩,
        ⟨5, .rule (.compound "-" [.param "1"]) [.compound ":-" [.var "X"]]⟩] := by
  have hspace : IsLayout [' '] := .blank (by decide) .nil
  have hlayout : IsLayout [' ', '%', '.', '\n'] :=
    .blank (by decide) (.comment (by decide : '\n' ∉ ['.']) .nil)
  have hhead : (Node.compound "-" [.param "1"]).IsTerm := by
    refine .compound (by simp [IsQuotable]) (by simp) fun a ha ↦ ?_
    obtain rfl := List.mem_singleton.mp ha
    exact .param (by simp [IsParamName, isNameChar])
  have hgoal : (Node.compound ":-" [.var "X"]).IsTerm := by
    refine .compound (by simp [IsQuotable]) (by simp) fun a ha ↦ ?_
    obtain rfl := List.mem_singleton.mp ha
    exact .var ⟨'X', [], by simp, by decide, by simp⟩
  have hrule := ClauseText.rule (.compound "-" (.last hspace (.param "1") hspace)) hlayout
    (.last .nil (TermText.compound ":-" (.last .nil (.var "X") .nil)) .nil)
  have hprinted : Printed 0
      [⟨0, .comment "é"⟩, ⟨5, .rule (.compound "-" [.param "1"]) [.compound ":-" [.var "X"]]⟩] _ :=
    .cons (by simp : ∀ c ∈ [], isBlank c) (.comment "é")
      (.cons space_blank hrule (.nil (by simp : ∀ c ∈ [], isBlank c)))
  have hread := parseTree_printed.1 _ _ ?_ hprinted
  · simpa [Located.untexted, untexted] using hread
  · rintro c hc
    rcases List.mem_pair.mp hc with rfl | rfl
    · exact .comment (by simp [IsCommentText])
    · refine .rule hhead (by simp) fun g hg ↦ ?_
      obtain rfl := List.mem_singleton.mp hg
      exact hgoal

end Node

end HornQuery
