import Mathlib
import HornQuery.Proofs.Printing

/-!
# What a reader looks at

A reader takes the whole text that is left, but what it finds depends on little of it. A term is found
in the text up to its end, and of what follows only two characters matter: the next one could continue
a name or open arguments, and a period could belong to a numeral if a digit stands behind it. So if the
rest of a text is replaced by one that looks alike in this respect (`Resembles`), the same term is read
(`term_spells`), and likewise a list of terms (`commaList_spells`, `goals_spells`).

The texts that terms and lists of terms are read from start and end with characters that are not
layout, and leave neither quotes nor a comment open (`Solid`).
-/

namespace HornQuery.Node.Reader

open Text

variable {a r s t u u' v w z z' : List Char} {c : Char}

/-! ### Longest runs -/

/-- A run of characters ends where the next character does not belong to it. -/
theorem span_append {p : Char → Bool} (hw : ∀ c ∈ w, p c = true) (hu : ∀ c ∈ u.head?, p c = false) :
    (w ++ u).takeWhile p = w ∧ (w ++ u).dropWhile p = u := by
  have hstop : u.takeWhile p = [] ∧ u.dropWhile p = u := by
    cases u with
    | nil => exact ⟨rfl, rfl⟩
    | cons c u => simp [hu c rfl]
  rw [List.takeWhile_append_of_pos hw, List.dropWhile_append_of_pos hw, hstop.1, hstop.2,
    List.append_nil]
  exact ⟨rfl, rfl⟩

/-- Every text is a run of characters and a rest that starts with another one. -/
theorem exists_span (p : Char → Bool) (s : List Char) : ∃ w u, s = w ++ u ∧ s.takeWhile p = w ∧
    s.dropWhile p = u ∧ (∀ c ∈ w, p c = true) ∧ ∀ c ∈ u.head?, p c = false := by
  refine ⟨_, _, List.takeWhile_append_dropWhile.symm, rfl, rfl, fun c hc ↦ List.mem_takeWhile_imp hc,
    fun c hc ↦ ?_⟩
  have hnot := List.head?_dropWhile_not p s
  rw [Option.mem_def.mp hc] at hnot
  simpa using hnot

/-! ### Layout -/

/-- What is skipped before a token is layout. Behind a percent sign it is the rest of a line and
layout. -/
theorem exists_layout (s : List Char) :
    (∀ c r, skipLayout s = c :: r →
        ∃ a, IsLayout a ∧ s = a ++ c :: r ∧ isBlank c = false ∧ c ≠ '%') ∧
      ∀ c r, skipComment s = c :: r → ∃ text a, '\n' ∉ text ∧ IsLayout a ∧
        s = text ++ '\n' :: (a ++ c :: r) ∧ isBlank c = false ∧ c ≠ '%' := by
  induction s with
  | nil => simp [skipLayout, skipComment]
  | cons d s ih =>
    refine ⟨fun c r h ↦ ?_, fun c r h ↦ ?_⟩
    · rw [skipLayout] at h
      split_ifs at h with hblank hpercent
      · obtain ⟨a, ha, rfl, hc⟩ := ih.1 c r h
        exact ⟨d :: a, .blank hblank ha, rfl, hc⟩
      · obtain ⟨text, a, htext, ha, rfl, hc⟩ := ih.2 c r h
        exact ⟨'%' :: (text ++ '\n' :: a), .comment htext ha, by simp [hpercent], hc⟩
      · obtain ⟨rfl, rfl⟩ := List.cons.inj h
        exact ⟨[], .nil, rfl, by simpa using hblank, hpercent⟩
    · rw [skipComment] at h
      split_ifs at h with hnewline
      · obtain ⟨a, ha, rfl, hc⟩ := ih.1 c r h
        exact ⟨[], a, List.not_mem_nil, ha, by rw [hnewline]; rfl, hc⟩
      · obtain ⟨text, a, htext, ha, rfl, hc⟩ := ih.2 c r h
        exact ⟨d :: text, a, by simp [htext, Ne.symm hnewline], ha, rfl, hc⟩

/-- What is skipped is layout, and what comes behind it starts with neither a blank nor a
comment. -/
theorem skipLayout_eq_cons (h : skipLayout s = c :: r) :
    ∃ a, IsLayout a ∧ s = a ++ c :: r ∧ isBlank c = false ∧ c ≠ '%' :=
  (exists_layout s).1 c r h

/-- Where a token follows, skipping layout does not depend on what stands behind the token. -/
theorem skipLayout_append_of_eq_cons (h : skipLayout s = c :: r) (t : List Char) :
    skipLayout (s ++ t) = c :: (r ++ t) := by
  obtain ⟨a, ha, rfl, hblank, hpercent⟩ := skipLayout_eq_cons h
  rw [List.append_assoc, skipLayout_append ha, List.cons_append, skipLayout_cons hblank hpercent]

@[simp] theorem skipLayout_skipLayout (s : List Char) : skipLayout (skipLayout s) = skipLayout s := by
  cases h : skipLayout s with
  | nil => rfl
  | cons c r =>
    obtain ⟨-, -, -, hblank, hpercent⟩ := skipLayout_eq_cons h
    exact skipLayout_cons hblank hpercent r

/-- A token that was expected and found is the first thing behind the layout. -/
theorem expect_eq_ok {token : Char} (h : expect token s = .ok r) : skipLayout s = token :: r := by
  rw [expect] at h
  split at h
  · rename_i c rest heq
    split_ifs at h with htoken
    rw [heq, htoken, Except.ok.inj h]
  · cases h

theorem expect_of_skipLayout {token : Char} (h : skipLayout s = token :: r) :
    expect token s = .ok r := by
  rw [expect, h]
  simp

/-! ### What is left open -/

mutual

/-- Whether a text that starts outside of quotes and comments ends inside a comment. -/
def endsInComment : List Char → Bool
  | [] => false
  | c :: s =>
    if c = '%' then endsInLine s else if c = '\'' then endsInQuoted s else endsInComment s

/-- Whether a text that starts inside a comment ends inside a comment. -/
def endsInLine : List Char → Bool
  | [] => true
  | c :: s => if c = '\n' then endsInComment s else endsInLine s

/-- Whether a text that starts inside quotes ends inside a comment. -/
def endsInQuoted : List Char → Bool
  | [] => false
  | c :: s => if c = '\'' then endsInComment s else endsInQuoted s

end

/-- The text leaves neither quotes nor a comment open. -/
def Balanced (w : List Char) : Prop :=
  ∀ z, endsInComment (w ++ z) = endsInComment z

theorem Balanced.append (hv : Balanced v) (hw : Balanced w) : Balanced (v ++ w) := fun z ↦ by
  rw [List.append_assoc, hv, hw]

/-- Without percent signs and quotes nothing can be left open. -/
theorem balanced_of_plain (hw : ∀ c ∈ w, c ≠ '%' ∧ c ≠ '\'') : Balanced w := by
  intro z
  induction w with
  | nil => rfl
  | cons c w ih =>
    obtain ⟨⟨hpercent, hquote⟩, hw⟩ := List.forall_mem_cons.mp hw
    rw [List.cons_append, endsInComment, if_neg hpercent, if_neg hquote, ih hw]

/-- A percent sign between quotes does not open a comment. -/
theorem balanced_quoted (hw : '\'' ∉ w) : Balanced ('\'' :: (w ++ ['\''])) := by
  intro z
  have hinside : endsInQuoted (w ++ '\'' :: z) = endsInComment z := by
    induction w with
    | nil => simp [endsInQuoted]
    | cons c w ih =>
      obtain ⟨hc, hw⟩ := not_or.mp (mt List.mem_cons.mpr hw)
      rw [List.cons_append, endsInQuoted, if_neg (Ne.symm hc), ih hw]
  rw [List.cons_append, endsInComment, if_neg (by decide), if_pos rfl, List.append_assoc]
  exact hinside

theorem endsInLine_append (hw : '\n' ∉ w) (z : List Char) : endsInLine (w ++ z) = endsInLine z := by
  induction w with
  | nil => rfl
  | cons c w ih =>
    obtain ⟨hc, hw⟩ := not_or.mp (mt List.mem_cons.mpr hw)
    rw [List.cons_append, endsInLine, if_neg (Ne.symm hc), ih hw]

/-- Layout ends its comments. -/
theorem balanced_layout (ha : IsLayout a) : Balanced a := by
  induction ha with
  | nil => exact fun _ ↦ rfl
  | @blank c a hc _ ih =>
    refine Balanced.append (v := [c]) (balanced_of_plain ?_) ih
    intro d hd
    obtain rfl := List.mem_singleton.mp hd
    constructor <;> rintro rfl
    · exact absurd hc (by decide)
    · exact absurd hc (by decide)
  | @comment text a htext _ ih =>
    intro z
    rw [List.cons_append, endsInComment, if_pos rfl, List.append_assoc, endsInLine_append htext,
      List.cons_append, endsInLine, if_pos rfl, ih]

/-- The text starts and ends with characters that are not layout, and leaves nothing open. -/
structure Solid (w : List Char) : Prop where
  first : ∃ c r, w = c :: r ∧ isBlank c = false ∧ c ≠ '%'
  last : ∃ l c, w = l ++ [c] ∧ isBlank c = false
  balanced : Balanced w

namespace Solid

theorem length_pos (h : Solid w) : 0 < w.length := by
  obtain ⟨c, r, rfl, -⟩ := h.first
  exact Nat.succ_pos _

/-- Solid texts with something balanced between them make a solid text. -/
theorem join (hw : Solid w) (hv : Solid v) (ha : Balanced a) : Solid (w ++ (a ++ v)) := by
  obtain ⟨c, r, rfl, hc⟩ := hw.first
  obtain ⟨l, d, rfl, hd⟩ := hv.last
  exact ⟨⟨c, _, rfl, hc⟩, ⟨_, d, by rw [← List.append_assoc, ← List.append_assoc], hd⟩,
    hw.balanced.append (ha.append hv.balanced)⟩

/-- The characters of names, numerals and parameters. -/
theorem of_plain (hne : w ≠ []) (hw : ∀ c ∈ w, isNameChar c = true ∨ c = '.' ∨ c = ':') : Solid w := by
  have hplain : ∀ c ∈ w, isBlank c = false ∧ c ≠ '%' ∧ c ≠ '\'' := by
    intro c hc
    rcases hw c hc with hname | rfl | rfl
    · refine ⟨not_isBlank_of_isNameChar hname, ?_, ?_⟩ <;> rintro rfl
      · exact absurd hname (by decide)
      · exact absurd hname (by decide)
    · decide
    · decide
  refine ⟨?_, ?_, balanced_of_plain fun c hc ↦ (hplain c hc).2⟩
  · obtain ⟨c, r, rfl⟩ := List.exists_cons_of_ne_nil hne
    exact ⟨c, r, rfl, (hplain c List.mem_cons_self).1, (hplain c List.mem_cons_self).2.1⟩
  · obtain ⟨l, c, rfl⟩ := List.eq_nil_or_concat'  w |>.resolve_left hne
    exact ⟨l, c, rfl, (hplain c (by simp)).1⟩

/-- A quoted name is solid. -/
theorem quoted (hw : ∀ c ∈ w, c ≠ '\'' ∧ c ≠ '\n') : Solid ('\'' :: (w ++ ['\''])) :=
  ⟨⟨_, _, rfl, by decide⟩, ⟨'\'' :: w, '\'', rfl, by decide⟩,
    balanced_quoted fun hmem ↦ (hw _ hmem).1 rfl⟩

/-- A name with or without arguments. -/
theorem applied (hw : Solid w) (hv : Balanced v) (hlast : v = [] ∨ ∃ l, v = l ++ [')']) :
    Solid (w ++ v) := by
  rcases hlast with rfl | ⟨l, rfl⟩
  · rwa [List.append_nil]
  · obtain ⟨c, r, rfl, hc⟩ := hw.first
    exact ⟨⟨c, _, rfl, hc⟩, ⟨_, ')', by rw [List.append_assoc], by decide⟩, hw.balanced.append hv⟩

/-- There is no layout to skip before a solid text. -/
theorem skipLayout_append (h : Solid w) (s : List Char) : skipLayout (w ++ s) = w ++ s := by
  obtain ⟨c, r, rfl, hblank, hpercent⟩ := h.first
  exact skipLayout_cons hblank hpercent _

end Solid

/-! ### Rests that look alike -/

/-- Whatever name or numeral ends before `u` also ends before `u'`, and `u'` opens no arguments where
`u` does not. -/
structure Resembles (u u' : List Char) : Prop where
  head : ∀ c ∈ u'.head?, c ∈ u.head? ∨ isNameChar c = false ∧ c ≠ '('
  numeral : startsNumeral u' = true → startsNumeral u = true

theorem startsNumeral_cons (hc : c ≠ '.') (s : List Char) : startsNumeral (c :: s) = c.isDigit := by
  unfold startsNumeral
  split
  · rename_i heq
    exact absurd (List.cons.inj heq).1 hc
  · rename_i heq
    rw [(List.cons.inj heq).1]
  · rename_i heq
    cases heq

theorem startsNumeral_of_isDigit (hc : c.isDigit = true) (s : List Char) :
    startsNumeral (c :: s) = true := by
  rw [startsNumeral_cons _ s, hc]
  rintro rfl
  exact absurd hc (by decide)

theorem isNameChar_of_isDigit (h : c.isDigit = true) : isNameChar c = true := by
  simp [isNameChar, Char.isAlphanum, h]

namespace Resembles

/-- What starts with a token that is neither a name nor a numeral ends everything. -/
theorem of_cons (hname : isNameChar c = false) (hopen : c ≠ '(') (hdot : c ≠ '.') (u s : List Char) :
    Resembles u (c :: s) := by
  refine ⟨fun d hd ↦ ?_, fun h ↦ ?_⟩
  · obtain rfl := Option.some.inj hd
    exact Or.inr ⟨hname, hopen⟩
  · rw [startsNumeral_cons hdot] at h
    rw [isNameChar_of_isDigit h] at hname
    cases hname

/-- Layout ends everything. -/
theorem of_layout (ha : IsLayout a) (hne : a ≠ []) (u s : List Char) : Resembles u (a ++ s) := by
  cases ha with
  | nil => exact absurd rfl hne
  | @blank c a hc _ =>
    refine of_cons ?_ ?_ ?_ u (a ++ s)
    · by_contra hname
      rw [not_isBlank_of_isNameChar (by simpa using hname)] at hc
      cases hc
    · rintro rfl
      exact absurd hc (by decide)
    · rintro rfl
      exact absurd hc (by decide)
  | comment => exact of_cons (by decide) (by decide) (by decide) u _

/-- Layout and a token that neither continues a name or a numeral nor opens arguments may stand in
place of anything. -/
theorem of_token (ha : IsLayout a) (hname : isNameChar c = false) (hopen : c ≠ '(') (hdot : c ≠ '.')
    (u s : List Char) : Resembles u (a ++ c :: s) := by
  by_cases hne : a = []
  · rw [hne]
    exact of_cons hname hopen hdot u s
  · exact of_layout ha hne u (c :: s)

/-- A name that ends before a text also ends before what resembles it. -/
theorem not_isNameChar (h : Resembles u u') (hu : ∀ c ∈ u.head?, isNameChar c = false) :
    ∀ c ∈ u'.head?, isNameChar c = false := by
  intro c hc
  rcases h.head c hc with hmem | ⟨hname, -⟩
  · exact hu c hmem
  · exact hname

theorem not_isDigit (h : Resembles u u') (hu : ∀ c ∈ u.head?, c.isDigit = false) :
    ∀ c ∈ u'.head?, c.isDigit = false := by
  intro c hc
  rcases h.head c hc with hmem | ⟨hname, -⟩
  · exact hu c hmem
  · by_contra hdigit
    rw [isNameChar_of_isDigit (by simpa using hdigit)] at hname
    cases hname

/-- Resemblance is decided by the first characters, so the same text in front keeps it. -/
theorem append_left (h : Resembles u u') (w : List Char) : Resembles (w ++ u) (w ++ u') := by
  cases w with
  | nil => exact h
  | cons c w =>
    refine ⟨fun d hd ↦ Or.inl hd, fun hnumeral ↦ ?_⟩
    by_cases hdot : c = '.'
    · subst hdot
      cases w with
      | cons d w => exact hnumeral
      | nil =>
        -- A digit that opens `u'` opens `u` as well.
        cases u' with
        | nil => cases hnumeral
        | cons d u' =>
          rcases h.head d rfl with hmem | ⟨hname, -⟩
          · obtain ⟨r, rfl⟩ := List.head?_eq_some_iff.mp hmem
            exact hnumeral
          · rw [isNameChar_of_isDigit hnumeral] at hname
            cases hname
    · rw [List.cons_append, startsNumeral_cons hdot] at hnumeral ⊢
      exact hnumeral

end Resembles

/-! ### Names and numerals -/

/-- A name is read from the text before its rest, whatever stands there instead of the rest. -/
theorem name_spells (s : List Char) : ∃ w u, s = w ++ u ∧ name s = (String.ofList w, u) ∧
    (∀ c ∈ w, isNameChar c = true) ∧ ∀ u', Resembles u u' → name (w ++ u') = (String.ofList w, u') := by
  obtain ⟨w, u, hs, htake, hdrop, hw, hu⟩ := exists_span isNameChar s
  refine ⟨w, u, hs, by rw [name, htake, hdrop], hw, fun u' h ↦ ?_⟩
  obtain ⟨htake', hdrop'⟩ := span_append hw (h.not_isNameChar hu)
  rw [name, htake', hdrop']

/-- A numeral has no fraction where its digits are not followed by one. -/
theorem numeral_whole (hw : ∀ c ∈ w, c.isDigit = true) (hu : startsNumeral u = false) :
    numeral (w ++ u) = (String.ofList w, u) := by
  have hstop : ∀ c ∈ u.head?, c.isDigit = false := by
    intro c hc
    obtain ⟨r, rfl⟩ : ∃ r, u = c :: r := List.head?_eq_some_iff.mp hc
    by_contra hdigit
    rw [startsNumeral_of_isDigit (by simpa using hdigit)] at hu
    cases hu
  obtain ⟨htake, hdrop⟩ := span_append hw hstop
  rw [numeral, htake, hdrop]
  split
  · rename_i c r
    rw [if_neg]
    rw [startsNumeral] at hu
    simp [hu]
  · rfl

/-- A period with digits behind it belongs to the numeral. -/
theorem numeral_fraction (hw : ∀ c ∈ w, c.isDigit = true) (hv : ∀ c ∈ v, c.isDigit = true)
    (hne : v ≠ []) (hu : ∀ c ∈ u.head?, c.isDigit = false) :
    numeral (w ++ '.' :: (v ++ u)) = (String.ofList (w ++ '.' :: v), u) := by
  obtain ⟨htake, hdrop⟩ := span_append hw (u := '.' :: (v ++ u)) (by simp)
  obtain ⟨c, v, rfl⟩ := List.exists_cons_of_ne_nil hne
  obtain ⟨htake', hdrop'⟩ := span_append hv hu
  rw [numeral, htake, hdrop]
  simp only [List.cons_append] at htake' hdrop' ⊢
  rw [if_pos (hv c List.mem_cons_self), htake', hdrop']

/-- A numeral is read from the text before its rest, whatever stands there instead of the rest. -/
theorem numeral_spells (hs : startsNumeral s = true) : ∃ w u, s = w ++ u ∧
    numeral s = (String.ofList w, u) ∧ w ≠ [] ∧ (∀ c ∈ w, isNameChar c = true ∨ c = '.') ∧
    ∀ u', Resembles u u' →
      startsNumeral (w ++ u') = true ∧ numeral (w ++ u') = (String.ofList w, u') := by
  obtain ⟨w, rest, rfl, -, -, hw, hrest⟩ := exists_span Char.isDigit s
  have hnames : ∀ v : List Char, (∀ c ∈ v, c.isDigit = true) → ∀ c ∈ v, isNameChar c = true ∨ c = '.' :=
    fun v hv c hc ↦ Or.inl (isNameChar_of_isDigit (hv c hc))
  have hstarts : w ≠ [] → ∀ u', startsNumeral (w ++ u') = true := by
    intro hne u'
    obtain ⟨c, w, rfl⟩ := List.exists_cons_of_ne_nil hne
    exact startsNumeral_of_isDigit (hw c List.mem_cons_self) _
  cases hfraction : startsNumeral rest with
  | false =>
    have hne : w ≠ [] := by
      rintro rfl
      rw [List.nil_append, hfraction] at hs
      cases hs
    refine ⟨w, rest, rfl, numeral_whole hw hfraction, hne, hnames w hw, fun u' h ↦ ⟨hstarts hne u', ?_⟩⟩
    refine numeral_whole hw (Bool.eq_false_iff.mpr fun hu' ↦ ?_)
    rw [h.numeral hu'] at hfraction
    cases hfraction
  | true =>
    -- The rest starts with no digit, so it starts with a period and a digit.
    obtain ⟨d, r, rfl, hd⟩ : ∃ d r, rest = '.' :: d :: r ∧ d.isDigit = true := by
      unfold startsNumeral at hfraction
      split at hfraction
      · exact ⟨_, _, rfl, hfraction⟩
      · rw [hrest _ rfl] at hfraction
        cases hfraction
      · cases hfraction
    obtain ⟨v, u, heq, -, -, hv, hu⟩ := exists_span Char.isDigit (d :: r)
    have hne : v ≠ [] := by
      rintro rfl
      rw [List.nil_append] at heq
      rw [← heq] at hu
      rw [hu d rfl] at hd
      cases hd
    rw [heq]
    refine ⟨w ++ '.' :: v, u, by simp, numeral_fraction hw hv hne hu, by simp, ?_, fun u' h ↦ ?_⟩
    · refine List.forall_mem_append.mpr ⟨hnames w hw, List.forall_mem_cons.mpr ⟨Or.inr rfl, hnames v hv⟩⟩
    · rw [List.append_assoc, List.cons_append]
      refine ⟨?_, numeral_fraction hw hv hne (h.not_isDigit hu)⟩
      by_cases hnil : w = []
      · obtain ⟨c, v, rfl⟩ := List.exists_cons_of_ne_nil hne
        rw [hnil]
        exact hv c List.mem_cons_self
      · exact hstarts hnil _

/-- A quoted name that was read has its closing quote right behind it. -/
theorem quoted_eq_ok {start : List Char} {text : String} (h : quoted start s = .ok (text, u)) :
    ∃ w, s = w ++ '\'' :: u ∧ text = String.ofList w ∧ ∀ c ∈ w, c ≠ '\'' ∧ c ≠ '\n' := by
  obtain ⟨w, rest, rfl, htake, hdrop, hw, -⟩ :=
    exists_span (fun c ↦ decide (c ≠ '\'') && decide (c ≠ '\n')) s
  rw [quoted, htake, hdrop] at h
  split at h
  · obtain ⟨rfl, rfl⟩ := Prod.mk.inj (Except.ok.inj h)
    exact ⟨w, rfl, rfl, by simpa using hw⟩
  · cases h

/-! ### Terms -/

section FirstCharacter

variable (depth : Nat)

/-- No layout stands before a character of a name, a numeral or a parameter. -/
theorem skipLayout_of_plain (hc : isNameChar c = true ∨ c = '.' ∨ c = ':') (s : List Char) :
    skipLayout (c :: s) = c :: s := by
  have hsolid : Solid [c] := .of_plain (by simp) (List.forall_mem_singleton.mpr hc)
  exact hsolid.skipLayout_append s

/-- A numeral is read as an atom. -/
theorem term_of_startsNumeral (hs : startsNumeral (c :: s) = true) :
    term (depth + 1) (c :: s) = .ok (.atom (numeral (c :: s)).1, (numeral (c :: s)).2) := by
  have hclass : isNameChar c = true ∨ c = '.' ∨ c = ':' := by
    by_cases hdot : c = '.'
    · exact Or.inr (Or.inl hdot)
    · rw [startsNumeral_cons hdot] at hs
      exact Or.inl (isNameChar_of_isDigit hs)
  rw [term, skipLayout_of_plain hclass]
  exact if_pos hs

/-- A colon has to be followed by a name, which may start with any of its characters. -/
theorem term_of_colon (s : List Char) : term (depth + 1) (':' :: s) =
    if (name s).1.isEmpty then .error ⟨.missingParamName, (name s).2⟩
    else .ok (.param (name s).1, (name s).2) := by
  rw [term, skipLayout_of_plain (Or.inr (Or.inr rfl))]
  simp only
  rw [if_neg (by simp [startsNumeral_cons]), if_pos trivial]

theorem toNat_of_isUpper (h : c.isUpper = true) : 65 ≤ c.toNat ∧ c.toNat ≤ 90 := by
  simpa [Char.isUpper, UInt32.le_iff_toNat_le] using h

theorem toNat_of_isLower (h : c.isLower = true) : 97 ≤ c.toNat ∧ c.toNat ≤ 122 := by
  simpa [Char.isLower, UInt32.le_iff_toNat_le] using h

/-- A letter opens no numeral and no parameter. -/
theorem not_startsNumeral_of_le (h : 65 ≤ c.toNat) (s : List Char) :
    startsNumeral (c :: s) = false ∧ c ≠ ':' := by
  have hdigit : c.isDigit = false := by
    simp only [Char.isDigit, Bool.and_eq_false_iff, decide_eq_false_iff_not, ge_iff_le,
      UInt32.le_iff_toNat_le]
    right
    change ¬ c.toNat ≤ 57
    omega
  refine ⟨?_, ?_⟩
  · rw [startsNumeral_cons _ s, hdigit]
    rintro rfl
    exact absurd h (by decide)
  · rintro rfl
    exact absurd h (by decide)

/-- A capital letter makes a variable. -/
theorem term_of_isUpper (hc : c.isUpper = true) (s : List Char) :
    term (depth + 1) (c :: s) = .ok (.var (name (c :: s)).1, (name (c :: s)).2) := by
  obtain ⟨hnumeral, hcolon⟩ := not_startsNumeral_of_le (toNat_of_isUpper hc).1 s
  rw [term, skipLayout_of_plain (Or.inl (isNameChar_of_isUpper hc))]
  simp only
  rw [hnumeral, if_neg Bool.false_ne_true, if_neg hcolon, if_pos hc]

theorem isNameChar_of_isLower (h : c.isLower = true) : isNameChar c = true := by
  simp [isNameChar, Char.isAlphanum, Char.isAlpha, h]

/-- A small letter makes a name, which may have arguments. -/
theorem term_of_isLower (hc : c.isLower = true) (s : List Char) : term (depth + 1) (c :: s) =
    application (commaList (term depth) depth) (name (c :: s)).1 (name (c :: s)).2 := by
  have hrange := toNat_of_isLower hc
  obtain ⟨hnumeral, hcolon⟩ := not_startsNumeral_of_le (show 65 ≤ c.toNat by omega) s
  have hupper : ¬ c.isUpper = true := fun hupper ↦ by
    have := toNat_of_isUpper hupper
    omega
  rw [term, skipLayout_of_plain (Or.inl (isNameChar_of_isLower hc))]
  simp only
  rw [hnumeral, if_neg Bool.false_ne_true, if_neg hcolon, if_neg hupper, if_pos hc]

end FirstCharacter

/-- The term is read from the text, whatever stands behind it that resembles `u`. -/
structure Spells (w : List Char) (x : Node) (u : List Char) : Prop where
  solid : Solid w
  reads : ∀ {depth : Nat} {u' : List Char}, Resembles u u' → w.length < depth →
    term depth (w ++ u') = .ok (x, u')

/-- The terms are read from the text, whatever stands behind it that resembles `z` and has no comma
behind its layout. -/
structure SpellsList (v : List Char) (xs : List Node) (z : List Char) : Prop where
  solid : Solid v
  reads : ∀ {depth bound : Nat} {z' : List Char}, Resembles z z' →
    (skipLayout z').head? ≠ some ',' → v.length < depth → v.length < bound →
    commaList (term depth) bound (v ++ z') = .ok (xs, skipLayout z')

/-- Layout before a term makes no difference. -/
theorem term_append_layout (ha : IsLayout a) (depth : Nat) (s : List Char) :
    term (depth + 1) (a ++ s) = term (depth + 1) s := by
  rw [term, term, skipLayout_append ha]

theorem commaList_append_layout (ha : IsLayout a) (depth bound : Nat) (s : List Char) :
    commaList (term (depth + 1)) (bound + 1) (a ++ s) =
      commaList (term (depth + 1)) (bound + 1) s := by
  rw [commaList, commaList, term_append_layout ha]

/-- A term is a list of one. -/
theorem Spells.list {x : Node} (hw : Spells w x u) : SpellsList w [x] u := by
  refine ⟨hw.solid, fun {depth bound z'} hz hcomma hdepth hbound ↦ ?_⟩
  obtain ⟨bound, rfl⟩ : ∃ n, bound = n + 1 := ⟨bound - 1, by omega⟩
  rw [commaList, hw.reads hz hdepth]
  simp only [bind, Except.bind]
  split
  · rename_i rest hrest
    rw [hrest] at hcomma
    exact absurd rfl hcomma
  · rfl

/-- A term, a comma and a list are a list, whatever layout stands around the comma. -/
theorem Spells.cons {x : Node} {xs : List Node} {b : List Char} (hw : Spells w x u)
    (hb : IsLayout b) (ha : IsLayout a) (hv : SpellsList v xs z) :
    SpellsList (w ++ ((b ++ ',' :: a) ++ v)) (x :: xs) z := by
  have hbalanced : Balanced (b ++ ',' :: a) :=
    (balanced_layout hb).append
      (Balanced.append (v := [',']) (balanced_of_plain (by simp)) (balanced_layout ha))
  refine ⟨hw.solid.join hv.solid hbalanced, fun {depth bound z'} hz hcomma hdepth hbound ↦ ?_⟩
  have hpos := hv.solid.length_pos
  simp only [List.length_append, List.length_cons] at hdepth hbound
  obtain ⟨depth, rfl⟩ : ∃ n, depth = n + 1 := ⟨depth - 1, by omega⟩
  obtain ⟨bound, rfl⟩ : ∃ n, bound = n + 2 := ⟨bound - 2, by omega⟩
  have hfirst : term (depth + 1) (w ++ (b ++ ',' :: (a ++ (v ++ z')))) =
      .ok (x, b ++ ',' :: (a ++ (v ++ z'))) :=
    hw.reads (.of_token hb (by decide) (by decide) (by decide) _ _) (by omega)
  have hrest := hv.reads hz hcomma (show v.length < depth + 1 by omega)
    (show v.length < bound + 1 by omega)
  simp only [List.append_assoc, List.cons_append]
  rw [commaList, hfirst]
  simp only [bind, Except.bind, skipLayout_append hb, skipLayout_cons (c := ',') (by decide)
    (by decide), commaList_append_layout ha, hrest]
  rfl

/-- If a term is all that is read, it is read from a text of its own; so are terms with commas between
them. -/
theorem commaList_spells {depth : Nat} (hterm : ∀ {s : List Char} {x : Node} {u : List Char},
      term depth s = .ok (x, u) → ∃ a w, s = a ++ (w ++ u) ∧ IsLayout a ∧ Spells w x u)
    {bound : Nat} {xs : List Node} (h : commaList (term depth) bound s = .ok (xs, r)) :
    ∃ a v z, s = a ++ (v ++ z) ∧ IsLayout a ∧ skipLayout z = r ∧ SpellsList v xs z := by
  induction bound generalizing s xs with
  | zero => cases h
  | succ bound ih =>
    rw [commaList] at h
    obtain ⟨⟨x, u⟩, hx, hrest⟩ := except_bind_eq_ok h
    obtain ⟨a, w, rfl, ha, hw⟩ := hterm hx
    simp only at hrest
    split at hrest
    · rename_i rest hcomma
      obtain ⟨⟨ys, r'⟩, hys, hrest⟩ := except_bind_eq_ok hrest
      obtain ⟨rfl, rfl⟩ := Prod.mk.inj (Except.ok.inj hrest)
      obtain ⟨b, hb, rfl, -, -⟩ := skipLayout_eq_cons hcomma
      obtain ⟨a', v, z, rfl, ha', hr, hv⟩ := ih hys
      exact ⟨a, w ++ ((b ++ ',' :: a') ++ v), z, by simp, ha, hr, hw.cons hb ha' hv⟩
    · obtain ⟨rfl, rfl⟩ := Prod.mk.inj (Except.ok.inj hrest)
      exact ⟨a, w, u, rfl, ha, rfl, hw.list⟩

/-- The arguments of a name are read from a text that ends with their closing parenthesis. -/
theorem application_spells {depth : Nat} (hterm : ∀ {s : List Char} {x : Node} {u : List Char},
      term depth s = .ok (x, u) → ∃ a w, s = a ++ (w ++ u) ∧ IsLayout a ∧ Spells w x u)
    {text : String} {x : Node}
    (h : application (commaList (term depth) depth) text s = .ok (x, u)) :
    ∃ w, s = w ++ u ∧ Balanced w ∧ (w = [] ∨ ∃ l, w = l ++ [')']) ∧
      ∀ {depth' : Nat} {u' : List Char}, Resembles u u' → w.length ≤ depth' →
        application (commaList (term depth') depth') text (w ++ u') = .ok (x, u') := by
  unfold application at h
  split at h
  · obtain ⟨⟨xs, r⟩, hxs, h⟩ := except_bind_eq_ok h
    obtain ⟨behind, hclose, h⟩ := except_bind_eq_ok h
    obtain ⟨rfl, rfl⟩ := Prod.mk.inj (Except.ok.inj h)
    obtain ⟨a, v, z, rfl, ha, rfl, hv⟩ := commaList_spells hterm hxs
    have hz := expect_eq_ok hclose
    rw [skipLayout_skipLayout] at hz
    obtain ⟨b, hb, rfl, -, -⟩ := skipLayout_eq_cons hz
    refine ⟨'(' :: (a ++ (v ++ (b ++ [')']))), by simp, ?_, Or.inr ⟨'(' :: (a ++ (v ++ b)), by simp⟩, ?_⟩
    · exact (Balanced.append (v := ['(']) (balanced_of_plain (by simp))
        ((balanced_layout ha).append (hv.solid.balanced.append
          ((balanced_layout hb).append (balanced_of_plain (by simp))))))
    · -- The arguments are read again with other text behind the parenthesis, and at any depth that
      -- their length allows.
      intro depth' u' _ hdepth
      simp only [List.length_cons, List.length_append, List.length_nil] at hdepth
      obtain ⟨depth', rfl⟩ : ∃ n, depth' = n + 1 := ⟨depth' - 1, by omega⟩
      have hskip : skipLayout (b ++ ')' :: u') = ')' :: u' := by
        rw [skipLayout_append hb, skipLayout_cons (by decide) (by decide)]
      have hread := hv.reads (.of_token (c := ')') hb (by decide) (by decide) (by decide) _ u')
        (by simp [hskip]) (show v.length < depth' + 1 by omega) (show v.length < depth' + 1 by omega)
      simp only [List.cons_append, List.append_assoc, List.nil_append]
      rw [application, commaList_append_layout ha, hread, hskip]
      rfl
  · rename_i hopen
    obtain ⟨rfl, rfl⟩ := Prod.mk.inj (Except.ok.inj h)
    refine ⟨[], rfl, fun _ ↦ rfl, Or.inl rfl, fun {depth' u'} hu _ ↦ ?_⟩
    rw [List.nil_append]
    unfold application
    split
    · -- A parenthesis cannot open behind the name, because none did before.
      rename_i r'
      rcases hu.head '(' rfl with hmem | ⟨-, hne⟩
      · obtain ⟨r, rfl⟩ := List.head?_eq_some_iff.mp hmem
        exact absurd rfl (hopen r)
      · exact absurd rfl hne
    · rfl

/-- A numeral that was read is spelled by what was consumed. -/
theorem Spells.of_numeral (hs : startsNumeral s = true) :
    ∃ w, s = w ++ (numeral s).2 ∧ Spells w (.atom (numeral s).1) (numeral s).2 := by
  obtain ⟨w, u, rfl, hread, hne, hw, hother⟩ := numeral_spells hs
  rw [hread]
  refine ⟨w, rfl, .of_plain hne fun c hc ↦ (hw c hc).imp_right Or.inl, fun {depth u'} hu hdepth ↦ ?_⟩
  obtain ⟨depth, rfl⟩ : ∃ n, depth = n + 1 := ⟨depth - 1, by omega⟩
  obtain ⟨hstarts, hread'⟩ := hother u' hu
  obtain ⟨c, w, rfl⟩ := List.exists_cons_of_ne_nil hne
  rw [List.cons_append] at hstarts hread' ⊢
  rw [term_of_startsNumeral depth hstarts, hread']

/-- A parameter that was read is spelled by what was consumed. -/
theorem Spells.of_param (h : ¬ (name s).1.isEmpty) :
    ∃ w, ':' :: s = w ++ (name s).2 ∧ Spells w (.param (name s).1) (name s).2 := by
  obtain ⟨w, u, rfl, hread, hw, hother⟩ := name_spells s
  rw [hread] at h ⊢
  refine ⟨':' :: w, rfl, .of_plain (by simp)
    (List.forall_mem_cons.mpr ⟨Or.inr (Or.inr rfl), fun c hc ↦ Or.inl (hw c hc)⟩),
    fun {depth u'} hu hdepth ↦ ?_⟩
  obtain ⟨depth, rfl⟩ : ∃ n, depth = n + 1 := ⟨depth - 1, by omega⟩
  rw [List.cons_append, term_of_colon, hother u' hu, if_neg h]

/-- A name that starts with a letter is read from a text of its own. -/
theorem name_of_letter (hc : isNameChar c = true) (s : List Char) : ∃ w u, s = w ++ u ∧
    name (c :: s) = (String.ofList (c :: w), u) ∧ Solid (c :: w) ∧
    ∀ u', Resembles u u' → name (c :: (w ++ u')) = (String.ofList (c :: w), u') := by
  obtain ⟨w, u, heq, hread, hw, hother⟩ := name_spells (c :: s)
  cases w with
  | nil =>
    have hspan : (name (c :: s)).1.toList = c :: s.takeWhile isNameChar := by
      simp [name, hc]
    rw [hread, String.toList_ofList] at hspan
    cases hspan
  | cons d w =>
    obtain ⟨rfl, rfl⟩ := List.cons.inj heq
    exact ⟨w, u, rfl, hread, .of_plain (by simp) fun d hd ↦ Or.inl (hw d hd), hother⟩

/-- A variable that was read is spelled by what was consumed. -/
theorem Spells.of_var (hc : c.isUpper = true) (s : List Char) :
    ∃ w, c :: s = w ++ (name (c :: s)).2 ∧ Spells w (.var (name (c :: s)).1) (name (c :: s)).2 := by
  obtain ⟨w, u, rfl, hread, hsolid, hother⟩ := name_of_letter (isNameChar_of_isUpper hc) s
  rw [hread]
  refine ⟨c :: w, rfl, hsolid, fun {depth u'} hu hdepth ↦ ?_⟩
  obtain ⟨depth, rfl⟩ : ∃ n, depth = n + 1 := ⟨depth - 1, by omega⟩
  rw [List.cons_append, term_of_isUpper depth hc, hother u' hu]

/-- **A term is read from a text of its own.** What stands behind matters only as far as it could
continue the term. -/
theorem term_spells {depth : Nat} {x : Node} (h : term depth s = .ok (x, u)) :
    ∃ a w, s = a ++ (w ++ u) ∧ IsLayout a ∧ Spells w x u := by
  induction depth generalizing s x u with
  | zero => cases h
  | succ depth ih =>
    rw [term] at h
    split at h
    · cases h
    · rename_i c rest hskip
      obtain ⟨a, ha, rfl, -, -⟩ := skipLayout_eq_cons hskip
      simp only at h
      -- The first character decides, and the text that was consumed starts with it.
      split_ifs at h with hnumeral hparam hempty hupper hlower hquote
      · obtain ⟨rfl, rfl⟩ := Prod.mk.inj (Except.ok.inj h)
        obtain ⟨w, heq, hw⟩ := Spells.of_numeral hnumeral
        exact ⟨a, w, congrArg (a ++ ·) heq, ha, hw⟩
      · obtain ⟨rfl, rfl⟩ := Prod.mk.inj (Except.ok.inj h)
        obtain ⟨w, heq, hw⟩ := Spells.of_param hempty
        exact ⟨a, w, by rw [hparam, heq], ha, hw⟩
      · obtain ⟨rfl, rfl⟩ := Prod.mk.inj (Except.ok.inj h)
        obtain ⟨w, heq, hw⟩ := Spells.of_var hupper rest
        exact ⟨a, w, congrArg (a ++ ·) heq, ha, hw⟩
      · obtain ⟨w, r, rfl, hread, hsolid, hother⟩ :=
          name_of_letter (isNameChar_of_isLower hlower) rest
        rw [hread] at h
        obtain ⟨v, rfl, hv, hlast, happly⟩ := application_spells ih h
        refine ⟨a, (c :: w) ++ v, by simp, ha, hsolid.applied hv hlast, fun {depth' u'} hu hdepth ↦ ?_⟩
        obtain ⟨depth', rfl⟩ : ∃ n, depth' = n + 1 := ⟨depth' - 1, by omega⟩
        simp only [List.length_append, List.length_cons] at hdepth
        rw [List.append_assoc, List.cons_append, term_of_isLower depth' hlower,
          hother _ (hu.append_left v), happly hu (by omega)]
      · obtain ⟨⟨text, r⟩, hquoted, happlied⟩ := except_bind_eq_ok h
        obtain ⟨w, rfl, rfl, hw⟩ := quoted_eq_ok hquoted
        obtain ⟨v, rfl, hv, hlast, happly⟩ := application_spells ih happlied
        refine ⟨a, ('\'' :: (w ++ ['\''])) ++ v, by simp [hquote], ha,
          (Solid.quoted hw).applied hv hlast, fun {depth' u'} hu hdepth ↦ ?_⟩
        obtain ⟨depth', rfl⟩ : ∃ n, depth' = n + 1 := ⟨depth' - 1, by omega⟩
        simp only [List.length_append, List.length_cons] at hdepth
        have hquotable : IsQuotable (String.ofList w) := by rwa [IsQuotable, String.toList_ofList]
        have hread := @term_quoted depth' [] .nil _ hquotable (v ++ u')
        rw [String.toList_ofList, List.nil_append] at hread
        simp only [List.cons_append, List.append_assoc, List.nil_append]
        rw [hread, happly hu (by omega)]

/-- The goals are read from the text, whatever layout stands before it and whatever stands behind it
that resembles `z` and has neither a comma nor a semicolon behind its layout. -/
structure SpellsGoals (v : List Char) (gs : List Node) (z : List Char) : Prop where
  solid : Solid v
  reads : ∀ {a z' : List Char}, IsLayout a → Resembles z z' →
    (∀ c ∈ (skipLayout z').head?, c ≠ ',' ∧ c ≠ ';') →
    goals (a ++ (v ++ z')) = .ok (gs, skipLayout z')

/-- Terms with commas between them are goals. -/
theorem SpellsList.goals {gs : List Node} (hv : SpellsList v gs z) : SpellsGoals v gs z := by
  refine ⟨hv.solid, fun {a z'} ha hz hnext ↦ ?_⟩
  have hlength : v.length < (a ++ (v ++ z')).length + 1 := by
    simp only [List.length_append]
    omega
  rw [Reader.goals, commaList_append_layout ha,
    hv.reads hz (fun heq ↦ (hnext _ heq).1 rfl) hlength hlength]
  simp only [bind, Except.bind]
  split
  · rename_i heq
    exact absurd rfl (hnext ';' (by rw [heq]; rfl)).2
  · rfl

/-- Goals that were read are spelled by what was consumed, without the layout around them. -/
theorem goals_spells {gs : List Node} (h : goals s = .ok (gs, r)) :
    ∃ a v z, s = a ++ (v ++ z) ∧ IsLayout a ∧ skipLayout z = r ∧ SpellsGoals v gs z := by
  rw [goals] at h
  obtain ⟨⟨xs, r'⟩, hxs, hrest⟩ := except_bind_eq_ok h
  simp only at hrest
  split at hrest
  · cases hrest
  · obtain ⟨rfl, rfl⟩ := Prod.mk.inj (Except.ok.inj hrest)
    obtain ⟨a, v, z, rfl, ha, hr, hv⟩ := commaList_spells term_spells hxs
    exact ⟨a, v, z, rfl, ha, hr, hv.goals⟩

/-! ### Clauses -/

/-- A query is its goals up to the closing period. -/
theorem query_eq_ok {node : Node} (h : query s = .ok (node, r)) :
    ∃ gs, goals (skipLayout s) = .ok (gs, '.' :: r) ∧
      node = .query gs (String.ofList (trim (consumed (skipLayout s) ('.' :: r)))) := by
  rw [query] at h
  obtain ⟨⟨gs, z⟩, hgoals, hrest⟩ := except_bind_eq_ok h
  obtain ⟨behind, hperiod, hnode⟩ := except_bind_eq_ok hrest
  obtain ⟨rfl, rfl⟩ := Prod.mk.inj (Except.ok.inj hnode)
  obtain ⟨-, -, z', -, -, rfl, -⟩ := goals_spells hgoals
  have hz := expect_eq_ok hperiod
  rw [skipLayout_skipLayout] at hz
  rw [hz] at hgoals ⊢
  exact ⟨gs, hgoals, rfl⟩

/-- A query is its goals up to a period, with the text before the period. -/
theorem query_of_goals {gs : List Node} (h : goals (skipLayout s) = .ok (gs, '.' :: r)) :
    query s =
      .ok (.query gs (String.ofList (trim (consumed (skipLayout s) ('.' :: r)))), r) := by
  rw [query, h]
  simp only [bind, Except.bind]
  rw [expect_of_skipLayout (skipLayout_cons not_isBlank_period (by decide) r)]
  rfl

/-- A rule has goals behind its head, a fact only the closing period. -/
theorem assertion_eq_ok {node : Node} (h : assertion s = .ok (node, r)) :
    ∃ head u, term (s.length + 1) s = .ok (head, u) ∧
      ((∃ z body, skipLayout u = ':' :: '-' :: z ∧ goals z = .ok (body, '.' :: r) ∧
          node = .rule head body) ∨
        skipLayout u = '.' :: r ∧ node = .fact head) := by
  rw [assertion] at h
  obtain ⟨⟨head, u⟩, hterm, hrest⟩ := except_bind_eq_ok h
  refine ⟨head, u, hterm, ?_⟩
  simp only at hrest
  split at hrest
  · rename_i z hz
    obtain ⟨⟨body, z'⟩, hgoals, hrest⟩ := except_bind_eq_ok hrest
    obtain ⟨behind, hperiod, hnode⟩ := except_bind_eq_ok hrest
    obtain ⟨rfl, rfl⟩ := Prod.mk.inj (Except.ok.inj hnode)
    obtain ⟨-, -, z'', -, -, rfl, -⟩ := goals_spells hgoals
    have hbehind := expect_eq_ok hperiod
    rw [skipLayout_skipLayout] at hbehind
    rw [hbehind] at hgoals
    exact Or.inl ⟨z, body, hz, hgoals, rfl⟩
  · obtain ⟨behind, hperiod, hnode⟩ := except_bind_eq_ok hrest
    obtain ⟨rfl, rfl⟩ := Prod.mk.inj (Except.ok.inj hnode)
    have hbehind := expect_eq_ok hperiod
    rw [skipLayout_skipLayout] at hbehind
    exact Or.inr ⟨hbehind, rfl⟩

/-- A head, a neck and goals up to a period are read as a rule. -/
theorem assertion_of_rule {head : Node} {body : List Node} {u z : List Char}
    (hterm : term (s.length + 1) s = .ok (head, u)) (hu : skipLayout u = ':' :: '-' :: z)
    (hz : goals z = .ok (body, '.' :: r)) : assertion s = .ok (.rule head body, r) := by
  rw [assertion, hterm]
  simp only [bind, Except.bind, hu, hz]
  rw [expect_of_skipLayout (skipLayout_cons not_isBlank_period (by decide) r)]
  rfl

/-- A head and a period are read as a fact. -/
theorem assertion_of_fact {head : Node} {u : List Char}
    (hterm : term (s.length + 1) s = .ok (head, u)) (hu : skipLayout u = '.' :: r) :
    assertion s = .ok (.fact head, r) := by
  rw [assertion, hterm]
  simp only [bind, Except.bind, hu]
  split
  · rename_i heq
    exact absurd (List.cons.inj heq).1 (by decide)
  · rw [expect_of_skipLayout (skipLayout_cons not_isBlank_period (by decide) r)]
    rfl

/-- A clause is a comment, a query or an assertion, as its first characters say. -/
theorem clause_cases {node : Node} (h : clause s = .ok (node, r)) :
    (∃ line, s = '%' :: line ∧ comment line = (node, r)) ∨
      (∃ z, s = '?' :: '-' :: z ∧ query z = .ok (node, r)) ∨
      ∃ c z, s = c :: z ∧ c ≠ '%' ∧ c ≠ '?' ∧ assertion s = .ok (node, r) := by
  unfold clause at h
  split at h
  · rename_i line
    exact Or.inl ⟨line, rfl, Except.ok.inj h⟩
  · rename_i z
    exact Or.inr (Or.inl ⟨z, rfl, h⟩)
  · rename_i hpercent hmark
    cases s with
    | nil => cases h
    | cons c z =>
      refine Or.inr (Or.inr ⟨c, z, rfl, ?_, ?_, h⟩)
      · rintro rfl
        exact hpercent z rfl
      · -- a question mark alone opens no term
        rintro rfl
        obtain ⟨head, u, hterm, -⟩ := assertion_eq_ok h
        rw [term, skipLayout_cons (by decide) (by decide)] at hterm
        cases hterm

end HornQuery.Node.Reader
