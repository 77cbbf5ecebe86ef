import Mathlib
import HornQuery.Node.Cursor
import HornQuery.Proofs.Concatenation

/-!
# Cursors stay between characters

Reading by byte offsets is the same as reading the text itself (`Cursor.parseTree_eq`). An offset that
the cursor reaches is the one at which some end of the text starts, and a reader leaves such an end. So
each reader has its counterpart: where the one is given an end of the text, the other is given its
offset, and what they find, what they leave and what they refuse correspond (`Cursor.placed`). Since
only texts are cut where ends of the text start, no cut goes through a character
(`Cursor.parseTree_ne_split`).
-/

namespace HornQuery.Node

open Text

/-! ### Layout by lines -/

namespace Reader

theorem skipLayout_dropWhile (s : List Char) : skipLayout (s.dropWhile isBlank) = skipLayout s := by
  induction s with
  | nil => rfl
  | cons c s ih =>
    by_cases hc : isBlank c = true
    · rw [List.dropWhile_cons_of_pos hc, ih, skipLayout, if_pos hc]
    · rw [List.dropWhile_cons_of_neg hc]

/-- A comment ends with its line. -/
theorem skipComment_eq (s : List Char) : skipComment s = skipLayout (skipLine s) := by
  induction s with
  | nil => rfl
  | cons c s ih =>
    rw [skipComment, skipLine]
    split
    · rfl
    · exact ih

/-- Layout that starts with a comment goes on behind the comment's line. -/
theorem skipLayout_percent (s : List Char) :
    skipLayout ('%' :: s) = skipLayout (skipLine ('%' :: s)) := by
  rw [skipLayout, if_neg (by decide), if_pos rfl, skipComment_eq]
  rfl

end Reader

namespace Cursor

open Reader (Failure Within consumed)

variable {source : String} {r s : List Char} {α β : Type}

/-! ### Offsets of ends -/

/-- Behind a character the offset is larger by as many bytes as the character has. -/
theorem offsetOf_cons {c : Char} {text : List Char} (h : c :: r <:+ text) :
    offsetOf text r = offsetOf text (c :: r) + c.utf8Size := by
  have hle := utf8Length_le_of_suffix h
  rw [utf8Length] at hle
  rw [offsetOf, offsetOf, utf8Length]
  omega

/-- A character of one byte, as all tokens are, moves the offset by one. -/
theorem offsetOf_add_one {c : Char} {text : List Char} (h : c :: r <:+ text)
    (hc : c.utf8Size = 1) : offsetOf text (c :: r) + 1 = offsetOf text r := by
  rw [offsetOf_cons h, hc]

theorem offsetOf_add_two {c d : Char} {text : List Char} (h : c :: d :: r <:+ text)
    (hc : c.utf8Size = 1) (hd : d.utf8Size = 1) :
    offsetOf text (c :: d :: r) + 2 = offsetOf text r := by
  rw [← offsetOf_add_one ((List.suffix_cons c _).trans h) hd, ← offsetOf_add_one h hc]

/-- A cut after whole characters is possible, and leaves the rest. -/
theorem dropBytes?_append (before rest : List Char) :
    dropBytes? (utf8Length before) (before ++ rest) = some rest := by
  induction before with
  | nil => cases rest <;> rfl
  | cons c before ih =>
    have hne : utf8Length (c :: before) ≠ 0 := Nat.ne_of_gt (Nat.add_pos_left c.utf8Size_pos _)
    rw [List.cons_append, dropBytes?, if_neg hne, utf8Length, if_pos (Nat.le_add_right _ _),
      Nat.add_sub_cancel_left, ih]

/-- Such a cut also gives what lies before it. -/
theorem takeBytes?_append (before rest : List Char) :
    takeBytes? (utf8Length before) (before ++ rest) = some before := by
  induction before with
  | nil => cases rest <;> rfl
  | cons c before ih =>
    have hne : utf8Length (c :: before) ≠ 0 := Nat.ne_of_gt (Nat.add_pos_left c.utf8Size_pos _)
    rw [List.cons_append, takeBytes?, if_neg hne, utf8Length, if_pos (Nat.le_add_right _ _),
      Nat.add_sub_cancel_left, ih, Option.map_some]

/-- At the offset of an end of the text, that end remains. -/
theorem remaining_offsetOf (hs : s <:+ source.toList) :
    remaining source (offsetOf source.toList s) = .ok s := by
  obtain ⟨before, hbefore⟩ := hs
  have hoffset : offsetOf source.toList s = utf8Length before := by
    rw [← hbefore, offsetOf, utf8Length_append]
    omega
  rw [remaining, hoffset, ← hbefore, dropBytes?_append]

/-- The cursor sees a token where the text that is left starts with it. -/
theorem startsWith_offsetOf (token : List Char) (hs : s <:+ source.toList) :
    startsWith source token (offsetOf source.toList s) = .ok (token.isPrefixOf s) := by
  rw [startsWith, remaining_offsetOf hs]
  rfl

theorem consumed_of_append {u : List Char} (h : u ++ r = s) : consumed s r = u := by
  subst h
  simp [consumed]

/-- What lies between the offsets of two ends is what the longer one has more. -/
theorem slice_offsetOf (hs : s <:+ source.toList) (hr : r <:+ s) :
    slice source (offsetOf source.toList s) (offsetOf source.toList r) = .ok (consumed s r) := by
  have hle := utf8Length_le_of_suffix hs
  obtain ⟨u, hu⟩ := hr
  have hoffset : offsetOf source.toList r = offsetOf source.toList s + utf8Length u := by
    rw [← hu, utf8Length_append] at hle
    rw [offsetOf, offsetOf, ← hu, utf8Length_append]
    omega
  have hlt : ¬ offsetOf source.toList s + utf8Length u < offsetOf source.toList s := by omega
  have htake : takeBytes? (utf8Length u) s = some u := hu ▸ takeBytes?_append u r
  rw [slice, remaining_offsetOf hs, hoffset, consumed_of_append hu]
  simp only [bind, Except.bind, if_neg hlt, Nat.add_sub_cancel_left, htake]
  rfl

theorem consumed_dropWhile (test : Char → Bool) (s : List Char) :
    consumed s (s.dropWhile test) = s.takeWhile test :=
  consumed_of_append List.takeWhile_append_dropWhile

/-! ### Layout -/

/-- Passing characters is the same as dropping them. -/
theorem skipWhile_offsetOf (test : Char → Bool) (hs : s <:+ source.toList) :
    skipWhile source test (offsetOf source.toList s) =
      .ok (offsetOf source.toList (s.dropWhile test)) := by
  induction s with
  | nil =>
    rw [skipWhile]
    split <;> rename_i heq <;> cases (remaining_offsetOf hs).symm.trans heq
    rfl
  | cons c s ih =>
    have hrest := ih ((List.suffix_cons c s).trans hs)
    rw [offsetOf_cons hs] at hrest
    rw [skipWhile]
    split <;> rename_i heq <;> cases (remaining_offsetOf hs).symm.trans heq
    by_cases hc : test c = true
    · rw [if_pos hc, hrest, List.dropWhile_cons_of_pos hc]
    · rw [if_neg hc, List.dropWhile_cons_of_neg hc]

/-- A line is passed as a whole, and with it the newline. -/
theorem skipLine_offsetOf (hs : s <:+ source.toList) :
    skipLine source (offsetOf source.toList s) =
      .ok (offsetOf source.toList (Reader.skipLine s)) := by
  induction s with
  | nil =>
    rw [skipLine]
    split <;> rename_i heq <;> cases (remaining_offsetOf hs).symm.trans heq
    rfl
  | cons c s ih =>
    have hrest := ih ((List.suffix_cons c s).trans hs)
    rw [offsetOf_cons hs] at hrest
    rw [skipLine, Reader.skipLine]
    split <;> rename_i heq <;> cases (remaining_offsetOf hs).symm.trans heq
    by_cases hc : c = '\n'
    · rw [if_pos hc, if_pos hc, offsetOf_cons hs]
    · rw [if_neg hc, if_neg hc, hrest]

/-- Blanks are passed and then, after a percent sign, the line and what follows it. -/
theorem skipLayout_offsetOf (hs : s <:+ source.toList) :
    skipLayout source (offsetOf source.toList s) =
      .ok (offsetOf source.toList (Reader.skipLayout s)) := by
  -- A line is passed before the rest, so the induction is on how much text is left.
  induction hn : s.length using Nat.strong_induction_on generalizing s with
  | _ n ih =>
    subst hn
    have hblank := skipWhile_offsetOf isBlank hs
    have hle := (List.dropWhile_suffix (l := s) isBlank).length_le
    have hsuffix := (List.dropWhile_suffix (l := s) isBlank).trans hs
    have hfirst := List.head?_dropWhile_not isBlank s
    rw [← Reader.skipLayout_dropWhile, skipLayout]
    split <;> rename_i heq <;> cases hblank.symm.trans heq
    generalize s.dropWhile isBlank = z at *
    cases z with
    | nil =>
      split <;> rename_i heq <;> cases (remaining_offsetOf hsuffix).symm.trans heq
      rfl
    | cons c z =>
      split <;> rename_i heq <;> cases (remaining_offsetOf hsuffix).symm.trans heq
      by_cases hc : c = '%'
      · subst hc
        have hline := skipLine_offsetOf hsuffix
        have hlt : (Reader.skipLine ('%' :: z)).length < s.length := by
          have hshort : (Reader.skipLine ('%' :: z)).length ≤ z.length := (Reader.skipLine_suffix z).length_le
          rw [List.length_cons] at hle
          omega
        rw [if_pos rfl]
        split <;> rename_i heq <;> cases hline.symm.trans heq
        rw [ih _ hlt ((Reader.skipLine_suffix _).trans hsuffix) rfl, Reader.skipLayout_percent]
      · rw [if_neg hc, Reader.skipLayout, if_neg (by simpa using hfirst), if_neg hc]

/-! ### Results and their places -/

/-- The result of a reader with the offset of what is left, and with the place of a failure. -/
def placed (source : String) : Except Failure (α × List Char) → Except Stop (α × Nat)
  | .ok (a, r) => .ok (a, offsetOf source.toList r)
  | .error failure => .error (.refused (failure.toError source))

/-- If two readers correspond and so does what is done with what they find, then both as a whole. -/
theorem placed_bind {x : Except Failure (α × List Char)}
    {f : α × List Char → Except Failure (β × List Char)} {g : α × Nat → Except Stop (β × Nat)}
    (hx : Within s x)
    (h : ∀ a r, r <:+ s → g (a, offsetOf source.toList r) = placed source (f (a, r))) :
    placed source x >>= g = placed source (x >>= f) := by
  cases x with
  | ok found => exact h found.1 found.2 hx
  | error failure => rfl

/-- A token is found behind the layout by both, or by none. -/
theorem expect_offsetOf (token : Char) (hs : s <:+ source.toList)
    {f : List Char → Except Failure (β × List Char)} {g : Nat → Except Stop (β × Nat)}
    (h : ∀ r, r <:+ s → g (offsetOf source.toList r) = placed source (f r)) :
    expect source token (offsetOf source.toList s) >>= g =
      placed source (Reader.expect token s >>= f) := by
  have hsuffix := Reader.skipLayout_suffix s
  rw [expect, Reader.expect, skipLayout_offsetOf hs]
  simp only [bind, Except.bind, remaining_offsetOf (hsuffix.trans hs)]
  cases hz : Reader.skipLayout s with
  | nil => rfl
  | cons c r =>
    rw [hz] at hsuffix
    by_cases hc : c = token
    · subst hc
      simp only [if_true, pure, Except.pure, ← offsetOf_cons (hsuffix.trans hs)]
      exact h r ((List.suffix_cons c r).trans hsuffix)
    · simp only [if_neg hc]
      rfl

/-! ### Names and numerals -/

/-- A name is what lies between two offsets. -/
theorem name_offsetOf (hs : s <:+ source.toList) :
    name source (offsetOf source.toList s) = placed source (.ok (Reader.name s)) := by
  have hsuffix := List.dropWhile_suffix (l := s) Reader.isNameChar
  simp only [name, skipWhile_offsetOf _ hs, slice_offsetOf hs hsuffix, consumed_dropWhile, bind,
    Except.bind]
  rfl

/-- A numeral lies between two offsets too, with or without a period in it. -/
theorem numeral_offsetOf (hs : s <:+ source.toList) :
    numeral source (offsetOf source.toList s) = placed source (.ok (Reader.numeral s)) := by
  have hdigits := List.dropWhile_suffix (l := s) Char.isDigit
  have hwhole := List.takeWhile_append_dropWhile (p := Char.isDigit) (l := s)
  have hslice := slice_offsetOf hs hdigits
  rw [consumed_of_append hwhole] at hslice
  simp only [numeral, Reader.numeral, skipWhile_offsetOf _ hs, remaining_offsetOf (hdigits.trans hs),
    bind, Except.bind]
  generalize s.dropWhile Char.isDigit = z at *
  split
  · rename_i c r
    by_cases hc : c.isDigit = true
    · -- The period belongs to the numeral, and so do the digits behind it.
      have hmore := List.dropWhile_suffix (l := c :: r) Char.isDigit
      have hbehind := (List.suffix_cons '.' (c :: r)).trans hdigits
      have hpoint := offsetOf_add_one (hdigits.trans hs) rfl
      have hall : s.takeWhile Char.isDigit ++ '.' :: (c :: r).takeWhile Char.isDigit ++
          (c :: r).dropWhile Char.isDigit = s := by
        rw [List.append_assoc, List.cons_append, List.takeWhile_append_dropWhile, hwhole]
      simp only [hc, if_true, hpoint, skipWhile_offsetOf _ (hbehind.trans hs),
        slice_offsetOf hs (hmore.trans hbehind), consumed_of_append hall]
      rfl
    · simp only [if_neg hc, pure, Except.pure, hslice]
      rfl
  · simp only [pure, Except.pure, hslice]
    rfl

/-- A quoted name lies between its quotes, and a missing quote is reported at the first one. -/
theorem quoted_offsetOf (hs : '\'' :: s <:+ source.toList) :
    quoted source (offsetOf source.toList ('\'' :: s)) =
      placed source (Reader.quoted ('\'' :: s) s) := by
  have hbody : s <:+ source.toList := (List.suffix_cons _ _).trans hs
  have hopen := offsetOf_add_one hs rfl
  have hstop := List.dropWhile_suffix (l := s) fun c ↦ c ≠ '\'' && c ≠ '\n'
  have hslice := slice_offsetOf hbody hstop
  rw [consumed_dropWhile] at hslice
  simp only [quoted, Reader.quoted, hopen, skipWhile_offsetOf _ hbody,
    startsWith_offsetOf _ (hstop.trans hbody), bind, Except.bind, hslice]
  generalize s.dropWhile (fun c ↦ c ≠ '\'' && c ≠ '\n') = z at *
  by_cases h : ['\''].isPrefixOf z = true
  · obtain ⟨r, rfl⟩ : ∃ r, '\'' :: r = z := List.isPrefixOf_iff_prefix.mp h
    rw [if_pos h, offsetOf_add_one (hstop.trans hbody) rfl]
    rfl
  · rw [if_neg h]
    split
    · exact absurd rfl h
    · rfl

/-! ### Terms -/

/-- If the items correspond, so do lists of them. The comma is one byte wide. -/
theorem commaList_offsetOf {read : List Char → Except Failure (Node × List Char)}
    {walk : Nat → Except Stop (Node × Nat)} (hread : ∀ s, Within s (read s))
    (hwalk : ∀ s, s <:+ source.toList → walk (offsetOf source.toList s) = placed source (read s))
    (bound : Nat) (hs : s <:+ source.toList) :
    commaList source walk bound (offsetOf source.toList s) =
      placed source (Reader.commaList read bound s) := by
  induction bound generalizing s with
  | zero => rfl
  | succ bound ih =>
    rw [commaList, Reader.commaList, hwalk s hs]
    refine placed_bind (hread s) fun x r hr ↦ ?_
    have hr := hr.trans hs
    have hskip := (Reader.skipLayout_suffix r).trans hr
    simp only [skipLayout_offsetOf hr, startsWith_offsetOf _ hskip, bind, Except.bind]
    generalize Reader.skipLayout r = z at *
    by_cases h : [','].isPrefixOf z = true
    · obtain ⟨z, rfl⟩ : ∃ r, ',' :: r = z := List.isPrefixOf_iff_prefix.mp h
      have hbehind := (List.suffix_cons ',' z).trans hskip
      rw [if_pos h, offsetOf_add_one hskip rfl, ih hbehind]
      refine placed_bind (Reader.commaList_within hread bound z) fun xs r' _ ↦ ?_
      rfl
    · rw [if_neg h]
      split
      · exact absurd rfl h
      · rfl

/-- If the arguments correspond, so does what they are applied to. -/
theorem application_offsetOf {read : List Char → Except Failure (List Node × List Char)}
    {walk : Nat → Except Stop (List Node × Nat)} (hread : ∀ s, Within s (read s))
    (hwalk : ∀ s, s <:+ source.toList → walk (offsetOf source.toList s) = placed source (read s))
    (text : String) (hs : s <:+ source.toList) :
    application source walk text (offsetOf source.toList s) =
      placed source (Reader.application read text s) := by
  unfold application Reader.application
  simp only [startsWith_offsetOf _ hs, bind, Except.bind]
  by_cases h : ['('].isPrefixOf s = true
  · obtain ⟨r, rfl⟩ : ∃ r, '(' :: r = s := List.isPrefixOf_iff_prefix.mp h
    have hr := (List.suffix_cons '(' r).trans hs
    rw [if_pos h, offsetOf_add_one hs rfl, hwalk r hr]
    refine placed_bind (hread r) fun xs u hu ↦ ?_
    refine expect_offsetOf ')' (hu.trans hr) fun v _ ↦ ?_
    rfl
  · rw [if_neg h]
    split
    · exact absurd rfl h
    · rfl

/-- Terms correspond, to any depth. -/
theorem term_offsetOf (depth : Nat) (hs : s <:+ source.toList) :
    term source depth (offsetOf source.toList s) = placed source (Reader.term depth s) := by
  induction depth generalizing s with
  | zero => rfl
  | succ depth ih =>
    have hargs := Reader.commaList_within (Reader.term_within depth) depth
    -- The arguments are read one level less deep, where the two readers agree by induction.
    have happly : ∀ text s, s <:+ source.toList →
        application source (commaList source (term source depth) depth) text
          (offsetOf source.toList s) =
        placed source (Reader.application (Reader.commaList (Reader.term depth) depth) text s) :=
      fun text s hs ↦ application_offsetOf hargs (fun s hs ↦
        commaList_offsetOf (Reader.term_within depth) (fun s hs ↦ ih hs) depth hs) text hs
    have hskip := (Reader.skipLayout_suffix s).trans hs
    rw [term, Reader.term]
    simp only [skipLayout_offsetOf hs, remaining_offsetOf hskip, bind, Except.bind]
    generalize Reader.skipLayout s = z at *
    cases z with
    | nil => rfl
    | cons c r =>
      have hr := (List.suffix_cons c r).trans hskip
      have hname := (List.dropWhile_suffix (l := c :: r) Reader.isNameChar).trans hskip
      simp only [numeral_offsetOf hskip, name_offsetOf hskip]
      -- Both readers choose by the same character, and advance past what they read.
      split_ifs with hnumeral hcolon hempty hupper hlower hquote
      · rfl
      · subst hcolon
        rw [offsetOf_add_one hskip rfl, name_offsetOf hr]
        exact if_pos hempty
      · subst hcolon
        rw [offsetOf_add_one hskip rfl, name_offsetOf hr]
        exact if_neg hempty
      · rfl
      · exact happly _ _ hname
      · subst hquote
        rw [quoted_offsetOf hskip]
        exact placed_bind (Reader.quoted_within (List.suffix_cons _ r)) fun text u hu ↦
          happly text u (hu.trans hskip)
      · rfl

/-- The bound on terms and goals is taken from the text that remains, which is the same for both. -/
theorem goals_offsetOf (hs : s <:+ source.toList) :
    goals source (offsetOf source.toList s) = placed source (Reader.goals s) := by
  have hterm := Reader.term_within (s.length + 1)
  have hitems := commaList_offsetOf hterm (fun _ h ↦ term_offsetOf (s.length + 1) h)
    (s.length + 1) hs
  rw [goals, Reader.goals]
  simp only [remaining_offsetOf hs, bind, Except.bind]
  rw [hitems]
  refine placed_bind (Reader.commaList_within hterm _ s) fun gs r hr ↦ ?_
  simp only [startsWith_offsetOf _ (hr.trans hs)]
  by_cases h : [';'].isPrefixOf r = true
  · obtain ⟨r, rfl⟩ : ∃ u, ';' :: u = r := List.isPrefixOf_iff_prefix.mp h
    exact if_pos h
  · rw [if_neg h]
    split
    · exact absurd rfl h
    · rfl

/-! ### Clauses -/

/-- A line is passed with its newline, if it has one. -/
theorem consumed_skipLine (s : List Char) :
    consumed s (Reader.skipLine s) = s.takeWhile (· ≠ '\n') ∨
      consumed s (Reader.skipLine s) = s.takeWhile (· ≠ '\n') ++ ['\n'] := by
  suffices h : s.takeWhile (· ≠ '\n') ++ Reader.skipLine s = s ∨
      s.takeWhile (· ≠ '\n') ++ ['\n'] ++ Reader.skipLine s = s from
    h.imp consumed_of_append consumed_of_append
  induction s with
  | nil => exact Or.inl rfl
  | cons c s ih =>
    by_cases hc : c = '\n'
    · subst hc
      exact Or.inr rfl
    · have htake : (c :: s).takeWhile (· ≠ '\n') = c :: s.takeWhile (· ≠ '\n') :=
        List.takeWhile_cons_of_pos (by simpa using hc)
      rw [htake, Reader.skipLine, if_neg hc]
      exact ih.imp (congrArg (c :: ·)) (congrArg (c :: ·))

/-- Without newlines there are only carriage returns to drop. -/
theorem dropWhile_of_not_mem {l : List Char} (h : '\n' ∉ l) :
    l.dropWhile (fun c ↦ c = '\r' || c = '\n') = l.dropWhile (· = '\r') := by
  induction l with
  | nil => rfl
  | cons c l ih =>
    have hc : c ≠ '\n' := (List.ne_of_not_mem_cons h).symm
    simp [List.dropWhile_cons, hc, ih (List.not_mem_of_not_mem_cons h)]

theorem comment_offsetOf (hs : '%' :: s <:+ source.toList) :
    comment source (offsetOf source.toList ('%' :: s)) = placed source (.ok (Reader.comment s)) := by
  have hbody := (List.suffix_cons '%' s).trans hs
  have hline : Reader.skipLine ('%' :: s) = Reader.skipLine s := rfl
  have hslice := slice_offsetOf hbody (Reader.skipLine_suffix s)
  simp only [comment, skipLine_offsetOf hs, hline, offsetOf_add_one hs rfl, hslice, bind, Except.bind]
  have hno : '\n' ∉ (s.takeWhile (· ≠ '\n')).reverse := fun hmem ↦ by
    simpa using List.mem_takeWhile_imp (List.mem_reverse.mp hmem)
  rw [Reader.comment, ← dropWhile_of_not_mem hno]
  rcases consumed_skipLine s with h | h
  · rw [h]
    rfl
  · rw [h, List.reverse_append]
    rfl

/-- The text of a query is cut out where its goals start and end. -/
theorem query_offsetOf (hs : '?' :: '-' :: s <:+ source.toList) :
    query source (offsetOf source.toList ('?' :: '-' :: s)) = placed source (Reader.query s) := by
  have hbody := (List.suffix_cons '-' s).trans ((List.suffix_cons '?' _).trans hs)
  have hstart := (Reader.skipLayout_suffix s).trans hbody
  rw [query, Reader.query, offsetOf_add_two hs rfl rfl]
  simp only [skipLayout_offsetOf hbody, goals_offsetOf hstart, bind, Except.bind]
  refine placed_bind (Reader.goals_within _) fun gs r hr ↦ ?_
  simp only [slice_offsetOf hstart hr]
  exact expect_offsetOf '.' (hr.trans hstart) fun behind _ ↦ rfl

theorem assertion_offsetOf (hs : s <:+ source.toList) :
    assertion source (offsetOf source.toList s) = placed source (Reader.assertion s) := by
  rw [assertion, Reader.assertion]
  simp only [remaining_offsetOf hs, term_offsetOf _ hs, bind, Except.bind]
  refine placed_bind (Reader.term_within _ s) fun head r hr ↦ ?_
  have hr := hr.trans hs
  have hskip := (Reader.skipLayout_suffix r).trans hr
  simp only [skipLayout_offsetOf hr, startsWith_offsetOf _ hskip]
  generalize Reader.skipLayout r = z at *
  by_cases h : [':', '-'].isPrefixOf z = true
  · obtain ⟨z, rfl⟩ : ∃ r, ':' :: '-' :: r = z := List.isPrefixOf_iff_prefix.mp h
    have hbody := (List.suffix_cons '-' z).trans ((List.suffix_cons ':' _).trans hskip)
    rw [if_pos h, offsetOf_add_two hskip rfl rfl, goals_offsetOf hbody]
    refine placed_bind (Reader.goals_within z) fun body u hu ↦ ?_
    exact expect_offsetOf '.' (hu.trans hbody) fun behind _ ↦ rfl
  · rw [if_neg h]
    refine (expect_offsetOf '.' hskip (f := fun r ↦ .ok (.fact head, r)) fun behind _ ↦ rfl).trans ?_
    split
    · exact absurd rfl h
    · rfl

/-- What a clause is, its first characters decide for both. -/
theorem clause_offsetOf (hs : s <:+ source.toList) :
    clause source (offsetOf source.toList s) = placed source (Reader.clause s) := by
  unfold clause Reader.clause
  simp only [startsWith_offsetOf _ hs, bind, Except.bind]
  by_cases hcomment : ['%'].isPrefixOf s = true
  · obtain ⟨s, rfl⟩ : ∃ r, '%' :: r = s := List.isPrefixOf_iff_prefix.mp hcomment
    rw [if_pos hcomment]
    exact comment_offsetOf hs
  by_cases hquery : ['?', '-'].isPrefixOf s = true
  · obtain ⟨s, rfl⟩ : ∃ r, '?' :: '-' :: r = s := List.isPrefixOf_iff_prefix.mp hquery
    rw [if_neg hcomment, if_pos hquery]
    exact query_offsetOf hs
  rw [if_neg hcomment, if_neg hquery]
  split
  · exact absurd rfl hcomment
  · exact absurd rfl hquery
  · exact assertion_offsetOf hs

/-! ### Whole texts -/

/-- Clauses with the offsets at which they start, and a failure with its place. -/
def located (source : String) : Except Failure (List (List Char × Node)) → Except Stop (List Located)
  | .ok found => .ok (found.map fun (rest, node) ↦ ⟨offsetOf source.toList rest, node⟩)
  | .error failure => .error (.refused (failure.toError source))

/-- The cursor is at the end of the text exactly if no text is left but blanks. -/
theorem clauses_offsetOf (bound : Nat) (hs : s <:+ source.toList) :
    clauses source bound (offsetOf source.toList s) = located source (Reader.clauses bound s) := by
  induction bound generalizing s with
  | zero => rfl
  | succ bound ih =>
    have hstart := (List.dropWhile_suffix (l := s) isBlank).trans hs
    have hle := utf8Length_le_of_suffix hstart
    rw [clauses, Reader.clauses]
    simp only [skipWhile_offsetOf isBlank hs, bind, Except.bind]
    generalize s.dropWhile isBlank = z at *
    cases z with
    | nil => exact if_pos (Nat.le_refl _)
    | cons c z =>
      -- A character is left, so the offset is not yet at the end of the source.
      have hlt : ¬ utf8Length source.toList ≤ offsetOf source.toList (c :: z) := by
        have hpos := c.utf8Size_pos
        rw [utf8Length] at hle
        rw [offsetOf, utf8Length]
        omega
      have hwithin := Reader.clause_within (c :: z)
      rw [if_neg hlt, clause_offsetOf hstart]
      cases hclause : Reader.clause (c :: z) with
      | error failure =>
        simp only [hclause]
        rfl
      | ok found =>
        rw [hclause] at hwithin
        have hmore := ih (List.IsSuffix.trans hwithin hstart)
        simp only [placed, hmore, hclause]
        cases Reader.clauses bound found.2 <;> rfl

/-- Reading by offsets gives the same clauses at the same offsets, and the same errors. -/
theorem parseTree_eq (source : String) :
    parseTree source = (Node.parseTree source).mapError Stop.refused := by
  have h := clauses_offsetOf source.toList.length (List.suffix_refl source.toList)
  rw [offsetOf, Nat.sub_self] at h
  rw [parseTree, h, Node.parseTree]
  cases Reader.clauses source.toList.length source.toList <;> rfl

/-- No cut goes through a character. -/
theorem parseTree_ne_split (source : String) (pos : Nat) :
    parseTree source ≠ .error (.split pos) := by
  rw [parseTree_eq]
  cases Node.parseTree source with
  | ok tree => simp [Except.mapError]
  | error e => simp [Except.mapError]

/-- The same holds of a term by itself. -/
theorem parseTerm_eq (source : String) :
    parseTerm source = (Node.parseTerm source).mapError Stop.refused := by
  have h := term_offsetOf (source.toList.length + 1) (List.suffix_refl source.toList)
  rw [offsetOf, Nat.sub_self] at h
  rw [parseTerm, h, Node.parseTerm]
  cases Reader.term (source.toList.length + 1) source.toList <;> rfl

end Cursor

end HornQuery.Node
