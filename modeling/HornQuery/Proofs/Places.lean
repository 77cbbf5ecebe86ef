import Mathlib
import HornQuery.Proofs.Collected
import HornQuery.Proofs.Cursor

/-!
# Places lead back to offsets

The line and the column of a place are as good as its byte offset: whoever skips the lines above and
then the code points before the place arrives at that offset again (`Location.offsetAt?_ofOffset`), so
no two offsets share a line and a column.

A text is refused while one of its clauses is read or, if all can be read, while one is collected. The
place that is reported lies on a character boundary within the text and never before the clause in
question (`ParseError.place_exact`). `Reader.Arrives` says where the clauses of a text start, whether
or not they can be read. A cursor that counts bytes arrives at the same places (`Cursor.parseTree_eq`).
-/

namespace HornQuery

/-! ### Lines and columns -/

namespace Text

/-- The text behind the first lines, each with the newline that ends it. -/
def dropLines? : Nat → List Char → Option (List Char)
  | 0, s => some s
  | lines + 1, s =>
    match s.dropWhile (· ≠ '\n') with
    | [] => none
    | _ :: s => dropLines? lines s

/-- The byte offset of a line and a column, both counted from one. A column may be that of the newline,
but no column lies behind it. -/
def offsetAt? (s : List Char) (line column : Nat) : Option Nat := do
  let rest ← dropLines? (line - 1) s
  if column - 1 ≤ (rest.takeWhile (· ≠ '\n')).length then
    some (utf8Length s - utf8Length (rest.drop (column - 1)))
  else none

variable {s t before rest : List Char}

theorem lastLine_of_not_mem (h : '\n' ∉ s) : lastLine s = s := by
  rw [lastLine, List.takeWhile_eq_self_iff.mpr, List.reverse_reverse]
  intro c hc
  simpa using ne_of_mem_of_not_mem (List.mem_reverse.mp hc) h

/-- The last line has no newline in it. -/
theorem not_mem_lastLine (s : List Char) : '\n' ∉ lastLine s := by
  intro h
  have := List.mem_takeWhile_imp (List.mem_reverse.mp h)
  simp at this

/-- Skipping as many lines as there are newlines before a place leads to the start of its line. -/
theorem dropLines?_count (before rest : List Char) :
    dropLines? (before.count '\n') (before ++ rest) = some (lastLine before ++ rest) := by
  induction before with
  | nil => rfl
  | cons c before ih =>
    by_cases hc : c = '\n'
    · subst hc
      have hline : lastLine ('\n' :: before) = lastLine before := lastLine_append [] before
      rw [List.count_cons_self, hline, List.cons_append, dropLines?,
        List.dropWhile_cons_of_neg (by simp)]
      exact ih
    · rw [List.count_cons_of_ne hc]
      by_cases hmem : '\n' ∈ before
      · -- the character stands on a line that is skipped
        obtain ⟨above, line, rfl⟩ := List.append_of_mem hmem
        obtain ⟨n, hn⟩ : ∃ n, (above ++ '\n' :: line).count '\n' = n + 1 :=
          ⟨above.count '\n' + line.count '\n', by simp [Nat.add_assoc]⟩
        have hline : lastLine (c :: (above ++ '\n' :: line)) = lastLine (above ++ '\n' :: line) := by
          rw [lastLine_append, ← List.cons_append, lastLine_append]
        rw [hn, dropLines?] at ih
        rw [hn, hline, List.cons_append, dropLines?, List.dropWhile_cons_of_pos (by simpa using hc)]
        exact ih
      · -- the character stands on the last line
        have hnone : '\n' ∉ c :: before := by simp [Ne.symm hc, hmem]
        rw [List.count_eq_zero.mpr hmem, lastLine_of_not_mem hnone, dropLines?]

/-- Skipping the lines above a place and then the code points before it leads to the bytes before
it. -/
theorem offsetAt?_after (before rest : List Char) :
    offsetAt? (before ++ rest) (Location.after before).line (Location.after before).column =
      some (utf8Length before) := by
  have hcolumn : (lastLine before).length ≤
      ((lastLine before ++ rest).takeWhile (· ≠ '\n')).length := by
    rw [List.takeWhile_append_of_pos, List.length_append]
    · exact Nat.le_add_right _ _
    · intro c hc
      simpa using ne_of_mem_of_not_mem hc (not_mem_lastLine before)
  simp only [offsetAt?, Location.after, Nat.add_sub_cancel, dropLines?_count, Option.bind_eq_bind,
    Option.bind_some, if_pos hcolumn, List.drop_left, utf8Length_append]

end Text

open Text

namespace Location

variable {source : String} {p q : Nat}

/-- A character boundary is the length of a leading part of the text. -/
theorem exists_eq_append_of_isValid (h : String.Pos.Raw.IsValid source ⟨p⟩) :
    ∃ before rest, source.toList = before ++ rest ∧ utf8Length before = p := by
  obtain ⟨before, rest, rfl, hp⟩ := String.Pos.Raw.isValid_iff_exists_append.mp h
  refine ⟨before.toList, rest.toList, String.toList_append, ?_⟩
  rw [← utf8ByteSize_eq_utf8Length]
  exact (congrArg String.Pos.Raw.byteIdx hp).symm

/-- Between any two characters there is a boundary. -/
theorem isValid_of_eq_append {before rest : List Char} (h : source.toList = before ++ rest) :
    String.Pos.Raw.IsValid source ⟨utf8Length before⟩ := by
  refine String.Pos.Raw.isValid_iff_exists_append.mpr
    ⟨String.ofList before, String.ofList rest, ?_, ?_⟩
  · rw [← String.toList_inj, h, String.toList_append, String.toList_ofList, String.toList_ofList]
  · have hsize := utf8ByteSize_eq_utf8Length (String.ofList before)
    rw [String.toList_ofList] at hsize
    rw [← hsize]
    rfl

/-- The place of an offset is the place behind the characters before it. -/
theorem ofOffset_eq_after {before rest : List Char} (h : source.toList = before ++ rest) :
    ofOffset source (utf8Length before) = after before := by
  rw [ofOffset, h, takeBytes_utf8Length_append]

/-- A place remembers its offset. -/
theorem offset_ofOffset (h : String.Pos.Raw.IsValid source ⟨p⟩) : (ofOffset source p).offset = p := by
  obtain ⟨before, rest, hsource, rfl⟩ := exists_eq_append_of_isValid h
  rw [ofOffset_eq_after hsource]
  rfl

/-- The line and the column of an offset lead back to it. -/
theorem offsetAt?_ofOffset (h : String.Pos.Raw.IsValid source ⟨p⟩) :
    offsetAt? source.toList (ofOffset source p).line (ofOffset source p).column = some p := by
  obtain ⟨before, rest, hsource, rfl⟩ := exists_eq_append_of_isValid h
  rw [ofOffset_eq_after hsource, hsource]
  exact offsetAt?_after before rest

/-- No two boundaries share a line and a column. -/
theorem eq_of_line_of_column (hp : String.Pos.Raw.IsValid source ⟨p⟩)
    (hq : String.Pos.Raw.IsValid source ⟨q⟩) (hline : (ofOffset source p).line = (ofOffset source q).line)
    (hcolumn : (ofOffset source p).column = (ofOffset source q).column) : p = q := by
  have hback := offsetAt?_ofOffset hp
  rw [hline, hcolumn, offsetAt?_ofOffset hq] at hback
  exact (Option.some.inj hback).symm

end Location

/-! ### Where clauses start -/

namespace Node

namespace Reader

variable {r s t : List Char} {node : Node}

/-- Reading a text clause by clause arrives at `s`: blanks have been skipped, and a clause starts here
unless nothing is left. -/
inductive Arrives (text : List Char) : List Char → Prop
  | first : Arrives text (text.dropWhile isBlank)
  | next {s r : List Char} {node : Node} : Arrives text s → clause s = .ok (node, r) →
      Arrives text (r.dropWhile isBlank)

namespace Arrives

/-- Where a clause starts, some end of the text starts. -/
theorem suffix (h : Arrives t s) : s <:+ t := by
  induction h with
  | first => exact List.dropWhile_suffix _
  | @next s r node _ hclause ih =>
    have hwithin := clause_within s
    rw [hclause] at hwithin
    exact (List.dropWhile_suffix _).trans (List.IsSuffix.trans hwithin ih)

/-- Where reading arrives behind the first clause, it arrives from the start. -/
theorem behind (hclause : clause (t.dropWhile isBlank) = .ok (node, r)) (h : Arrives r s) :
    Arrives t s := by
  induction h with
  | first => exact .next .first hclause
  | next _ hnext ih => exact .next ih hnext

end Arrives

/-- A failure among clauses is that of a clause at which reading arrives. -/
theorem clauses_eq_error {bound : Nat} {failure : Failure} (h : clauses bound t = .error failure) :
    ∃ s, Arrives t s ∧ s ≠ [] ∧ clause s = .error failure := by
  induction bound generalizing t with
  | zero => cases h
  | succ bound ih =>
    rw [clauses] at h
    split at h
    · cases h
    · rename_i hne
      cases hclause : clause (t.dropWhile isBlank) with
      | error e =>
        rw [hclause] at h
        obtain rfl := Except.error.inj h
        exact ⟨_, .first, hne, hclause⟩
      | ok found =>
        -- The clause is fine, so the fault is behind it.
        rw [hclause] at h
        cases hmore : clauses bound found.2 with
        | ok more =>
          simp only [bind, Except.bind, hmore] at h
          cases h
        | error e =>
          simp only [bind, Except.bind, hmore] at h
          obtain rfl := Except.error.inj h
          obtain ⟨s, hs, hne, herror⟩ := ih hmore
          exact ⟨s, hs.behind hclause, hne, herror⟩

/-- Clauses are read where reading arrives. -/
theorem arrives_of_mem {bound : Nat} {found : List (List Char × Node)}
    (h : clauses bound t = .ok found) {x : List Char × Node} (hx : x ∈ found) : Arrives t x.1 := by
  induction bound generalizing t found with
  | zero =>
    obtain rfl := Except.ok.inj h
    cases hx
  | succ bound ih =>
    rw [clauses] at h
    split at h
    · obtain rfl := Except.ok.inj h
      cases hx
    · obtain ⟨⟨node, r⟩, hclause, hrest⟩ := except_bind_eq_ok h
      obtain ⟨more, hmore, hfound⟩ := except_bind_eq_ok hrest
      obtain rfl := Except.ok.inj hfound
      rcases List.mem_cons.mp hx with rfl | hx
      · exact .first
      · exact (ih hmore hx).behind hclause

end Reader

end Node

open Node Node.Reader

/-! ### Where texts are refused -/

/-- The clauses before the first one that is refused are accepted. -/
theorem Draft.visitAll_eq_error {d : Draft} {tree : List Located} {e : ParseError}
    (h : d.visitAll tree = .error e) :
    ∃ done c more d', tree = done ++ c :: more ∧ d.visitAll done = .ok d' ∧
      (d'.visit c).2 = some e := by
  induction tree generalizing d with
  | nil => cases h
  | cons c tree ih =>
    rw [Draft.visitAll] at h
    split at h
    · rename_i after e' hvisit
      obtain rfl := Except.error.inj h
      exact ⟨[], c, tree, d, rfl, rfl, congrArg Prod.snd hvisit⟩
    · rename_i after hvisit
      obtain ⟨done, c', more, d', rfl, hdone, hfault⟩ := ih h
      refine ⟨c :: done, c', more, d', rfl, ?_, hfault⟩
      rw [Draft.visitAll, hvisit]
      exact hdone

/-- A text is refused while it is read or while its clauses are collected. -/
theorem Program.parse_eq_error {source : String} {e : ParseError}
    (h : Program.parse source = .error e) :
    parseTree source = .error e ∨
      ∃ tree, parseTree source = .ok tree ∧ Draft.visitAll { source } tree = .error e := by
  cases htree : parseTree source with
  | error e' =>
    rw [Program.parse, htree] at h
    obtain rfl := Except.error.inj h
    exact Or.inl rfl
  | ok tree =>
    cases hvisit : Draft.visitAll { source } tree with
    | ok d =>
      simp only [Program.parse, htree, hvisit, bind, Except.bind] at h
      cases h
    | error e' =>
      simp only [Program.parse, htree, hvisit, bind, Except.bind] at h
      obtain rfl := Except.error.inj h
      exact Or.inr ⟨tree, rfl, hvisit⟩

/-- The clause at which a text is refused, given by the text that starts with it, and why. -/
inductive RefusedAt (source : String) : List Char → Fault → Prop
  /-- The clause cannot be read. -/
  | reading {s : List Char} {failure : Failure} (harrives : Arrives source.toList s) (hne : s ≠ [])
    (h : clause s = .error failure) : RefusedAt source s failure.fault
  /-- All clauses can be read, and this is the first one that cannot be collected. -/
  | collecting {s r : List Char} {node : Node} {done more : List Located} {d : Draft} {e : ParseError}
    (harrives : Arrives source.toList s) (hread : clause s = .ok (node, r))
    (htree : parseTree source = .ok (done ++ ⟨offsetOf source.toList s, node⟩ :: more))
    (hdone : Draft.visitAll { source } done = .ok d)
    (h : (d.visit ⟨offsetOf source.toList s, node⟩).2 = some e) : RefusedAt source s e.fault

namespace ParseError

variable {source : String} {s rest : List Char} {e : ParseError}

/-- The place of an error is a boundary within the text, not before the clause that starts with `s`. -/
structure Placed (source : String) (s : List Char) (e : ParseError) : Prop where
  location : e.location = .ofOffset source e.location.offset
  boundary : String.Pos.Raw.IsValid source ⟨e.location.offset⟩
  start_le : offsetOf source.toList s ≤ e.location.offset
  le_size : e.location.offset ≤ source.utf8ByteSize

/-- An error at a place within a clause is placed. -/
theorem placed_ofOffset (hs : s <:+ source.toList) (hrest : rest <:+ s) (fault : Fault) :
    Placed source s (.ofOffset source (offsetOf source.toList rest) fault) := by
  obtain ⟨before, hbefore⟩ := hrest.trans hs
  have hoffset : offsetOf source.toList rest = utf8Length before := by
    rw [offsetOf, ← hbefore, utf8Length_append, Nat.add_sub_cancel]
  have hvalid : String.Pos.Raw.IsValid source ⟨utf8Length before⟩ :=
    Location.isValid_of_eq_append hbefore.symm
  have hlocation : (ofOffset source (utf8Length before) fault).location.offset = utf8Length before :=
    Location.offset_ofOffset hvalid
  rw [hoffset]
  refine ⟨?_, ?_, ?_, ?_⟩
  · rw [hlocation]
    rfl
  · rw [hlocation]
    exact hvalid
  · rw [hlocation, ← hoffset]
    exact Nat.sub_le_sub_left (utf8Length_le_of_suffix hrest) _
  · rw [hlocation, ← hoffset, utf8ByteSize_eq_utf8Length]
    exact Nat.sub_le _ _

/-- A clause that cannot be read is refused where its reader failed, which is not before the
clause. -/
theorem placed_of_parseTree (h : parseTree source = .error e) :
    ∃ s, RefusedAt source s e.fault ∧ Placed source s e := by
  obtain ⟨failure, hfailure, rfl⟩ := parseTree_eq_error h
  obtain ⟨s, harrives, hne, hclause⟩ := clauses_eq_error hfailure
  have hrest : failure.rest <:+ s := by
    have hwithin := clause_within s
    rwa [hclause] at hwithin
  exact ⟨s, .reading harrives hne hclause, placed_ofOffset harrives.suffix hrest failure.fault⟩

/-- A clause that cannot be collected is refused at its start. -/
theorem placed_of_visitAll {tree : List Located} (htree : parseTree source = .ok tree)
    (h : Draft.visitAll { source } tree = .error e) :
    ∃ s, RefusedAt source s e.fault ∧ Placed source s e := by
  obtain ⟨done, c, more, d, rfl, hdone, hrefused⟩ := Draft.visitAll_eq_error h
  obtain ⟨found, hfound, hmap⟩ := parseTree_eq_ok htree
  have hmem : c ∈ done ++ c :: more := by simp
  rw [hmap] at hmem
  obtain ⟨⟨s, node⟩, hx, rfl⟩ := List.mem_map.mp hmem
  obtain ⟨r, hread⟩ := clause_of_mem hfound hx
  have harrives : Arrives source.toList s := arrives_of_mem hfound hx
  have hsource : d.source = source := by
    rw [Draft.visitAll_eq_ok hdone]
    exact Draft.source_visits _ done
  obtain ⟨-, fault, rfl⟩ := Draft.visit_eq_some hrefused
  refine ⟨s, .collecting harrives hread htree hdone hrefused, ?_⟩
  rw [hsource]
  exact placed_ofOffset harrives.suffix List.suffix_rfl fault

/-- The line and the column of an error lead back to its byte offset, for every character boundary of
the text, so that different offsets have different lines or columns. Whatever a text is refused for,
the error is placed on a character boundary within the text and not before the clause that was being
read or collected. A cursor of byte offsets, which would stop at an offset inside a character, never
does: it reads the same clauses and reports the same errors. -/
theorem place_exact (source : String) :
    (∀ p fault, String.Pos.Raw.IsValid source ⟨p⟩ →
        (ofOffset source p fault).location.offset = p ∧
          offsetAt? source.toList (ofOffset source p fault).location.line
            (ofOffset source p fault).location.column = some p) ∧
      (∀ p q fault, String.Pos.Raw.IsValid source ⟨p⟩ → String.Pos.Raw.IsValid source ⟨q⟩ →
        (ofOffset source p fault).location.line = (ofOffset source q fault).location.line →
        (ofOffset source p fault).location.column = (ofOffset source q fault).location.column →
        p = q) ∧
      (∀ e, parseTree source = .error e ∨ Program.parse source = .error e →
        ∃ s, RefusedAt source s e.fault ∧ Placed source s e) ∧
      Cursor.parseTree source = (parseTree source).mapError Cursor.Stop.refused ∧
      ∀ p, Cursor.parseTree source ≠ .error (.split p) := by
  refine ⟨fun p fault hp ↦ ⟨Location.offset_ofOffset hp, Location.offsetAt?_ofOffset hp⟩,
    fun p q fault hp hq ↦ Location.eq_of_line_of_column hp hq, fun e he ↦ ?_,
    Cursor.parseTree_eq source, Cursor.parseTree_ne_split source⟩
  rcases he with htree | hparse
  · exact placed_of_parseTree htree
  · rcases Program.parse_eq_error hparse with htree | ⟨tree, htree, hvisit⟩
    · exact placed_of_parseTree htree
    · exact placed_of_visitAll htree hvisit

/-- A clause below a comment with a wide character is refused at another wide character. -/
theorem place_exact_wide :
    parseTree "% é\n p(ä" = .error ⟨.unexpectedChar 'ä', ⟨8, 2, 4⟩⟩ ∧
      offsetAt? "% é\n p(ä".toList 2 4 = some 8 ∧
      ∃ s, RefusedAt "% é\n p(ä" s (.unexpectedChar 'ä') ∧ offsetOf "% é\n p(ä".toList s ≤ 8 := by
  have hread : parseTree "% é\n p(ä" = .error ⟨.unexpectedChar 'ä', ⟨8, 2, 4⟩⟩ := rfl
  obtain ⟨hback, -, hplaced, -, -⟩ := place_exact "% é\n p(ä"
  obtain ⟨s, hs, hplace⟩ := hplaced _ (Or.inl hread)
  exact ⟨hread, (hback 8 .missingTerm hplace.boundary).2, s, hs, hplace.start_le⟩

end ParseError

end HornQuery
