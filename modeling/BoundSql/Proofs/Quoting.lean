import BoundSql.Fragment.Construction
import BoundSql.Fragment.Text
import BoundSql.Proofs.Delimiting
import BoundSql.Proofs.PlainTexts

/-!
# Quoted names are read back

The text of a name can be taken apart again, and there are two ways to do so.

* **At its dots.** Quoting adds no dot, so the pieces are the quoted segments, each of which is the
  wildcard or stands between two double quotes. This is so for every name, also one with double
  quotes in it. Hence no two names have one text.
* **By a reader of delimited identifiers** (`scan`), which looks for no dots inside of quotes and
  takes a run to end at the next double quote. It can be misled by a double quote in a name, and by
  nothing else: keywords, brackets, spaces and empty segments are read as what they are
  (`scan_quote`).

The invariant of the reader is about one segment (`scan_quoteSegment`): from in front of a quoted
segment it comes to behind it, whatever follows, and has found this segment and nothing more.
-/

set_option autoImplicit false

namespace BoundSql

namespace Identifier

/-! ## A reader of delimited identifiers -/

/-- What a reader finds for one segment: the wildcard, or a run between two double quotes. -/
inductive Token where
  | wildcard
  | delimited (run : List Char)
  deriving DecidableEq, Repr

/-- What should be found for a segment. -/
def Token.ofSegment (segment : List Char) : Token :=
  if segment = Identifier.wildcard then .wildcard else .delimited segment

/-- Where a reader stands: in front of a segment, between its double quotes with a part of the run
read, or behind it. -/
inductive Place where
  | before
  | inside (run : List Char)
  | behind

/-- Reads segments with a dot between two, up to the end of the text. -/
def scan : Place → List Char → Option (List Token)
  | .before, c :: rest =>
      if c = '*' then (Token.wildcard :: ·) <$> scan .behind rest
      else if c = '\x22' then scan (.inside []) rest
      else none
  | .inside run, c :: rest =>
      if c = '\x22' then (Token.delimited run :: ·) <$> scan .behind rest
      else scan (.inside (run ++ [c])) rest
  | .behind, c :: rest => if c = '.' then scan .before rest else none
  | .behind, [] => some []
  | _, [] => none

/-! ## Taking a text apart at its dots -/

/-- No dot is left in a piece. -/
theorem notMem_of_mem_splitOn {sep : Char} {xs piece : List Char} (h : piece ∈ xs.splitOn sep) :
    sep ∉ piece := by
  induction xs generalizing piece with
  | nil =>
    rw [List.splitOn_nil, List.mem_singleton] at h
    simp [h]
  | cons x xs ih =>
    obtain ⟨first, rest, hsplit⟩ := List.exists_cons_of_ne_nil (List.splitOn_ne_nil sep xs)
    rw [List.splitOn_cons_eq_if_modifyHead] at h
    split at h
    · rcases List.mem_cons.mp h with rfl | h
      · exact List.not_mem_nil
      · exact ih h
    · rename_i hx
      rw [hsplit, List.modifyHead_cons] at h
      rcases List.mem_cons.mp h with rfl | h
      · have hfirst : sep ∉ first := ih (hsplit ▸ List.mem_cons_self)
        intro hmem
        rcases List.mem_cons.mp hmem with rfl | hmem
        · exact hx (beq_self_eq_true _)
        · exact hfirst hmem
      · exact ih (hsplit ▸ List.mem_cons_of_mem _ h)

/-- Quoting a segment adds no dot. -/
theorem dot_notMem_quoteSegment {segment : List Char} (h : '.' ∉ segment) :
    '.' ∉ quoteSegment segment := by
  unfold quoteSegment
  split
  · exact h
  · simpa using h

/-- **The pieces between the dots are the quoted segments.** -/
theorem splitOn_quote (name : String) :
    (quote name).toList.splitOn '.' = (segments name).map quoteSegment := by
  rw [quote, String.toList_ofList]
  apply List.splitOn_intercalate
  · intro piece hpiece
    obtain ⟨segment, hsegment, rfl⟩ := List.mem_map.mp hpiece
    exact dot_notMem_quoteSegment (notMem_of_mem_splitOn hsegment)
  · intro hnil
    exact segments_ne_nil name (List.map_eq_nil_iff.mp hnil)

theorem map_unquoteSegment_splitOn_quote (name : String) :
    ((quote name).toList.splitOn '.').map unquoteSegment = segments name := by
  rw [splitOn_quote, List.map_map]
  calc (segments name).map (unquoteSegment ∘ quoteSegment)
      = (segments name).map id := List.map_congr_left fun s _ => unquoteSegment_quoteSegment s
    _ = segments name := List.map_id _

/-- **No two names have one text.** -/
theorem quote_injective {name other : String} (h : quote name = quote other) : name = other := by
  apply segments_injective
  rw [← map_unquoteSegment_splitOn_quote name, ← map_unquoteSegment_splitOn_quote other, h]

/-- A quoted segment is the wildcard, or stands between two double quotes. -/
theorem quoteSegment_cases (segment : List Char) :
    quoteSegment segment = wildcard ∨
      ∃ run, quoteSegment segment = '\x22' :: (run ++ ['\x22']) := by
  unfold quoteSegment
  split
  · exact .inl ‹_›
  · exact .inr ⟨segment, rfl⟩

/-! ## Reading a text from its front -/

/-- A run is read up to the double quote behind it. -/
theorem scan_inside {run : List Char} (hrun : '\x22' ∉ run) (read rest : List Char) :
    scan (.inside read) (run ++ '\x22' :: rest) =
      (Token.delimited (read ++ run) :: ·) <$> scan .behind rest := by
  induction run generalizing read with
  | nil => simp [scan]
  | cons c run ih =>
    obtain ⟨hc, hrun⟩ := not_or.mp (mt List.mem_cons.mpr hrun)
    rw [List.cons_append, scan, if_neg (Ne.symm hc), ih hrun, List.append_assoc]
    rfl

/-- **One quoted segment is read as this segment**, whatever follows. -/
theorem scan_quoteSegment {segment : List Char} (h : '\x22' ∉ segment) (rest : List Char) :
    scan .before (quoteSegment segment ++ rest) =
      (Token.ofSegment segment :: ·) <$> scan .behind rest := by
  unfold quoteSegment Token.ofSegment
  split
  · rename_i hw
    subst hw
    rfl
  · rw [List.cons_append, List.append_assoc, scan, if_neg (by decide), if_pos rfl]
    exact scan_inside h [] rest

/-- Behind a segment come the others, each after a dot. -/
theorem scan_behind {segments : List (List Char)} (h : ∀ s ∈ segments, '\x22' ∉ s) :
    scan .behind (segments.flatMap fun s => '.' :: quoteSegment s) =
      some (segments.map Token.ofSegment) := by
  induction segments with
  | nil => rfl
  | cons s rest ih =>
    obtain ⟨hs, hrest⟩ := List.forall_mem_cons.mp h
    rw [List.flatMap_cons, List.cons_append, scan, if_pos rfl, scan_quoteSegment hs, ih hrest]
    rfl

/-- **The whole text of a name is read as its segments.** -/
theorem scan_quote {name : String} (h : '\x22' ∉ name.toList) :
    scan .before (quote name).toList = some ((segments name).map Token.ofSegment) := by
  have hfree : ∀ s ∈ segments name, '\x22' ∉ s :=
    fun s hs hmem => h (Text.mem_of_mem_segments hs hmem)
  obtain ⟨first, rest, hsegments⟩ := List.exists_cons_of_ne_nil (segments_ne_nil name)
  rw [hsegments] at hfree
  obtain ⟨hfirst, hrest⟩ := List.forall_mem_cons.mp hfree
  rw [quote, String.toList_ofList, hsegments, List.map_cons, Text.intercalate_cons,
    List.flatMap_map, scan_quoteSegment hfirst]
  change (_ <$> scan .behind (rest.flatMap fun s => '.' :: quoteSegment s)) = _
  rw [scan_behind hrest]
  rfl

end Identifier

/-- **The name of a column is read back from its text.** At its dots the text comes apart into the
segments of the name, each of which is the wildcard or stands between two double quotes. So names
with one text are one name, whether a column is made of the name or the name stands where something
is named. If there is no double quote in the name, a reader of delimited identifiers comes to the
end of the text and finds the same segments, and all of them between quotes but the wildcards. -/
theorem column_read_back (name : String) :
    ∃ text : String, (Fragment.column name).text = .ok text ∧
      ((Value.str name).asColumn >>= Fragment.text) = .ok text ∧
      (text.toList.splitOn '.').map Identifier.unquoteSegment = Identifier.segments name ∧
      (∀ piece ∈ text.toList.splitOn '.',
        piece = Identifier.wildcard ∨ ∃ run, piece = '\x22' :: (run ++ ['\x22'])) ∧
      (∀ other, (Fragment.column other).text = .ok text ↔ other = name) ∧
      (∀ other, ((Value.str other).asColumn >>= Fragment.text) = .ok text ↔ other = name) ∧
      ('\x22' ∉ name.toList →
        Identifier.scan .before text.toList =
          some ((Identifier.segments name).map Identifier.Token.ofSegment)) := by
  have same : ∀ other, (Fragment.column other).text = .ok (Identifier.quote name) ↔
      other = name := by
    intro other
    constructor
    · intro h
      exact Identifier.quote_injective (Except.ok.inj h)
    · intro h
      rw [h]
      rfl
  refine ⟨Identifier.quote name, rfl, rfl, Identifier.map_unquoteSegment_splitOn_quote name, ?_,
    same, same, Identifier.scan_quote⟩
  intro piece hpiece
  rw [Identifier.splitOn_quote] at hpiece
  obtain ⟨segment, -, rfl⟩ := List.mem_map.mp hpiece
  exact Identifier.quoteSegment_cases segment

/-- Wildcards, an empty segment, a keyword, and what would end an identifier if it were bare. -/
theorem column_read_back_delimited :
    '\x22' ∉ "*..a* OR (b,.*".toList ∧
      Identifier.scan .before "*.\"\".\"a* OR (b,\".*".toList =
        some [.wildcard, .delimited [], .delimited "a* OR (b,".toList, .wildcard] := by
  have hfree : '\x22' ∉ "*..a* OR (b,.*".toList := by decide
  obtain ⟨text, htext, -, -, -, -, -, hscan⟩ := column_read_back "*..a* OR (b,.*"
  have hquote : (Fragment.column "*..a* OR (b,.*").text = .ok "*.\"\".\"a* OR (b,\".*" := by
    decide +kernel
  obtain rfl := Except.ok.inj (htext.symm.trans hquote)
  have hsegments : (Identifier.segments "*..a* OR (b,.*").map Identifier.Token.ofSegment =
      [.wildcard, .delimited [], .delimited "a* OR (b,".toList, .wildcard] := by
    decide +kernel
  exact ⟨hfree, hsegments ▸ hscan hfree⟩

end BoundSql
