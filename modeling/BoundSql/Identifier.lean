/-!
# Quoted identifiers

A name of a table or a column is a list of segments between dots. Each segment is put between
double quotes by itself, so that a dotted name stays dotted; a segment that is just the
wildcard is left bare, which keeps `*` and `t.*` usable. Nothing inside a segment is changed:
two names with the same text are the same name.
-/

set_option autoImplicit false

namespace BoundSql.Identifier

/-- The wildcard segment. -/
def wildcard : List Char := ['*']

/-- The segments of a name, of which there is at least one. -/
def segments (name : String) : List (List Char) := name.toList.splitOn '.'

/-- A segment as it stands in a statement. -/
def quoteSegment (segment : List Char) : List Char :=
  if segment = wildcard then segment else '\x22' :: (segment ++ ['\x22'])

/-- A name as it stands in a statement. -/
def quote (name : String) : String :=
  String.ofList (['.'].intercalate ((segments name).map quoteSegment))

/-- The segment that a quoted segment was written for. -/
def unquoteSegment (text : List Char) : List Char :=
  if text = wildcard then text else text.tail.dropLast

theorem segments_ne_nil (name : String) : segments name ≠ [] := List.splitOn_ne_nil '.' _

/-- A name is its segments with dots between them. -/
theorem intercalate_segments (name : String) : ['.'].intercalate (segments name) = name.toList :=
  List.intercalate_splitOn '.'

theorem segments_injective {name other : String} (h : segments name = segments other) :
    name = other := by
  rw [← String.toList_inj, ← intercalate_segments, ← intercalate_segments, h]

theorem unquoteSegment_quoteSegment (segment : List Char) :
    unquoteSegment (quoteSegment segment) = segment := by
  unfold unquoteSegment quoteSegment
  by_cases h : segment = wildcard
  · simp [h]
  · have : ('\x22' :: (segment ++ ['\x22'])) ≠ wildcard := by simp [wildcard]
    simp [h, this]

end BoundSql.Identifier
