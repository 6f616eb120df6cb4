import Criteria.Text.Basic

/-!
# Paths to fields

A path names a field by the fields on the way to it. It is written with a slash, a dot or a
backslash between segments, and any run of these counts as one; `render` writes a slash.
-/

namespace Criteria

/-- A path: the segments walked through, and the last segment. -/
structure FieldPath where
  parents : List String
  leaf : String
  deriving DecidableEq, Repr, Inhabited

namespace FieldPath

/-- The characters that separate segments. -/
def isSeparator (c : Char) : Bool := c == '/' || c == '.' || c == '\\'

/-- All segments, the leaf last. -/
def segments (p : FieldPath) : List String := p.parents ++ [p.leaf]

/-- The path with the given segments; there must be one. -/
def ofSegments? (segments : List String) : Option FieldPath :=
  segments.getLast?.map fun leaf => ⟨segments.dropLast, leaf⟩

/-- The path that a text names; a text of separators alone names none. -/
def parse? (text : String) : Option FieldPath :=
  ofSegments? (((Text.splitAt isSeparator text.toList).filter (· ≠ [])).map String.ofList)

/-- Writes a path with slashes. -/
def render (p : FieldPath) : String := Text.join "/" p.segments

theorem segments_ne_nil (p : FieldPath) : p.segments ≠ [] := by simp [segments]

theorem ofSegments?_segments (p : FieldPath) : ofSegments? p.segments = some p := by
  simp [ofSegments?, segments]

end FieldPath

end Criteria
