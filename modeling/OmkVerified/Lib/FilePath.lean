import OmkVerified.Lib.FileSystem
import OmkVerified.Lib.Lines

/-!
# POSIX paths

`path.resolve` of a POSIX platform. The working directory of the process is given by its segments.
-/

namespace Lib

/-- The segments of a path. -/
def posixSegments (path : List Char) : List (List Char) :=
  (path.splitOn '/').filter fun segment => segment ≠ []

/-- One segment is resolved; above the root there is only the root. -/
def resolveSegment (resolved : List (List Char)) (segment : List Char) : List (List Char) :=
  if segment = ['.'] then resolved
  else if segment = ['.', '.'] then resolved.dropLast
  else resolved ++ [segment]

/-- The segments of `path.resolve(path)`. -/
def resolveSegments (cwd : List (List Char)) (path : List Char) : List (List Char) :=
  (posixSegments path).foldl resolveSegment (if path.head? = some '/' then [] else cwd)

/-- The absolute path with the given segments. -/
def absolutePath (segments : List (List Char)) : List Char := '/' :: ['/'].intercalate segments

/-- `path.resolve(path)`. -/
def resolvePath (cwd : List (List Char)) (path : List Char) : List Char :=
  absolutePath (resolveSegments cwd path)

/-- One segment of `path.normalize`; in a relative path `..` stays where there is nothing to leave. -/
def posixNormalizeSegment (allowAboveRoot : Bool) (normalized : List (List Char)) (segment : List Char) :
    List (List Char) :=
  if segment = ['.'] then normalized
  else if segment = ['.', '.'] then
    if normalized ≠ [] ∧ normalized.getLast? ≠ some ['.', '.'] then normalized.dropLast
    else if allowAboveRoot then normalized ++ [segment]
    else normalized
  else normalized ++ [segment]

/-- `path.normalize(path)`. -/
def posixNormalize (path : List Char) : List Char :=
  let isAbsolute : Bool := path.head? = some '/'
  let separator := if path.getLast? = some '/' then ['/'] else []
  let segments := (posixSegments path).foldl (posixNormalizeSegment !isAbsolute) []
  let root := if isAbsolute then ['/'] else []
  if path = [] then ['.']
  else if segments = [] then if isAbsolute then ['/'] else '.' :: separator
  else root ++ ['/'].intercalate segments ++ separator

/-- `path.join(first, second)`. -/
def posixJoin (first second : List Char) : List Char :=
  posixNormalize (['/'].intercalate ([first, second].filter fun path => path ≠ []))

end Lib

/-!
# The text of a location

The names of a POSIX file system, and absolute paths as texts and as locations.
-/

namespace Lib

open FileSystem (Location Segment)

/-- A name that a directory can have an entry of. -/
structure FileName where
  text : List Char
  proper : text ≠ [] ∧ '/' ∉ text ∧ text ≠ ['.'] ∧ text ≠ ['.', '.']
deriving DecidableEq

def segmentOf (text : List Char) : Segment FileName :=
  if h : text ≠ [] ∧ '/' ∉ text ∧ text ≠ ['.'] ∧ text ≠ ['.', '.'] then .name ⟨text, h⟩
  else if text = ['.', '.'] then .up
  else .here

/-- The absolute path of a location. -/
def pathText (location : Location FileName) : List Char := absolutePath (location.map FileName.text)

/-- `path.resolve(path)`, as a location; `cwd` is the working directory. -/
def resolveLocation (cwd : Location FileName) (path : List Char) : Location FileName :=
  ((posixSegments path).map segmentOf).foldl Segment.resolve (if path.head? = some '/' then [] else cwd)

/-! ## Segments -/

theorem mem_posixSegments {path segment : List Char} (h : segment ∈ posixSegments path) :
    segment ≠ [] ∧ '/' ∉ segment := by
  have hmem := List.mem_filter.mp h
  exact ⟨of_decide_eq_true hmem.2, Lines.notMem_of_mem_splitOn hmem.1⟩

theorem posixSegments_absolutePath {segments : List (List Char)}
    (h : ∀ segment ∈ segments, segment ≠ [] ∧ '/' ∉ segment) :
    posixSegments (absolutePath segments) = segments := by
  unfold posixSegments absolutePath
  rw [List.splitOn_cons_eq_if_modifyHead, if_pos (by simp), List.filter_cons_of_neg (by simp)]
  cases segments with
  | nil => rfl
  | cons first rest =>
    rw [List.splitOn_intercalate '/' (fun segment hsegment => (h segment hsegment).2)
      (List.cons_ne_nil first rest)]
    exact List.filter_eq_self.mpr fun segment hsegment => decide_eq_true (h segment hsegment).1

theorem proper_of_mem_map {location : Location FileName} {segment : List Char}
    (h : segment ∈ location.map FileName.text) : segment ≠ [] ∧ '/' ∉ segment := by
  obtain ⟨name, -, rfl⟩ := List.mem_map.mp h
  exact ⟨name.proper.1, name.proper.2.1⟩

theorem FileName.text_injective : Function.Injective FileName.text := by
  intro first second h
  cases first
  cases second
  cases h
  rfl

theorem pathText_injective : Function.Injective pathText := by
  intro first second h
  have hsegments := congrArg posixSegments h
  unfold pathText at hsegments
  rw [posixSegments_absolutePath fun _ => proper_of_mem_map,
    posixSegments_absolutePath fun _ => proper_of_mem_map] at hsegments
  exact List.map_injective_iff.mpr FileName.text_injective hsegments

end Lib
