import Mathlib.Data.List.DropRight
import Mathlib.Data.String.Basic

/-!
# Paths of a repository, and module names

What is read off a path of a repository (relative, with no empty part), and the dotted names of
Python modules.
-/

namespace Orqalis

namespace RepositoryPath

/-- The parts of a path. -/
def parts (path : String) : List String := (path.toList.splitOn '/').map String.ofList

/-- The last part of a path. -/
def name (path : String) : String := (parts path).getLastD ""

/-- A name before its last dot and from it: the dot neither begins nor ends the name. -/
def splitName (name : List Char) : List Char × List Char :=
  let tail := name.rtakeWhile (· ≠ '.')
  let head := (name.rdropWhile (· ≠ '.')).dropLast
  if head = [] ∨ tail = [] then (name, []) else (head, '.' :: tail)

/-- The name without its suffix. -/
def stem (path : String) : String := String.ofList (splitName (name path).toList).1

/-- The suffix of the name, with its dot. -/
def suffix (path : String) : String := String.ofList (splitName (name path).toList).2

/-- Whether a text begins with another. -/
def startsWith (text start : String) : Bool := start.toList.isPrefixOf text.toList

/-- Whether a text ends with another. -/
def endsWith (text tail : String) : Bool := tail.toList.isSuffixOf text.toList

/-- `posixpath.normpath` of a relative path, by its parts. -/
def normalize (parts : List String) : List String :=
  (parts.foldl (fun done part =>
    if part = "" ∨ part = "." then done
    else if part ≠ ".." ∨ done.head? = none ∨ done.head? = some ".." then part :: done
    else done.tail) []).reverse

end RepositoryPath

namespace ModuleName

/-- The names a dotted name is made of. -/
def split (name : String) : List String := (name.toList.splitOn '.').map String.ofList

/-- Names with a dot between each two. -/
def dotted (names : List String) : String :=
  String.ofList (['.'].intercalate (names.map String.toList))

theorem dotted_split (name : String) : dotted (split name) = name := by
  unfold dotted split
  rw [List.map_map]
  have hmap : (String.toList ∘ String.ofList) = (id : List Char → List Char) := by
    funext l
    simp
  rw [hmap, List.map_id, List.intercalate_splitOn, String.ofList_toList]

/-- Joined texts count as one of the texts that are joined. -/
theorem intercalate_append (sep : List Char) (xs : List (List Char)) {ys : List (List Char)}
    (hys : ys ≠ []) :
    sep.intercalate (xs ++ ys) = sep.intercalate (xs ++ [sep.intercalate ys]) := by
  induction xs with
  | nil => simp
  | cons x xs ih =>
    have hall := List.append_ne_nil_of_right_ne_nil xs hys
    have hone := List.append_ne_nil_of_right_ne_nil xs (List.cons_ne_nil (sep.intercalate ys) [])
    rw [List.cons_append, List.cons_append, List.intercalate_cons_of_ne_nil hall,
      List.intercalate_cons_of_ne_nil hone, ih]

/-- A dotted name counts as the names it is made of. -/
theorem dotted_append_split (names : List String) (name : String) :
    dotted (names ++ split name) = dotted (names ++ [name]) := by
  have hne : (split name).map String.toList ≠ [] := by
    unfold split
    simp [List.splitOn_ne_nil]
  have hname := congrArg String.toList (dotted_split name)
  unfold dotted at hname ⊢
  rw [String.toList_ofList] at hname
  rw [List.map_append, List.map_append, intercalate_append _ _ hne, hname]
  rfl

end ModuleName

end Orqalis
