/-
Paths, as texts with slashes.

A path is taken apart from its end: slashes there, and components that only say "here", mean
nothing.  What then stands after the last slash is the last component; it is a file name unless it
leads nowhere else.  Nothing is looked up, so all of this is about the text alone.
-/

namespace WidgetLayout.Path

/-- Drops what means nothing at the end of a path, which is given backwards. -/
def dropIdle : List Char → List Char
  | '/' :: cs => dropIdle cs
  | '.' :: '/' :: cs => dropIdle cs
  | cs => cs

/-- A path without slashes and `.` components at its end. -/
def trimEnd (cs : List Char) : List Char := (dropIdle cs.reverse).reverse

/-- The last component of a path. -/
def base (cs : List Char) : List Char := ((dropIdle cs.reverse).takeWhile (· ≠ '/')).reverse

/-- What stands before the last component of a path. -/
def beforeBase (cs : List Char) : List Char := ((dropIdle cs.reverse).dropWhile (· ≠ '/')).reverse

/-- The file name that a path ends with; `.` and `..` are none. -/
def fileName? (path : String) : Option String :=
  let name := base path.toList
  if name = [] ∨ name = ['.'] ∨ name = ['.', '.'] then none else some (String.ofList name)

/-- Splits a file name at its last point; a point at its beginning does not count. -/
def splitExtension (name : List Char) : List Char × Option (List Char) :=
  let ending := (name.reverse.takeWhile (· ≠ '.')).reverse
  let stem := (name.reverse.dropWhile (· ≠ '.')).drop 1
  if stem = [] then (name, none) else (stem.reverse, some ending)

/-- The extension of the file name that a path ends with. -/
def extension? (path : String) : Option String := do
  let name ← fileName? path
  let ending ← (splitExtension name.toList).2
  return String.ofList ending

/-- A path whose file name is cut down to its stem and given an extension; a path without file name
stays as it is. -/
def setExtension (path ending : String) : String :=
  match fileName? path with
  | none => path
  | some name =>
    String.ofList (beforeBase path.toList ++ (splitExtension name.toList).1 ++ '.' :: ending.toList)

/-- A path without as many characters at its end as its extension has; the point before the
extension stays. -/
def dropExtension (path : String) : String :=
  match extension? path with
  | none => path
  | some ending => String.ofList (path.toList.take (path.length - ending.length))

/-- The path with another extension for its file name.  The old extension goes first, and what is
left may lead to the directory above: `..x` leaves `..`, which is no file name and takes no
extension. -/
def withExtension (path ending : String) : String := setExtension (dropExtension path) ending

/-- The path of a name in a directory. -/
def join (directory name : String) : String :=
  match directory.toList.getLast? with
  | none => name
  | some '/' => directory ++ name
  | some _ => directory ++ "/" ++ name

/-- The path without its last component; there is none for the root and for the empty path. -/
def parent? (path : List Char) : Option (List Char) :=
  if trimEnd path = [] then none
  else
    let directory := trimEnd (beforeBase path)
    if directory = [] ∧ path.head? = some '/' then some ['/'] else some directory

/-! ### Ancestors -/

theorem length_dropIdle_le (cs : List Char) : (dropIdle cs).length ≤ cs.length := by
  fun_induction dropIdle cs <;> simp_all <;> omega

theorem head?_dropIdle (cs : List Char) : (dropIdle cs).head? ≠ some '/' := by
  fun_induction dropIdle cs with
  | case1 cs ih => exact ih
  | case2 cs ih => exact ih
  | case3 cs h _ =>
      intro hc
      cases cs with
      | nil => simp at hc
      | cons c cs =>
          simp only [List.head?_cons, Option.some.injEq] at hc
          exact h cs (by rw [hc])

/-- Without its last component a path is shorter. -/
theorem length_parent?_lt {path directory : List Char} (h : parent? path = some directory) :
    directory.length < path.length := by
  unfold parent? at h
  split at h
  · simp at h
  · rename_i hne
    have hhead := head?_dropIdle path.reverse
    have hle := length_dropIdle_le path.reverse
    have hne' : dropIdle path.reverse ≠ [] := by simpa [trimEnd] using hne
    have hbefore : (beforeBase path).length < (dropIdle path.reverse).length := by
      unfold beforeBase
      cases hd : dropIdle path.reverse with
      | nil => exact absurd hd hne'
      | cons c cs =>
          have hc : c ≠ '/' := by simpa [hd] using hhead
          have hsuffix :=
            (List.dropWhile_suffix (fun c : Char => decide (c ≠ '/')) (l := cs)).length_le
          rw [List.length_reverse, List.dropWhile_cons_of_pos (by simpa using hc), List.length_cons]
          exact Nat.lt_succ_of_le hsuffix
    have htrim : (trimEnd (beforeBase path)).length ≤ (beforeBase path).length := by
      simpa [trimEnd] using length_dropIdle_le (beforeBase path).reverse
    simp only [List.length_reverse] at hle
    dsimp only at h
    split at h
    · rename_i hroot
      cases path with
      | nil => simp at hroot
      | cons c cs =>
          have hc : c = '/' := by simpa using hroot.2
          cases cs with
          | nil => simp [hc, dropIdle] at hne'
          | cons d ds =>
              rw [← Option.some.inj h]
              simp
    · rw [← Option.some.inj h]
      omega

/-- The path and the paths of the directories around it, the innermost first. -/
def ancestors (path : List Char) : List (List Char) :=
  match _h : parent? path with
  | none => [path]
  | some directory => path :: ancestors directory
termination_by path.length
decreasing_by exact length_parent?_lt _h

end WidgetLayout.Path
