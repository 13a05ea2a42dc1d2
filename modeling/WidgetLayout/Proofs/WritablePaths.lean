/-
Paths at which a file can be written.

A file can be written where its directory is there and no directory stands in its place
(`Writable`).  The path of the directory is found in two ways: by following all names but the last,
and by cutting the text of the path at its last slash.  The two agree up to names that only say
"here".  So the directories that are made for an output are all there if it can be written, and
making them does nothing.
-/
import WidgetLayout.Proofs.FileEffects

namespace WidgetLayout.FileTree

/-! ### The names in a text -/

theorem splitSlashes_ne_nil (cs : List Char) : splitSlashes cs ≠ [] := by
  fun_cases splitSlashes cs <;> simp_all

/-- A slash parts what stands before it from what stands after it. -/
theorem splitSlashes_append (before after : List Char) :
    splitSlashes (before ++ '/' :: after) = splitSlashes before ++ splitSlashes after := by
  induction before with
  | nil => rfl
  | cons c cs ih =>
      rw [List.cons_append, splitSlashes, splitSlashes, ih]
      split_ifs
      · rfl
      · obtain ⟨piece, pieces, hpieces⟩ := List.exists_cons_of_ne_nil (splitSlashes_ne_nil cs)
        rw [hpieces]
        rfl

theorem splitSlashes_of_not_mem {cs : List Char} (h : '/' ∉ cs) : splitSlashes cs = [cs] := by
  induction cs with
  | nil => rfl
  | cons c cs ih =>
      rw [List.mem_cons, not_or] at h
      rw [splitSlashes, if_neg (Ne.symm h.1), ih h.2]

theorem names_append (before after : List Char) :
    names (String.ofList (before ++ '/' :: after)) =
      names (String.ofList before) ++ names (String.ofList after) := by
  simp [names, splitSlashes_append]

theorem names_of_not_mem {cs : List Char} (hne : cs ≠ []) (h : '/' ∉ cs) :
    names (String.ofList cs) = [String.ofList cs] := by
  simp [names, splitSlashes_of_not_mem h, hne]

/-- What means nothing at the end of a path are names that say "here". -/
theorem names_dropIdle (cs : List Char) :
    ∃ n, names (String.ofList cs.reverse) =
      names (String.ofList (Path.dropIdle cs).reverse) ++ List.replicate n "." := by
  fun_induction Path.dropIdle cs with
  | case1 cs ih =>
      obtain ⟨n, hn⟩ := ih
      refine ⟨n, ?_⟩
      rw [List.reverse_cons, names_append, hn]
      exact List.append_nil _
  | case2 cs ih =>
      obtain ⟨n, hn⟩ := ih
      refine ⟨n + 1, ?_⟩
      have hdot : names (String.ofList ['.']) = ["."] := names_of_not_mem (by simp) (by simp)
      rw [List.reverse_cons, List.reverse_cons, List.append_assoc, List.singleton_append,
        names_append, hn, hdot, List.append_assoc, List.replicate_succ']
  | case3 cs => exact ⟨0, (List.append_nil _).symm⟩

theorem names_trimEnd (cs : List Char) :
    ∃ n, names (String.ofList cs) = names (String.ofList (Path.trimEnd cs)) ++
      List.replicate n "." := by
  have h := names_dropIdle cs.reverse
  rwa [List.reverse_reverse] at h

/-- The last component of a path is its last name, and what stands before it has the other names. -/
theorem names_beforeBase {cs : List Char} (hne : Path.trimEnd cs ≠ []) :
    names (String.ofList (Path.trimEnd cs)) =
      names (String.ofList (Path.beforeBase cs)) ++ [String.ofList (Path.base cs)] := by
  have hcut : Path.beforeBase cs ++ Path.base cs = Path.trimEnd cs := by
    simp [Path.beforeBase, Path.base, Path.trimEnd, ← List.reverse_append]
  have hslash : '/' ∉ Path.base cs := by
    intro h
    have hmem := List.all_eq_true.mp List.all_takeWhile _ (List.mem_reverse.mp h)
    simp at hmem
  have hbase : Path.base cs ≠ [] := by
    have hhead := Path.head?_dropIdle cs.reverse
    cases hdrop : Path.dropIdle cs.reverse with
    | nil => exact absurd (by rw [Path.trimEnd, hdrop]; rfl) hne
    | cons c rest =>
        have hc : c ≠ '/' := by simpa [hdrop] using hhead
        simp [Path.base, hdrop, hc]
  rw [← hcut]
  cases hbefore : (Path.dropIdle cs.reverse).dropWhile (· ≠ '/') with
  | nil =>
      have hnil : Path.beforeBase cs = [] := by rw [Path.beforeBase, hbefore]; rfl
      rw [hnil]
      exact names_of_not_mem hbase hslash
  | cons c rest =>
      obtain rfl : c = '/' := by
        have hc :=
          List.head?_dropWhile_not (fun c : Char => decide (c ≠ '/')) (Path.dropIdle cs.reverse)
        rw [hbefore] at hc
        simpa using hc
      have hcons : Path.beforeBase cs = rest.reverse ++ ['/'] := by
        rw [Path.beforeBase, hbefore, List.reverse_cons]
      have hrest :
          names (String.ofList (rest.reverse ++ ['/'])) = names (String.ofList rest.reverse) := by
        rw [names_append]
        exact List.append_nil _
      rw [hcons, List.append_assoc, List.singleton_append, names_append, hrest,
        names_of_not_mem hbase hslash]

/-! ### Directories that are there

The directory of an output is made before the output is written.  Where it is there already,
nothing changes. -/

/-- A path leads to a directory. -/
structure Leads (t : FileTree) (path : String) (directory : List String) : Prop where
  check : checkPath path = .ok ()
  follow : follow t.root (t.origin path) (names path) = .ok directory
  look : t.look directory = some .directory

/-- Names that say "here" lead nowhere else. -/
theorem eq_of_follow_here {t : FileTree} {here place : List String} {n : Nat}
    (h : follow t.root here (List.replicate n ".") = .ok place) : place = here := by
  induction n with
  | zero => exact (Except.ok.inj h).symm
  | succ n ih =>
      rw [List.replicate_succ, follow_cons, if_pos (rfl : "." = ".")] at h
      split_ifs at h
      exact ih h

theorem follow_of_append_here {t : FileTree} {here names place : List String} {n : Nat}
    (h : follow t.root here (names ++ List.replicate n ".") = .ok place) :
    follow t.root here names = .ok place := by
  rw [follow_append] at h
  cases hnames : follow t.root here names with
  | error fault => simp [hnames, bind, Except.bind] at h
  | ok place' =>
      rw [hnames] at h
      rw [eq_of_follow_here h]

theorem Leads.isDirectory {t : FileTree} {path : String} {directory : List String}
    (h : Leads t path directory) : t.isDirectory path = true := by
  have hlocate : t.locate path = .ok directory := by
    refine locate_eq_ok_iff.mpr ⟨h.check, ?_⟩
    rw [follow_append, h.follow]
    show FileTree.follow t.root directory _ = _
    split_ifs
    · rw [follow_cons, if_pos h.look, if_pos rfl, FileTree.follow]
    · rfl
  have hat := (any_isDirectory_iff t directory).mpr h.look
  unfold FileTree.isDirectory node
  rw [hlocate]
  cases hnode : t.root.at? directory with
  | none => simp [hnode] at hat
  | some node =>
      rw [hnode] at hat
      simpa [hnode, bind, Except.bind] using hat

theorem locateEntry_of_follow {t : FileTree} {path : String} {place : List String}
    (hcheck : checkPath path = .ok ())
    (hfollow : follow t.root (t.origin path) (names path).dropLast = .ok place)
    (hlook : t.look place = some .directory) :
    t.locateEntry path =
      .ok (place, (names path).getLast?.filter fun name => name ≠ "." ∧ name ≠ "..") := by
  simp [locateEntry, hcheck, hfollow, (any_isDirectory_iff t place).mpr hlook, bind,
    Except.bind, pure, Except.pure]

/-- The directory in which a directory stands is there, too. -/
theorem Leads.locateEntry {t : FileTree} {path : String} {directory : List String}
    (h : Leads t path directory) :
    ∃ place name?, t.locateEntry path = .ok (place, name?) ∧
      ∀ name, name? = some name → ¬ maxName < name.utf8ByteSize ∧
      t.look (place ++ [name]) ≠ none := by
  have hfollow := h.follow
  obtain hnames | ⟨front, last, hnames⟩ := List.eq_nil_or_concat (names path)
  · rw [hnames] at hfollow
    obtain rfl : t.origin path = directory := Except.ok.inj hfollow
    refine ⟨_, _, locateEntry_of_follow h.check (by rw [hnames]; rfl) h.look, ?_⟩
    simp [hnames]
  · rw [hnames, List.concat_eq_append, follow_append] at hfollow
    cases hfront : FileTree.follow t.root (t.origin path) front with
    | error fault => simp [hfront, bind, Except.bind] at hfollow
    | ok place =>
        rw [hfront] at hfollow
        have hlast : FileTree.follow t.root place [last] = .ok directory := hfollow
        rw [follow_cons] at hlast
        have hplace : t.look place = some .directory := by
          by_contra hne
          rw [if_neg hne] at hlast
          cases hlast
        refine ⟨_, _, locateEntry_of_follow h.check (by simpa [hnames] using hfront) hplace, ?_⟩
        intro name hname
        obtain ⟨rfl, hdot, hdots⟩ : last = name ∧ name ≠ "." ∧ name ≠ ".." := by
          simpa [hnames] using hname
        rw [if_pos hplace, if_neg hdot, if_neg hdots] at hlast
        split_ifs at hlast with hshort hthere
        exact ⟨hshort, hthere⟩

/-- A directory that is there cannot be made, and this is all that stands against it. -/
theorem Leads.makeDirectory {t : FileTree} {path : String} {directory : List String}
    (h : Leads t path directory) : t.makeDirectory path = .error .alreadyExists := by
  obtain ⟨place, name?, hentry, hname⟩ := h.locateEntry
  unfold FileTree.makeDirectory
  rw [hentry]
  cases name? with
  | none => rfl
  | some name =>
      obtain ⟨hshort, hthere⟩ := hname name rfl
      cases hat : t.root.at? (place ++ [name]) with
      | none => exact absurd (by rw [FileTree.look, Node.look, hat]; rfl) hthere
      | some node => simp [bind, Except.bind, hshort, hat]

/-- Making a directory that is there changes nothing. -/
theorem Leads.makeDirectories {t : FileTree} {path : String} {directory : List String}
    (h : Leads t path directory) : t.makeDirectories path = (.ok (), t) := by
  have hne : path.isEmpty = false := by
    have hcheck := h.check
    unfold checkPath at hcheck
    split_ifs at hcheck with hzero hempty
    simpa using hempty
  have hancestors : ∃ outer, Path.ancestors path.toList = path.toList :: outer := by
    unfold Path.ancestors
    split
    · exact ⟨[], rfl⟩
    · exact ⟨_, rfl⟩
  obtain ⟨outer, houter⟩ := hancestors
  rw [FileTree.makeDirectories, houter, List.map_cons, String.ofList_toList, makeFirst, hne,
    h.makeDirectory, h.isDirectory]
  rfl

/-! ### The directory around a path

Making a directory finds it in the text of the path, and writing finds it by following names; the
two have to agree. -/

theorem trimEnd_isPrefix (cs : List Char) : Path.trimEnd cs <+: cs := by
  have hdrop : ∀ rev : List Char, Path.dropIdle rev <:+ rev := by
    intro rev
    fun_induction Path.dropIdle rev with
    | case1 rev ih => exact ih.trans (List.suffix_cons '/' rev)
    | case2 rev ih =>
        exact ih.trans ((List.suffix_cons '/' rev).trans (List.suffix_cons '.' ('/' :: rev)))
    | case3 rev => exact List.suffix_refl rev
  have h := List.reverse_prefix.mpr (hdrop cs.reverse)
  rwa [List.reverse_reverse] at h

theorem beforeBase_isPrefix (cs : List Char) : Path.beforeBase cs <+: cs := by
  have h := List.reverse_prefix.mpr (List.dropWhile_suffix (fun c : Char => decide (c ≠ '/'))
    (l := Path.dropIdle cs.reverse))
  exact h.trans (trimEnd_isPrefix cs)

theorem checkPath_of_isPrefix {path : String} {front : List Char} (h : front <+: path.toList)
    (hne : front ≠ []) (hcheck : checkPath path = .ok ()) :
    checkPath (String.ofList front) = .ok () := by
  obtain ⟨rest, hrest⟩ := h
  obtain rfl : String.ofList front ++ String.ofList rest = path := by
    rw [← String.ofList_append, hrest, String.ofList_toList]
  unfold checkPath at hcheck ⊢
  split_ifs at hcheck with hzero hempty hlong
  rw [String.utf8ByteSize_append] at hlong
  rw [if_neg (fun h => hzero (by simp_all)), if_neg (by simpa using hne), if_neg (by omega)]

theorem origin_of_isPrefix {t : FileTree} {path : String} {front : List Char}
    (h : front <+: path.toList) (hne : front ≠ []) :
    t.origin (String.ofList front) = t.origin path := by
  obtain ⟨rest, hrest⟩ := h
  rw [FileTree.origin, FileTree.origin, ← hrest, List.head?_append_of_ne_nil _ hne,
    String.toList_ofList]

/-- The names before the last one are those before the last component. -/
theorem Ends.dropLast_names {t : FileTree} {path name : String} {directory : List String}
    (h : Ends t path directory name) (hne : Path.trimEnd path.toList ≠ []) :
    (FileTree.names path).dropLast =
      FileTree.names (String.ofList (Path.beforeBase path.toList)) := by
  obtain ⟨n, hn⟩ := names_trimEnd path.toList
  rw [String.ofList_toList, names_beforeBase hne] at hn
  cases n with
  | zero => rw [hn, List.replicate_zero, List.append_nil, List.dropLast_concat]
  | succ n =>
      have hlast := h.names
      rw [hn, List.replicate_succ', ← List.append_assoc] at hlast
      exact absurd (List.append_inj_right' hlast rfl) (by simpa using Ne.symm h.ne_dot)

/-- The directory in which a path ends is found by the text of the path. -/
theorem Ends.leads {t : FileTree} {path name : String} {directory : List String}
    {parent : List Char} (h : Ends t path directory name)
    (hparent : Path.parent? path.toList = some parent) (hne : parent ≠ []) :
    Leads t (String.ofList parent) directory := by
  unfold Path.parent? at hparent
  dsimp only at hparent
  by_cases htrim : Path.trimEnd path.toList = []
  · rw [if_pos htrim] at hparent
    cases hparent
  obtain ⟨n, hn⟩ := names_trimEnd (Path.beforeBase path.toList)
  have hfollow := h.follow
  rw [h.dropLast_names htrim, hn] at hfollow
  have hfollow := follow_of_append_here hfollow
  rw [if_neg htrim] at hparent
  split_ifs at hparent with hroot
  · rw [hroot.1, FileTree.origin, if_pos hroot.2] at hfollow
    obtain rfl : [] = directory := Except.ok.inj hfollow
    obtain rfl : ['/'] = parent := Option.some.inj hparent
    exact ⟨by decide, rfl, h.look⟩
  · obtain rfl := Option.some.inj hparent
    have hprefix :=
      (trimEnd_isPrefix (Path.beforeBase path.toList)).trans (beforeBase_isPrefix path.toList)
    refine ⟨checkPath_of_isPrefix hprefix hne h.check, ?_, h.look⟩
    rw [origin_of_isPrefix hprefix hne]
    exact hfollow

/-! ### Writing -/

/-- A file can be written at a path: its directory is there, and it is no directory itself. -/
def Writable (t : FileTree) (path : String) : Prop :=
  ∃ directory name, Ends t path directory name ∧ endsWithSlash path = false ∧
    name.utf8ByteSize ≤ maxName ∧ t.look (directory ++ [name]) ≠ some .directory

/-- This is what writing needs, whatever is written. -/
theorem writable_iff_writeFile {t : FileTree} {path : String} (content : List UInt8) :
    t.Writable path ↔ ∃ t', t.writeFile path content = .ok t' := by
  constructor
  · rintro ⟨directory, name, hends, hslash, hname, hold⟩
    have hlast : (names path).getLast? = some name := by rw [hends.names, List.getLast?_concat]
    have hentry := locateEntry_of_follow hends.check hends.follow hends.look
    rw [hlast, Option.filter_some, if_pos (by simpa using ⟨hends.ne_dot, hends.ne_dots⟩)] at hentry
    refine ⟨t.put (directory ++ [name]) (.file content), ?_⟩
    unfold writeFile
    rw [hentry]
    show (if endsWithSlash path = true then _ else _ : Except FileFault FileTree) = _
    rw [hslash, if_neg Bool.false_ne_true, if_neg (Nat.not_lt.mpr hname)]
    split
    · rename_i entries hat
      exact absurd (by rw [look, Node.look, hat]; rfl) hold
    · rfl
  · rintro ⟨t', h⟩
    obtain ⟨directory, name, hends, hslash, hname, hold, -⟩ := ends_of_writeFile h
    exact ⟨directory, name, hends, hslash, hname, hold⟩

/-- The directories around a path are there if a file can be written at it, so none has to be
made. -/
theorem preparing_of_writable {t : FileTree} {path : String} (h : t.Writable path) :
    FileAction.preparing path t = (.ok (), t) := by
  obtain ⟨directory, name, hends, -⟩ := h
  unfold FileAction.preparing
  cases hparent : Path.parent? path.toList with
  | none => rfl
  | some parent =>
      by_cases hempty : parent = []
      · rw [hempty]
        rfl
      · have hmade := (hends.leads hparent hempty).makeDirectories
        dsimp only
        rw [if_neg (by simpa using hempty), FileAction.making, hmade]
        rfl

end WidgetLayout.FileTree
