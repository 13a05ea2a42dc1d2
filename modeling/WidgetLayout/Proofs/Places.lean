/-
What stands at the places of a file tree, and which places an operation changes.

A place is given by the names that lead to it from the root.  Seen from outside there is nothing at
a place, a directory, or a file with its content; what a path leads to depends on no more than that.
So it is enough to say of an operation at which places something else is seen after it: writing a
file changes one place, and making directories changes places where nothing was.
-/
import Mathlib.Data.List.Basic
import Mathlib.Tactic.SplitIfs
import WidgetLayout.FileTree

namespace WidgetLayout

/-- What is seen at a place. -/
inductive Sight
  | file (content : List UInt8)
  | directory
deriving DecidableEq, Repr

namespace Node

/-- What is seen of a node. -/
def sight : Node → Sight
  | .file content => .file content
  | .directory _ => .directory

/-- What is seen where names lead to. -/
def look (node : Node) (place : List String) : Option Sight := (node.at? place).map sight

theorem sight_eq_directory_iff (node : Node) : node.sight = .directory ↔
    node.isDirectory = true := by
  cases node <;> simp [sight, isDirectory]

theorem sight_directory (entries : List (String × Node)) :
    (directory entries).sight = .directory := rfl

theorem look_nil (node : Node) : node.look [] = some node.sight := rfl

theorem look_cons (node : Node) (name : String) (names : List String) :
    node.look (name :: names) = (findEntry name node.entries).bind fun inner =>
      inner.look names := by
  show Option.map sight ((findEntry name node.entries).bind fun inner => inner.at? names) = _
  rw [Option.map_bind]
  rfl

theorem look_append (node : Node) (place more : List String) :
    node.look (place ++ more) = (node.at? place).bind fun inner => inner.look more := by
  induction place generalizing node with
  | nil => rfl
  | cons name names ih =>
      rw [List.cons_append, look_cons, at?]
      cases findEntry name node.entries with
      | none => rfl
      | some inner => exact ih inner

/-- Nothing stands inside a node without entries. -/
theorem look_of_entries_eq_nil {node : Node} (h : node.entries = []) {place : List String}
    (hne : place ≠ []) : node.look place = none := by
  cases place with
  | nil => exact absurd rfl hne
  | cons name names =>
      rw [look_cons, h]
      rfl

/-- Nothing stands inside what is no directory. -/
theorem entries_eq_nil_of_sight {node : Node} (h : node.sight ≠ .directory) :
    node.entries = [] := by
  cases node with
  | file content => rfl
  | directory entries => exact absurd rfl h

/-- Only a directory has names that lead on. -/
theorem sight_of_look_cons {node : Node} {name : String} {names : List String}
    (h : node.look (name :: names) ≠ none) : node.sight = .directory := by
  refine Decidable.byContradiction fun hne => ?_
  exact h (look_of_entries_eq_nil (entries_eq_nil_of_sight hne) (List.cons_ne_nil name names))

/-- Putting a node without entries in a directory, where no directory was, changes what is seen at
its place and nowhere else. -/
theorem look_put {root new : Node} {directory : List String} {name : String}
    (hdirectory : root.look directory = some .directory) (hnew : new.entries = [])
    (hold : root.look (directory ++ [name]) ≠ some .directory) (place : List String) :
    (root.put (directory ++ [name]) new).look place =
      if place = directory ++ [name] then some new.sight else root.look place := by
  induction directory generalizing root place with
  | nil =>
      rw [look_nil, Option.some.injEq] at hdirectory
      cases place with
      | nil => simp [look_nil, hdirectory, put, sight_directory]
      | cons k ks =>
          rw [List.nil_append, put, put, look_cons, entries, findEntry_putEntry]
          by_cases hk : name = k
          · subst hk
            rw [if_pos rfl, Option.bind_some]
            by_cases hks : ks = []
            · simp [hks, look_nil]
            · rw [look_of_entries_eq_nil hnew hks, if_neg (by simpa using hks), look_cons]
              cases hfind : findEntry name root.entries with
              | none => rfl
              | some inner =>
                  have hinner : inner.sight ≠ .directory := by
                    simpa [look_cons, hfind, look_nil] using hold
                  exact (look_of_entries_eq_nil (entries_eq_nil_of_sight hinner) hks).symm
          · rw [if_neg hk, if_neg (by simp [Ne.symm hk]), look_cons]
  | cons d ds ih =>
      have hroot : root.sight = .directory := by
        have hpresent : root.look (d :: ds) ≠ none := by simp [hdirectory]
        exact sight_of_look_cons hpresent
      rw [look_cons] at hdirectory
      obtain ⟨inner, hfind, hinner⟩ := Option.bind_eq_some_iff.mp hdirectory
      rw [List.cons_append, look_cons, hfind, Option.bind_some] at hold
      rw [List.cons_append, put, hfind, Option.getD_some]
      cases place with
      | nil => simp [look_nil, hroot, sight_directory]
      | cons k ks =>
          rw [look_cons, entries, findEntry_putEntry, look_cons]
          by_cases hk : d = k
          · subst hk
            rw [if_pos rfl, Option.bind_some, ih hinner hold, hfind]
            simp
          · simp [hk, Ne.symm hk]

end Node

namespace FileTree

/-- What is seen at a place of a tree. -/
def look (t : FileTree) (place : List String) : Option Sight := t.root.look place

/-! ### Following paths

A path is followed by what is seen on its way.  So where more is seen, every path leads on to the
place it led to before. -/

theorem any_isDirectory_iff (t : FileTree) (place : List String) :
    (t.root.at? place).any Node.isDirectory = true ↔ t.look place = some .directory := by
  rw [look, Node.look]
  cases t.root.at? place with
  | none => simp
  | some node => simp [Node.sight_eq_directory_iff]

/-- Following names needs to see no more than what stands at the places it comes to. -/
theorem follow_cons (t : FileTree) (here : List String) (name : String) (names : List String) :
    follow t.root here (name :: names) =
      if t.look here = some .directory then
        if name = "." then follow t.root here names
        else if name = ".." then follow t.root here.dropLast names
        else if maxName < name.utf8ByteSize then .error .nameTooLong
        else if t.look (here ++ [name]) = none then .error .notFound
        else follow t.root (here ++ [name]) names
      else .error .notDirectory := by
  have hinner : t.look (here ++ [name]) =
      (t.root.at? here).bind fun node => (findEntry name node.entries).map Node.sight := by
    rw [look, Node.look_append]
    congr 1
    funext node
    rw [Node.look_cons]
    cases findEntry name node.entries <;> rfl
  rw [follow, hinner, look, Node.look]
  cases t.root.at? here with
  | none => rfl
  | some node =>
      cases node with
      | file content => simp [Node.sight]
      | directory entries =>
          simp only [Option.map_some, Node.sight, if_true, Option.bind_some, Node.entries]
          obtain hfind | ⟨inner, hfind⟩ := Option.eq_none_or_eq_some (findEntry name entries)
          · simp [hfind]
          · simp [hfind]

theorem follow_append (t : FileTree) (here names more : List String) :
    follow t.root here (names ++ more) =
      follow t.root here names >>= fun place => follow t.root place more := by
  induction names generalizing here with
  | nil => rfl
  | cons name names ih =>
      rw [List.cons_append, follow_cons, follow_cons, ih, ih, ih]
      split_ifs <;> rfl

/-- What is there in one tree is there in another, and its directories are directories there. -/
structure Grows (t t' : FileTree) : Prop where
  home : t'.home = t.home
  directory : ∀ place, t.look place = some .directory → t'.look place = some .directory
  present : ∀ place, t.look place ≠ none → t'.look place ≠ none

theorem Grows.follow {t t' : FileTree} (h : Grows t t') {here names place : List String}
    (hfollow : follow t.root here names = .ok place) :
    FileTree.follow t'.root here names = .ok place := by
  induction names generalizing here with
  | nil => exact hfollow
  | cons name names ih =>
      rw [follow_cons] at hfollow ⊢
      split_ifs at hfollow with hhere hdot hdots hlong hnone
      · rw [if_pos (h.directory here hhere), if_pos hdot]
        exact ih hfollow
      · rw [if_pos (h.directory here hhere), if_neg hdot, if_pos hdots]
        exact ih hfollow
      · rw [if_pos (h.directory here hhere), if_neg hdot, if_neg hdots, if_neg hlong,
          if_neg (h.present (here ++ [name]) hnone)]
        exact ih hfollow

theorem Grows.origin {t t' : FileTree} (h : Grows t t') (path : String) :
    t'.origin path = t.origin path := by
  rw [FileTree.origin, FileTree.origin, h.home]

theorem locate_eq_ok_iff {t : FileTree} {path : String} {place : List String} :
    t.locate path = .ok place ↔ checkPath path = .ok () ∧
      follow t.root (t.origin path) (names path ++ if endsWithSlash path then ["."] else []) =
        .ok place := by
  rw [locate]
  cases checkPath path with
  | error fault => simp [bind, Except.bind]
  | ok u => simp [bind, Except.bind]

/-- A path leads to the same place in a tree that has grown. -/
theorem Grows.locate {t t' : FileTree} (h : Grows t t') {path : String} {place : List String}
    (hlocate : t.locate path = .ok place) : t'.locate path = .ok place := by
  obtain ⟨hcheck, hfollow⟩ := locate_eq_ok_iff.mp hlocate
  refine locate_eq_ok_iff.mpr ⟨hcheck, ?_⟩
  rw [h.origin]
  exact h.follow hfollow

theorem readFile_eq_ok_iff {t : FileTree} {path : String} {content : List UInt8} :
    t.readFile path = .ok content ↔
      ∃ place, t.locate path = .ok place ∧ t.look place = some (.file content) := by
  rw [readFile, node]
  cases t.locate path with
  | error fault => simp [bind, Except.bind]
  | ok place =>
      simp only [bind, Except.bind, Except.ok.injEq, exists_eq_left', look, Node.look]
      cases t.root.at? place with
      | none => simp
      | some node => cases node <;> simp [Node.sight]

/-! ### Changing one place -/

/-- A tree that differs from another in what is seen at one place, where no directory was. -/
structure Replaces (place : List String) (sight : Sight) (t t' : FileTree) : Prop where
  home : t'.home = t.home
  old : t.look place ≠ some .directory
  look : ∀ p, t'.look p = if p = place then some sight else t.look p

theorem Replaces.grows {place : List String} {sight : Sight} {t t' : FileTree}
    (h : Replaces place sight t t') :
    Grows t t' where
  home := h.home
  directory p hp := by
    rw [h.look, if_neg]
    · exact hp
    · rintro rfl
      exact h.old hp
  present p hp := by
    rw [h.look]
    split_ifs
    · exact Option.some_ne_none sight
    · exact hp

/-- A path ends with a name in a directory, and what stands before the name leads to the
directory. -/
structure Ends (t : FileTree) (path : String) (directory : List String) (name : String) : Prop where
  check : checkPath path = .ok ()
  names : names path = (FileTree.names path).dropLast ++ [name]
  ne_dot : name ≠ "."
  ne_dots : name ≠ ".."
  follow : follow t.root (t.origin path) (FileTree.names path).dropLast = .ok directory
  look : t.look directory = some .directory

theorem ends_of_locateEntry {t : FileTree} {path name : String} {directory : List String}
    (h : t.locateEntry path = .ok (directory, some name)) : Ends t path directory name := by
  rw [locateEntry] at h
  cases hcheck : checkPath path with
  | error fault => simp [hcheck, bind, Except.bind] at h
  | ok u =>
      cases hfollow : FileTree.follow t.root (t.origin path) (FileTree.names path).dropLast with
      | error fault => simp [hcheck, hfollow, bind, Except.bind] at h
      | ok place =>
          simp only [hcheck, hfollow, bind, Except.bind] at h
          split_ifs at h with hdirectory
          rw [any_isDirectory_iff] at hdirectory
          obtain ⟨rfl, hlast, hdot, hdots⟩ : place = directory ∧
              (FileTree.names path).getLast? = some name ∧ name ≠ "." ∧ name ≠ ".." := by
            simpa [pure, Except.pure] using h
          refine ⟨hcheck, ?_, hdot, hdots, hfollow, hdirectory⟩
          exact (List.dropLast_append_getLast? name hlast).symm

/-- Once something stands there, the path leads to it. -/
theorem Ends.locate {t t' : FileTree} {path name : String} {directory : List String} {sight : Sight}
    (h : Ends t path directory name) (hgrows : Grows t t') (hname : ¬ maxName < name.utf8ByteSize)
    (hlook : t'.look (directory ++ [name]) = some sight)
    (hslash : endsWithSlash path = true → sight = .directory) :
    t'.locate path = .ok (directory ++ [name]) := by
  have hlast : FileTree.follow t'.root directory [name] = .ok (directory ++ [name]) := by
    rw [follow_cons, if_pos (hgrows.directory directory h.look), if_neg h.ne_dot,
      if_neg h.ne_dots, if_neg hname, if_neg (by simp [hlook]), FileTree.follow]
  have hnames : FileTree.follow t'.root (t'.origin path) (FileTree.names path) =
      .ok (directory ++ [name]) := by
    rw [h.names, follow_append, hgrows.origin, hgrows.follow h.follow]
    exact hlast
  refine locate_eq_ok_iff.mpr ⟨h.check, ?_⟩
  rw [follow_append, hnames]
  show FileTree.follow t'.root (directory ++ [name]) _ = _
  split_ifs with hends
  · rw [hslash hends] at hlook
    rw [follow_cons, if_pos hlook, if_pos rfl, FileTree.follow]
  · rfl

theorem Ends.replaces_put {t : FileTree} {path name : String} {directory : List String}
    (h : Ends t path directory name) {new : Node} (hnew : new.entries = [])
    (hold : t.look (directory ++ [name]) ≠ some .directory) :
    Replaces (directory ++ [name]) new.sight t (t.put (directory ++ [name]) new) where
  home := rfl
  old := hold
  look := Node.look_put h.look hnew hold

/-! ### Writing a file -/

/-- A tree that differs from another in the file that a path leads to, which is new or has another
content. -/
def Written (path : String) (content : List UInt8) (t t' : FileTree) : Prop :=
  ∃ place, t'.locate path = .ok place ∧ Replaces place (.file content) t t'

/-- Writing puts a file in a directory that is there, where no directory is. -/
theorem ends_of_writeFile {t t' : FileTree} {path : String} {content : List UInt8}
    (h : t.writeFile path content = .ok t') :
    ∃ directory name, Ends t path directory name ∧ endsWithSlash path = false ∧
      name.utf8ByteSize ≤ maxName ∧
      t.look (directory ++ [name]) ≠ some .directory ∧
      t' = t.put (directory ++ [name]) (.file content) := by
  rw [writeFile] at h
  cases hentry : t.locateEntry path with
  | error fault => simp [hentry, bind, Except.bind] at h
  | ok entry =>
      obtain ⟨directory, name?⟩ := entry
      cases name? with
      | none => simp [hentry, bind, Except.bind] at h
      | some name =>
          simp only [hentry, bind, Except.bind] at h
          split_ifs at h with hslash hname
          have hold : t.look (directory ++ [name]) ≠ some .directory := by
            intro hdirectory
            rw [← any_isDirectory_iff] at hdirectory
            split at h
            · cases h
            · rename_i hne
              cases hat : t.root.at? (directory ++ [name]) with
              | none => simp [hat] at hdirectory
              | some node =>
                  cases node with
                  | file content => simp [hat, Node.isDirectory] at hdirectory
                  | directory entries => exact hne entries hat
          refine ⟨directory, name, ends_of_locateEntry hentry, by simpa using hslash,
            Nat.le_of_not_lt hname, hold, ?_⟩
          split at h
          · cases h
          · exact (Except.ok.inj h).symm

theorem written_of_writeFile {t t' : FileTree} {path : String} {content : List UInt8}
    (h : t.writeFile path content = .ok t') : Written path content t t' := by
  obtain ⟨directory, name, hends, hslash, hname, hold, rfl⟩ := ends_of_writeFile h
  have hreplaces := hends.replaces_put (rfl : (Node.file content).entries = []) hold
  refine ⟨directory ++ [name], ?_, hreplaces⟩
  have hnew := hreplaces.look (directory ++ [name])
  rw [if_pos rfl] at hnew
  exact hends.locate hreplaces.grows (Nat.not_lt.mpr hname) hnew (by simp [hslash])

/-- What was written is read back. -/
theorem Written.readFile {t t' : FileTree} {path : String} {content : List UInt8}
    (h : Written path content t t') : t'.readFile path = .ok content := by
  obtain ⟨place, hlocate, hreplaces⟩ := h
  refine readFile_eq_ok_iff.mpr ⟨place, hlocate, ?_⟩
  rw [hreplaces.look, if_pos rfl]

/-! ### Making directories

Making directories can fail halfway, so this is said of what is left in either case. -/

/-- A tree that differs from another in new directories, to each of which one of some paths
leads. -/
structure Prepared (paths : List String) (t t' : FileTree) : Prop where
  home : t'.home = t.home
  look : ∀ place, t'.look place = t.look place ∨
    t.look place = none ∧ t'.look place = some .directory ∧
      ∃ path ∈ paths, t'.locate path = .ok place

namespace Prepared

variable {paths : List String} {t t' t'' : FileTree}

theorem refl (paths : List String) (t : FileTree) : Prepared paths t t := ⟨rfl, fun _ => .inl rfl⟩

theorem eq_of_present (h : Prepared paths t t') {place : List String}
    (hpresent : t.look place ≠ none) : t'.look place = t.look place :=
  (h.look place).resolve_right fun hnew => hpresent hnew.1

theorem grows (h : Prepared paths t t') : Grows t t' where
  home := h.home
  directory place hplace := by rw [h.eq_of_present (by simp [hplace]), hplace]
  present place hplace := by rwa [h.eq_of_present hplace]

/-- The files are those that were there, with what they held. -/
theorem file_iff (h : Prepared paths t t') (place : List String) (content : List UInt8) :
    t'.look place = some (.file content) ↔ t.look place = some (.file content) := by
  rcases h.look place with heq | ⟨hnone, hdirectory, -⟩
  · rw [heq]
  · simp [hnone, hdirectory]

/-- A file that could be read is read as before. -/
theorem readFile (h : Prepared paths t t') {path : String} {content : List UInt8}
    (hread : t.readFile path = .ok content) : t'.readFile path = .ok content := by
  obtain ⟨place, hlocate, hlook⟩ := readFile_eq_ok_iff.mp hread
  exact readFile_eq_ok_iff.mpr ⟨place, h.grows.locate hlocate, (h.file_iff place content).mpr hlook⟩

theorem mono {more : List String} (h : Prepared paths t t') (hsubset : paths ⊆ more) :
    Prepared more t t' :=
  ⟨h.home, fun place => (h.look place).imp_right fun ⟨hnone, hnew, path, hpath, hlocate⟩ =>
    ⟨hnone, hnew, path, hsubset hpath, hlocate⟩⟩

theorem trans (h : Prepared paths t t') (h' : Prepared paths t' t'') : Prepared paths t t'' where
  home := h'.home.trans h.home
  look place := by
    rcases h.look place with heq | ⟨hnone, hnew, path, hpath, hlocate⟩
    · rw [← heq]
      exact h'.look place
    · refine .inr ⟨hnone, ?_, path, hpath, h'.grows.locate hlocate⟩
      exact h'.grows.directory place hnew

end Prepared

theorem prepared_of_makeDirectory {t t' : FileTree} {path : String}
    (h : t.makeDirectory path = .ok t') : Prepared [path] t t' := by
  rw [makeDirectory] at h
  cases hentry : t.locateEntry path with
  | error fault => simp [hentry, bind, Except.bind] at h
  | ok entry =>
      obtain ⟨directory, name?⟩ := entry
      cases name? with
      | none => simp [hentry, bind, Except.bind] at h
      | some name =>
          have hends := ends_of_locateEntry hentry
          simp only [hentry, bind, Except.bind] at h
          split_ifs at h with hname
          cases hat : t.root.at? (directory ++ [name]) with
          | some node => simp [hat] at h
          | none =>
              have hnone : t.look (directory ++ [name]) = none := by
                rw [FileTree.look, Node.look, hat]; rfl
              obtain rfl : t.put (directory ++ [name]) (.directory []) = t' := by
                simpa [hat] using h
              have hreplaces :=
                hends.replaces_put (rfl : (Node.directory []).entries = []) (by simp [hnone])
              have hnew := hreplaces.look (directory ++ [name])
              rw [if_pos rfl] at hnew
              refine ⟨rfl, fun place => ?_⟩
              rw [hreplaces.look place]
              split_ifs with hplace
              · subst hplace
                refine .inr ⟨hnone, rfl, path, List.mem_singleton_self path, ?_⟩
                exact hends.locate hreplaces.grows hname hnew fun _ => rfl
              · exact .inl rfl

/-- However making directories ends, nothing but directories on the way is new. -/
theorem prepared_makeFirst (t : FileTree) (paths : List String) :
    Prepared paths t (t.makeFirst paths).2 := by
  induction paths with
  | nil => exact .refl [] t
  | cons path outer ih =>
      have houter : outer ⊆ path :: outer := List.subset_cons_self path outer
      have hpath : [path] ⊆ path :: outer := by simp
      rw [makeFirst]
      by_cases hempty : path.isEmpty
      · rw [if_pos hempty]
        exact .refl _ t
      · rw [if_neg hempty]
        split
        · rename_i t' hmake
          exact (prepared_of_makeDirectory hmake).mono hpath
        · split
          · rename_i fault t' hfirst
            rw [hfirst] at ih
            exact ih.mono houter
          · rename_i u t' hfirst
            rw [hfirst] at ih
            split
            · rename_i t'' hmake
              exact (ih.mono houter).trans ((prepared_of_makeDirectory hmake).mono hpath)
            · exact ih.mono houter
        · exact .refl _ t

theorem prepared_makeDirectories (t : FileTree) (path : String) :
    Prepared ((Path.ancestors path.toList).map String.ofList) t (t.makeDirectories path).2 :=
  t.prepared_makeFirst _

end FileTree

end WidgetLayout
