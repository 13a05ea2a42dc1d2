/-
Checking a directory checks each of its sources.

A walk through a directory gives paths; what it went through are places in a tree.  In a tree as
file systems have them (`Node.Proper`) the two fit together: the walk comes to every file once
(`mem_filePlaces`, `nodup_filePlaces`), and the path that it gives leads to the file
(`locate_pathBelow`).  Which files are sources is decided by the texts of their names.

What is printed shows what was checked.  An action that only reads prints a text that the files
decide (`Prints`), so checks one after the other print what each of them prints on its own.
-/
import Mathlib.Data.List.Nodup
import WidgetLayout.Proofs.Checking
import WidgetLayout.Proofs.Declared
import WidgetLayout.Proofs.FileNames

namespace WidgetLayout

/-! ### Trees of a file system

A tree as a value could have a slash in a name, or a name twice in a directory; no file system
has. -/

/-- A name as the entries of directories have them. -/
structure EntryName (name : String) : Prop where
  component : Path.Component name.toList
  ne_dots : name ≠ ".."
  zero : '\x00' ∉ name.toList
  short : name.utf8ByteSize ≤ FileTree.maxName

instance (name : String) : Decidable (EntryName name) :=
  decidable_of_iff ((name.toList ≠ [] ∧ '/' ∉ name.toList ∧ name.toList ≠ ['.']) ∧ name ≠ ".." ∧
      '\x00' ∉ name.toList ∧ name.utf8ByteSize ≤ FileTree.maxName)
    ⟨fun ⟨⟨h₁, h₂, h₃⟩, h₄, h₅, h₆⟩ => ⟨⟨h₁, h₂, h₃⟩, h₄, h₅, h₆⟩,
      fun ⟨⟨h₁, h₂, h₃⟩, h₄, h₅, h₆⟩ => ⟨⟨h₁, h₂, h₃⟩, h₄, h₅, h₆⟩⟩

namespace Node

/-- A tree as file systems have them: no two entries of a directory share a name. -/
inductive Proper : Node → Prop
  | file (content : List UInt8) : Proper (.file content)
  | directory {entries : List (String × Node)} (distinct : (entries.map Prod.fst).Nodup)
      (names : ∀ e ∈ entries, EntryName e.1) (inner : ∀ e ∈ entries, Proper e.2) :
        Proper (.directory entries)

mutual

/-- The places of the files of a node, in the order of their names in each directory. -/
def filePlaces : Node → List (List String)
  | .file _ => [[]]
  | .directory entries => (sortByName (filePlacesOfEntries entries)).flatMap Prod.snd

/-- The places of the files of each entry of a directory. -/
def filePlacesOfEntries : List (String × Node) → List (String × List (List String))
  | [] => []
  | (name, node) :: rest => (name, (filePlaces node).map (name :: ·)) :: filePlacesOfEntries rest

end

theorem sortByName_map {α β : Type} (f : String × α → β) (items : List (String × α)) :
    sortByName (items.map fun e => (e.1, f e)) = (sortByName items).map fun e => (e.1, f e) := by
  unfold sortByName
  rw [List.map_mergeSort]
  intros
  rfl

theorem files_directory (path : String) (entries : List (String × Node)) :
    (directory entries).files path = (sortByName entries).flatMap fun e =>
      e.2.files (Path.join path e.1) := by
  have hentries : filesOfEntries path entries = entries.map fun e =>
      (e.1, e.2.files (Path.join path e.1)) := by
    induction entries with
    | nil => rfl
    | cons e entries ih => rw [filesOfEntries, ih, List.map_cons]
  rw [files, hentries, sortByName_map, List.flatMap_map]

theorem filePlaces_directory (entries : List (String × Node)) :
    (directory entries).filePlaces = (sortByName entries).flatMap fun e =>
      e.2.filePlaces.map (e.1 :: ·) := by
  have hentries : filePlacesOfEntries entries = entries.map fun e =>
      (e.1, e.2.filePlaces.map (e.1 :: ·)) := by
    induction entries with
    | nil => rfl
    | cons e entries ih => rw [filePlacesOfEntries, ih, List.map_cons]
  rw [filePlaces, hentries, sortByName_map, List.flatMap_map]

/-- The path of what names lead to from a path. -/
def pathBelow (path : String) (names : List String) : String := names.foldl Path.join path

/-- A walk gives the paths of the places it goes through. -/
theorem files_eq {node : Node} (h : node.Proper) (path : String) :
    node.files path = node.filePlaces.map (pathBelow path) := by
  induction h generalizing path with
  | file content => rfl
  | @directory entries _ _ _ ih =>
      rw [files_directory, filePlaces_directory, List.map_flatMap]
      refine List.flatMap_congr fun e he => ?_
      rw [ih e (List.mem_mergeSort.mp he), List.map_map]
      rfl

/-- The places of a walk are the places of files. -/
theorem mem_filePlaces {node : Node} (h : node.Proper) (names : List String) :
    names ∈ node.filePlaces ↔ ∃ content, node.look names = some (.file content) := by
  induction h generalizing names with
  | file content =>
      cases names with
      | nil => simp [filePlaces, look_nil, sight]
      | cons name names =>
          rw [look_of_entries_eq_nil rfl (List.cons_ne_nil name names)]
          simp [filePlaces]
  | @directory entries distinct _ _ ih =>
      rw [filePlaces_directory, List.mem_flatMap]
      cases names with
      | nil => simp [look_nil, sight]
      | cons name names =>
          rw [look_cons]
          constructor
          · rintro ⟨⟨name', inner⟩, he, hmem⟩
            have he : (name', inner) ∈ entries := List.mem_mergeSort.mp he
            obtain ⟨rest, hrest, heq⟩ := List.mem_map.mp hmem
            obtain ⟨rfl, rfl⟩ := List.cons.inj heq
            obtain ⟨content, hcontent⟩ := (ih _ he rest).mp hrest
            refine ⟨content, ?_⟩
            rw [Node.entries, findEntry_of_mem distinct he]
            exact hcontent
          · rintro ⟨content, hcontent⟩
            obtain ⟨inner, hinner, hlook⟩ := Option.bind_eq_some_iff.mp hcontent
            have he : (name, inner) ∈ entries := mem_of_findEntry hinner
            refine ⟨(name, inner), List.mem_mergeSort.mpr he, List.mem_map_of_mem ?_⟩
            exact (ih _ he names).mpr ⟨content, hlook⟩

/-- No place is gone through twice. -/
theorem nodup_filePlaces {node : Node} (h : node.Proper) : node.filePlaces.Nodup := by
  induction h with
  | file content => exact List.nodup_singleton []
  | @directory entries distinct _ _ ih =>
      have hperm : (sortByName entries).Perm entries := List.mergeSort_perm entries _
      have hnames : ((sortByName entries).map Prod.fst).Nodup :=
        (hperm.map Prod.fst).nodup_iff.mpr distinct
      rw [filePlaces_directory, List.nodup_flatMap]
      refine ⟨fun e he => ?_, ?_⟩
      · exact (ih e (List.mem_mergeSort.mp he)).map fun _ _ heq => (List.cons.inj heq).2
      · refine (List.pairwise_map.mp hnames).imp fun {e e'} hne => ?_
        rw [Function.onFun_apply, List.disjoint_left]
        intro place hplace hplace'
        obtain ⟨rest, -, rfl⟩ := List.mem_map.mp hplace
        obtain ⟨rest', -, heq⟩ := List.mem_map.mp hplace'
        exact hne (List.cons.inj heq).1.symm

theorem at?_append (node : Node) (place more : List String) :
    node.at? (place ++ more) = (node.at? place).bind fun inner => inner.at? more := by
  induction place generalizing node with
  | nil => rfl
  | cons name names ih =>
      rw [List.cons_append, at?, at?]
      cases findEntry name node.entries with
      | none => rfl
      | some inner => exact ih inner

/-- Where names lead on in a directory, the first of them is the name of an entry. -/
theorem Proper.look_cons {node : Node} (h : node.Proper) {name : String} {names : List String}
    (hlook : node.look (name :: names) ≠ none) :
    ∃ inner, findEntry name node.entries = some inner ∧ EntryName name ∧ inner.Proper ∧
      inner.look names ≠ none := by
  rw [Node.look_cons] at hlook
  cases hinner : findEntry name node.entries with
  | none => simp [hinner] at hlook
  | some inner =>
      rw [hinner] at hlook
      have he := mem_of_findEntry hinner
      cases h with
      | file content => cases he
      | directory distinct names inners => exact ⟨inner, rfl, names _ he, inners _ he, hlook⟩

theorem Proper.entryName_of_look {node : Node} (h : node.Proper) {names : List String}
    (hlook : node.look names ≠ none) : ∀ name ∈ names, EntryName name := by
  induction names generalizing node with
  | nil => simp
  | cons name names ih =>
      obtain ⟨inner, -, hname, hinner, hrest⟩ := h.look_cons hlook
      exact List.forall_mem_cons.mpr ⟨hname, ih hinner hrest⟩

end Node

/-! ### Paths below a directory

A walk gives paths, and a check follows them anew.  That leads back to the places that the walk
went through. -/

namespace FileTree

open Node (pathBelow)

variable {t : FileTree}

theorem checkPath_eq_ok_iff {path : String} :
    checkPath path = .ok () ↔
      '\x00' ∉ path.toList ∧ path.toList ≠ [] ∧ path.utf8ByteSize ≤ maxPath := by
  unfold checkPath
  split_ifs with hzero hempty hlong
  · simp [hzero]
  · simp_all
  · simp [Nat.not_le.mpr hlong]
  · simp_all

/-- Names that lead to something in a tree are followed to it. -/
theorem follow_below {place : List String} {node : Node} (hproper : node.Proper)
    (hnode : t.root.at? place = some node) {names : List String} (hlook : node.look names ≠ none) :
    follow t.root place names = .ok (place ++ names) := by
  induction names generalizing place node with
  | nil => rw [follow, List.append_nil]
  | cons name names ih =>
      obtain ⟨inner, hfind, hname, hinner, hrest⟩ := hproper.look_cons hlook
      have hat : t.root.at? (place ++ [name]) = some inner := by
        rw [Node.at?_append, hnode]
        show (findEntry name node.entries >>= fun inner => inner.at? []) = _
        rw [hfind]
        rfl
      have hplace : t.look place = some .directory := by
        rw [FileTree.look, Node.look, hnode]
        exact congrArg some (Node.sight_of_look_cons hlook)
      have hthere : t.look (place ++ [name]) ≠ none := by
        rw [FileTree.look, Node.look, hat]
        exact Option.some_ne_none _
      have hdot : name ≠ "." := fun h => hname.component.ne_dot (by rw [h]; rfl)
      rw [follow_cons, if_pos hplace, if_neg hdot, if_neg hname.ne_dots,
        if_neg (Nat.not_lt.mpr hname.short),
        if_neg hthere, ih hinner hat hrest, List.append_assoc, List.singleton_append]

theorem names_pathBelow (path : String) {names : List String} (h : ∀ name ∈ names, EntryName name) :
    FileTree.names (pathBelow path names) = FileTree.names path ++ names := by
  induction names generalizing path with
  | nil => rw [List.append_nil]; rfl
  | cons name names ih =>
      obtain ⟨hname, hnames⟩ := List.forall_mem_cons.mp h
      show FileTree.names (pathBelow (Path.join path name) names) = _
      rw [ih _ hnames, names_join hname.component.ne_nil hname.component.slash, List.append_assoc,
        List.singleton_append]

theorem origin_pathBelow (path : String) {names : List String}
    (h : ∀ name ∈ names, EntryName name) : t.origin (pathBelow path names) = t.origin path := by
  induction names generalizing path with
  | nil => rfl
  | cons name names ih =>
      obtain ⟨hname, hnames⟩ := List.forall_mem_cons.mp h
      show t.origin (pathBelow (Path.join path name) names) = _
      rw [ih _ hnames, origin_join hname.component.slash]

theorem zero_not_mem_pathBelow {path : String} (hpath : '\x00' ∉ path.toList) {names : List String}
    (h : ∀ name ∈ names, EntryName name) : '\x00' ∉ (pathBelow path names).toList := by
  induction names generalizing path with
  | nil => exact hpath
  | cons name names ih =>
      obtain ⟨hname, hnames⟩ := List.forall_mem_cons.mp h
      refine ih ?_ hnames
      rw [Path.join_eq, String.toList_ofList, List.mem_append, not_or]
      refine ⟨?_, hname.zero⟩
      unfold Path.frontOf
      split
      · exact hpath
      · simpa using hpath

/-- A path below a directory that is not too long leads to where its names lead. -/
theorem locate_pathBelow {path : String} {place : List String} {node : Node}
    (hplace : t.locate path = .ok place) (hnode : t.root.at? place = some node)
    (hproper : node.Proper) {names : List String} (hlook : node.look names ≠ none)
    (hshort : (pathBelow path names).utf8ByteSize ≤ maxPath) :
    t.locate (pathBelow path names) = .ok (place ++ names) := by
  obtain hnil | ⟨front, name, hconcat⟩ := List.eq_nil_or_concat names
  · rw [hnil, List.append_nil]
    exact hplace
  · rw [List.concat_eq_append] at hconcat
    obtain ⟨hcheck, hfollow⟩ := locate_eq_ok_iff.mp hplace
    have hnames := hproper.entryName_of_look hlook
    have hname : EntryName name := hnames name (by simp [hconcat])
    have hlast : pathBelow path names = Path.join (pathBelow path front) name := by
      rw [hconcat, pathBelow, List.foldl_append]
      rfl
    have htoList :
        (pathBelow path names).toList = Path.frontOf (pathBelow path front) ++ name.toList := by
      rw [hlast, Path.join_eq, String.toList_ofList]
    have hslash : endsWithSlash (pathBelow path names) = false := by
      rw [endsWithSlash, htoList, List.getLast?_append_of_ne_nil _ hname.component.ne_nil]
      refine decide_eq_false fun h => ?_
      exact hname.component.slash (List.mem_of_getLast? h)
    have hdirectory : follow t.root (t.origin path) (FileTree.names path) = .ok place := by
      by_cases hends : endsWithSlash path = true
      · rw [if_pos hends] at hfollow
        exact follow_of_append_here (n := 1) hfollow
      · rwa [if_neg hends, List.append_nil] at hfollow
    refine locate_eq_ok_iff.mpr ⟨checkPath_eq_ok_iff.mpr ⟨?_, ?_, hshort⟩, ?_⟩
    · exact zero_not_mem_pathBelow (checkPath_eq_ok_iff.mp hcheck).1 hnames
    · rw [htoList]
      exact List.append_ne_nil_of_right_ne_nil _ hname.component.ne_nil
    · rw [hslash, if_neg Bool.false_ne_true, List.append_nil, origin_pathBelow path hnames,
        names_pathBelow path hnames, follow_append, hdirectory]
      exact follow_below hproper hnode hlook

end FileTree

/-! ### Sources below a directory -/

namespace Node

/-- There is a source where names lead to: a file whose name is a stem with the extension of
sources. -/
def SourceAt (node : Node) (names : List String) : Prop :=
  (∃ content, node.look names = some (.file content)) ∧
    ∃ front stem, stem ≠ "" ∧ names = front ++ [stem ++ ".layout"]

theorem extension?_pathBelow {path name : String} {front : List String} (hname : EntryName name) :
    Path.extension? (pathBelow path (front ++ [name])) = some Program.sourceExtension ↔
      ∃ stem, stem ≠ "" ∧ name = stem ++ ".layout" := by
  have hlast : pathBelow path (front ++ [name]) =
      String.ofList (Path.frontOf (pathBelow path front) ++ name.toList) := by
    rw [pathBelow, List.foldl_append]
    exact Path.join_eq _ _
  have hdots : name.toList ≠ ['.', '.'] := fun h => hname.ne_dots (String.toList_inj.mp h)
  have hlayout : ∀ ending : List Char,
      String.ofList ending = Program.sourceExtension ↔ ending = "layout".toList := by
    intro ending
    rw [← String.toList_inj, String.toList_ofList]
    rfl
  rw [hlast, Path.extension?_append (Path.front_frontOf _) hname.component hdots,
    Option.map_eq_some_iff]
  simp only [hlayout, exists_eq_right, Path.splitExtension_eq_some_iff]
  constructor
  · rintro ⟨-, stem, hstem, hname⟩
    refine ⟨String.ofList stem, by simpa using hstem, ?_⟩
    rw [← String.toList_inj, hname]
    simp
  · rintro ⟨stem, hstem, rfl⟩
    exact ⟨by decide, stem.toList, by simpa using hstem, by simp⟩

/-- The places of the sources in a directory, in the order of a walk. -/
def sourcePlaces (path : String) (node : Node) : List (List String) :=
  node.filePlaces.filter fun names =>
    Path.extension? (pathBelow path names) = some Program.sourceExtension

theorem mem_sourcePlaces {path : String} {entries : List (String × Node)}
    (h : (directory entries).Proper) (names : List String) :
    names ∈ (directory entries).sourcePlaces path ↔ (directory entries).SourceAt names := by
  rw [sourcePlaces, List.mem_filter, mem_filePlaces h, SourceAt, decide_eq_true_eq]
  refine and_congr_right fun ⟨content, hcontent⟩ => ?_
  obtain rfl | ⟨front, name, hconcat⟩ := List.eq_nil_or_concat names
  · simp [look_nil, sight] at hcontent
  · rw [List.concat_eq_append] at hconcat
    subst hconcat
    have hpresent : (directory entries).look (front ++ [name]) ≠ none := by simp [hcontent]
    rw [extension?_pathBelow (h.entryName_of_look hpresent name (by simp))]
    constructor
    · rintro ⟨stem, hstem, rfl⟩
      exact ⟨front, stem, hstem, rfl⟩
    · rintro ⟨front', stem, hstem, heq⟩
      exact ⟨stem, hstem, List.singleton_inj.mp (List.append_inj' heq rfl).2⟩

end Node

/-! ### What is printed

Compiling a source for a check tells of its work on the stream for errors only (`Does.quiet`), so
what a check prints are the lines that it says itself. -/

namespace Program

variable {α β : Type}

/-- Whatever was told before, an action prints a text that the files decide. -/
def Prints (act : Action (StateM World) α) (text : FileTree → String) : Prop :=
  ∀ s w, (act s w).2.out = w.out ++ text w.files

/-- An action prints nothing. -/
def Quiet (act : Action (StateM World) α) : Prop := ∀ s w, (act s w).2.out = w.out

theorem quiet_iff_prints {act : Action (StateM World) α} : Quiet act ↔ Prints act fun _ => "" := by
  simp only [Quiet, Prints, String.append_empty]

theorem Prints.then_quiet {act : Action (StateM World) α} {k : α → Action (StateM World) β}
    {text : FileTree → String} (h : Prints act text) (hk : ∀ a, Quiet (k a)) :
    Prints (act >>= k) text := by
  intro s w
  have hout := h s w
  rw [bind_apply]
  rcases hrun : act s w with ⟨⟨e | a, s'⟩, w'⟩ <;> rw [hrun] at hout
  · exact hout
  · exact (hk a s' w').trans hout

theorem Quiet.bind {act : Action (StateM World) α} {k : α → Action (StateM World) β} (h : Quiet act)
    (hk : ∀ a, Quiet (k a)) : Quiet (act >>= k) :=
  quiet_iff_prints.mpr ((quiet_iff_prints.mp h).then_quiet hk)

theorem Prints.of_eq {act : Action (StateM World) α} {text text' : FileTree → String}
    (h : Prints act text) (heq : ∀ t, text t = text' t) : Prints act text' := by
  obtain rfl : text = text' := funext heq
  exact h

/-- An action that reads comes first: what is printed after it depends on what it read. -/
theorem Prints.bind {act : Action (StateM World) α} {k : α → Action (StateM World) β}
    {read : FileTree → Except Error α} {text : FileTree → String} {n : α → FileTree → String}
    (hread : Reads True act read) (h : Prints act text) (hk : ∀ a, Prints (k a) (n a)) :
    Prints (act >>= k) fun t => text t ++ match read t with | .ok a => n a t | .error _ => "" := by
  intro s w
  obtain ⟨hresult, hfiles⟩ := Prod.mk.inj (hread.files s w)
  have hout := h s w
  rw [bind_apply]
  rcases hrun : act s w with ⟨⟨e | a, s'⟩, w'⟩ <;> rw [hrun] at hresult hfiles hout
  · dsimp only at hresult hout ⊢
    rw [hresult, hout, String.append_empty]
  · dsimp only at hresult hfiles hout ⊢
    rw [hk a s' w', hresult, hout, ← hfiles, String.append_assoc]

theorem quiet_pure (a : α) : Quiet (pure a) := fun _ _ => rfl

theorem quiet_throw (e : Error) : Quiet (throw e : Action (StateM World) α) := fun _ _ => rfl

/-- **An action that may not print prints nothing**, whatever it tells of its work. -/
theorem Does.quiet {act : Action (StateM World) α} {m : FileAction α} (h : Does False act m) :
    Quiet act := by
  induction h with
  | ofExcept x => exact fun _ _ => rfl
  | @onFiles _ act f h =>
      intro s w
      show (act w).2.out = w.out
      rw [h]
  | print hp text => exact hp.elim
  | log hlevel topic message =>
      intro s w
      rw [log_apply]
      dsimp only
      split <;> rfl
  | remember => exact fun _ _ => rfl
  | get _ ih => exact fun s w => ih s s w
  | elapsed _ ih => exact fun s w => ih w.clock s w
  | bind _ _ ih ihk => exact ih.bind ihk
  | attempt _ ih => exact ih

theorem prints_say (text : String) : Prints (say text) fun _ => text ++ "\n" := fun _ _ => rfl

/-- What is said comes before what is printed then. -/
theorem Prints.after_say {text : String} {k : Unit → Action (StateM World) α}
    {more : FileTree → String} (hk : Prints (k ()) more) :
    Prints (say text >>= k) fun t => text ++ "\n" ++ more t :=
  Prints.bind (tells_say text) (prints_say text) fun _ => hk

/-- What is said of a source that was compiled for a check. -/
def verdict (path : String) : Except Error Output → String
  | .ok output => s!"✅ {path} - No issues found ({output.stats.widgets} widgets)" ++ "\n"
  | .error e => s!"❌ {path} - {e.message}" ++ "\n"

/-- What the check of a source prints. -/
def report (options : Options) (t : FileTree) (path : String) : String :=
  s!"🔍 Checking {path}" ++ "\n" ++ verdict path (t.compiled options path)

theorem prints_checkSource (options : Options) (path : String) :
    Prints (checkSource options path) (report options · path) := by
  have hquiet := (reads_attempt (reads_checkFile (p := False) options path)).quiet
  unfold checkSource
  refine Prints.after_say (Prints.of_eq (Prints.bind (n := fun result _ => verdict path result)
    (reads_attempt (reads_checkFile options path)) (quiet_iff_prints.mp hquiet) ?_) fun _ =>
    String.empty_append)
  intro result
  cases result with
  | ok output => exact (prints_say _).then_quiet fun _ => quiet_pure none
  | error e => exact (prints_say _).then_quiet fun _ => quiet_pure (some e)

/-- Checks one after the other print what each of them prints. -/
theorem prints_checkSources (options : Options) (paths : List String) :
    Prints (checkSources options paths) fun t => String.join (paths.map (report options t)) := by
  induction paths with
  | nil => exact quiet_iff_prints.mp (quiet_pure 0)
  | cons path paths ih =>
      unfold checkSources
      have hrest := fun error : Option Error =>
        ih.then_quiet fun failed => quiet_pure ((if error.isSome = true then 1 else 0) + failed)
      refine (Prints.bind (reads_checkSource options path)
        (prints_checkSource options path) hrest).of_eq fun t => ?_
      rw [List.map_cons, String.join_cons]

/-- What is said at the end of checking a directory. -/
def summary (total failed : Nat) : String :=
  "\n📊 Check Summary:" ++ "\n" ++ (s!"   Total files: {total}" ++ "\n" ++
    (s!"   Files with errors: {failed}" ++ "\n" ++
      if 0 < total then s!"   Success rate: {percent (total - failed) total}%" ++ "\n" else ""))

/-- After the last check the summary is said, and then the check ends. -/
theorem prints_summary (total failed : Nat) {act : Action (StateM World) Unit} (h : Quiet act) :
    Prints (do
      say "\n📊 Check Summary:"
      say s!"   Total files: {total}"
      say s!"   Files with errors: {failed}"
      if 0 < total then say s!"   Success rate: {percent (total - failed) total}%"
      act) fun _ => summary total failed := by
  unfold summary
  refine Prints.after_say (Prints.after_say (Prints.after_say ?_))
  by_cases htotal : 0 < total
  · simp only [if_pos htotal]
    exact (prints_say _).then_quiet fun _ => h
  · simp only [if_neg htotal]
    exact quiet_iff_prints.mp h

/-- What checking some sources prints in all. -/
def reportAll (options : Options) (t : FileTree) (sources : List String) : String :=
  String.join (sources.map (report options t)) ++
    summary sources.length (sources.countP fun path => (t.problem options path).isSome)

theorem onHost_filesBelow_bind (directory : String)
    (k : List String → Action (StateM World) α) (s : Session) (w : World) :
    (onHost (Host.filesBelow directory) >>= k : Action (StateM World) α) s w =
      k (w.files.filesBelow directory) s w := rfl

theorem prints_checkDirectory (options : Options) (directory : String) :
    Prints (checkDirectory options directory) fun t =>
      reportAll options t ((t.filesBelow directory).filter fun path =>
        Path.extension? path = some sourceExtension) := by
  have hend : ∀ failed : Nat,
      Quiet (if 0 < failed then throw (.invalidFormat (.failedChecks failed)) else pure () :
        Action (StateM World) Unit) := by
    intro failed
    split
    · exact quiet_throw _
    · exact quiet_pure ()
  intro s w
  rw [checkDirectory, onHost_filesBelow_bind]
  dsimp only
  generalize ((w.files.filesBelow directory).filter fun path =>
    decide (Path.extension? path = some sourceExtension)) = sources
  have hsources :=
    Prints.bind (reads_checkSources options sources) (prints_checkSources options sources)
    fun failed => prints_summary sources.length failed (hend failed)
  exact hsources s w

/-! ### Checking a directory

Each source is compared with a check of its own, in a new world with the same files. -/

/-- The check of a source has found something. -/
def fails : Except Error (Option Error) → Bool
  | .ok none => false
  | _ => true

/-- A source that is checked on its own. -/
def checkAlone (options : Options) (w : World) (path : String) :
    (Except Error (Option Error) × Session) × World :=
  (checkSource options path : Action (StateM World) (Option Error)) (.start 0)
    (.start w.files w.clock)

theorem out_checkAlone (options : Options) (w : World) (path : String) :
    (checkAlone options w path).2.out = report options w.files path := by
  rw [checkAlone, prints_checkSource options path]
  exact String.empty_append

theorem fails_checkAlone (options : Options) (w : World) (path : String) :
    fails (checkAlone options w path).1.1 = (w.files.problem options path).isSome := by
  have hread := (reads_checkSource options path).files (.start 0) (.start w.files w.clock)
  have hresult : (checkAlone options w path).1.1 = .ok (w.files.problem options path) :=
    (Prod.mk.inj hread).1.symm
  rw [hresult]
  cases w.files.problem options path <;> rfl

/-- The paths of the sources below a directory are those of their places. -/
theorem sources_eq {t : FileTree} {directory : String} {place : List String} {node : Node}
    (hplace : t.locate directory = .ok place) (hnode : t.root.at? place = some node)
    (hproper : node.Proper) :
    ((t.filesBelow directory).filter fun path => Path.extension? path = some sourceExtension) =
      (node.sourcePlaces directory).map (Node.pathBelow directory) := by
  have hfiles : t.filesBelow directory = node.files directory := by
    simp [FileTree.filesBelow, FileTree.node, hplace, hnode, bind, Except.bind]
  rw [hfiles, Node.files_eq hproper, List.filter_map]
  rfl

/-- All in all the checks of some sources print what each of them prints on its own, and a
summary. -/
theorem reportAll_eq (options : Options) (w : World) (sources : List String) :
    reportAll options w.files sources =
      String.join (sources.map fun path => (checkAlone options w path).2.out) ++
        summary sources.length
          (sources.countP fun path => fails (checkAlone options w path).1.1) := by
  simp only [reportAll, out_checkAlone, fails_checkAlone]

theorem problemBelow_eq (options : Options) (w : World) {directory : String} {sources : List String}
    (h : ((w.files.filesBelow directory).filter fun path => Path.extension? path =
      some sourceExtension) = sources) :
    w.files.problemBelow options directory =
      problemOfCount (sources.countP fun path => fails (checkAlone options w path).1.1) := by
  unfold FileTree.problemBelow
  simp only [h, fails_checkAlone]

theorem failing_problemOfCount (failed : Nat) :
    failing (problemOfCount failed) =
      if failed = 0 then .ok () else .error (.invalidFormat (.failedChecks failed)) := by
  unfold problemOfCount
  by_cases hzero : failed = 0
  · rw [if_pos hzero, if_neg (by omega)]
    rfl
  · rw [if_neg hzero, if_pos (by omega)]
    rfl

theorem failing_problemOfCount_eq_ok_iff (failed : Nat) : failing (problemOfCount failed) = .ok () ↔
    failed = 0 := by
  rw [failing_problemOfCount]
  split
  · simp_all
  · simp_all

/-- **Checking a directory is checking each source below it.**  Each file with the extension of
sources is checked once, at whatever depth it is, and nothing else is.  What is printed is what each
check prints on its own, and then how many sources there were and how many of them failed, so no
failure ends the walk.  The check ends well if and only if every source passes. -/
theorem checkDirectory_eq_checks {directory : String} {place : List String}
    {entries : List (String × Node)} {w : World} (hplace : w.files.locate directory = .ok place)
    (hnode : w.files.root.at? place = some (.directory entries))
    (hproper : (Node.directory entries).Proper) (options : Options) (s : Session) :
    let run := (checkDirectory options directory : Action (StateM World) Unit) s w
    let alone := checkAlone options w
    ∃ places : List (List String), places.Nodup ∧
      (∀ names, names ∈ places ↔ (Node.directory entries).SourceAt names) ∧
      (∀ names ∈ places, (Node.pathBelow directory names).utf8ByteSize ≤ FileTree.maxPath →
        w.files.locate (Node.pathBelow directory names) = .ok (place ++ names)) ∧
      let sources := places.map (Node.pathBelow directory)
      let failed := sources.countP fun path => fails (alone path).1.1
      run.2.out = w.out ++ (String.join (sources.map fun path => (alone path).2.out) ++
        summary places.length failed) ∧
      run.2.files = w.files ∧ failed ≤ places.length ∧
      run.1.1 = (if failed = 0 then .ok () else .error (.invalidFormat (.failedChecks failed))) ∧
      (run.1.1 = .ok () ↔ ∀ path ∈ sources, fails (alone path).1.1 = false) := by
  intro run alone
  have hsources := sources_eq hplace hnode hproper
  obtain ⟨hresult, hfiles⟩ := Prod.mk.inj ((reads_checkDirectory options directory).files s w)
  have hout := prints_checkDirectory options directory s w
  dsimp only at hresult hout
  rw [problemBelow_eq options w hsources] at hresult
  rw [hsources, reportAll_eq, List.length_map] at hout
  refine ⟨(Node.directory entries).sourcePlaces directory, (Node.nodup_filePlaces hproper).filter _,
    Node.mem_sourcePlaces hproper, ?_, hout, hfiles.symm, ?_, ?_, ?_⟩
  · intro names hnames hshort
    obtain ⟨⟨content, hcontent⟩, -⟩ := (Node.mem_sourcePlaces hproper names).mp hnames
    exact FileTree.locate_pathBelow hplace hnode hproper (by simp [hcontent]) hshort
  · rw [← List.length_map (Node.pathBelow directory)]
    exact List.countP_le_length
  · rw [← failing_problemOfCount]
    exact hresult.symm
  · rw [← hresult, failing_problemOfCount_eq_ok_iff, List.countP_eq_zero]
    simp only [Bool.not_eq_true, alone]

/-- The entries of a directory with a source that passes, a hidden file, a source that is no text in
a directory whose name looks like that of a source, and another file. -/
def mixedEntries : List (String × Node) :=
  [("main.layout", .file (Text.Utf8.encode "Panel \x7b \x7d".toList)), (".layout", .file []),
    ("old.layout", .directory [("logo.layout", .file [0xff])]), ("notes.txt", .file [])]

/-- A world with these entries in one directory. -/
def mixedWorld : World := .start ⟨.directory [("ui", .directory mixedEntries)], []⟩ "0"

theorem proper_mixedEntries : (Node.directory mixedEntries).Proper := by
  have hlogo : (Node.directory [("logo.layout", .file [0xff])]).Proper := by
    refine .directory (by decide) (by decide) fun e he => ?_
    rw [List.mem_singleton.mp he]
    exact .file _
  refine .directory (by decide) (by decide) ?_
  simp only [mixedEntries, List.forall_mem_cons, List.not_mem_nil, false_imp_iff,
    implies_true, and_true]
  exact ⟨.file _, .file _, hlogo, .file _⟩

theorem fails_logo :
    fails (checkAlone .default mixedWorld "ui/old.layout/logo.layout").1.1 = true := by
  decide +kernel

/-- The hidden file and the directory are no sources.  The source that is no text is one, and so the
check of the directory fails. -/
theorem checkDirectory_eq_checks_mixed :
    fails (checkAlone .default mixedWorld "ui/main.layout").1.1 = false ∧
      (∃ failed,
        ((checkDirectory .default "ui" : Action (StateM World) Unit) (.start 0) mixedWorld).1.1 =
        .error (.invalidFormat (.failedChecks failed))) ∧
      ∃ places : List (List String), places.Nodup ∧ ["main.layout"] ∈ places ∧
        ["old.layout", "logo.layout"] ∈ places ∧ [".layout"] ∉ places ∧
        ["old.layout"] ∉ places := by
  obtain ⟨places, hnodup, hplaces, -, -, -, -, hresult, hpass⟩ :=
    checkDirectory_eq_checks (w := mixedWorld) (rfl : mixedWorld.files.locate "ui" = .ok ["ui"]) rfl
      proper_mixedEntries .default (.start 0)
  have hmain : ["main.layout"] ∈ places := (hplaces _).mpr ⟨⟨_, rfl⟩, [], "main", by decide, rfl⟩
  have hlogo : ["old.layout", "logo.layout"] ∈ places :=
    (hplaces _).mpr ⟨⟨_, rfl⟩, ["old.layout"], "logo", by decide, rfl⟩
  have hfailed :
      ((checkDirectory .default "ui" : Action (StateM World) Unit) (.start 0) mixedWorld).1.1 ≠
      .ok () := by
    intro hok
    have hpath :
        Node.pathBelow "ui" ["old.layout", "logo.layout"] = "ui/old.layout/logo.layout" := by decide
    have hpassed := hpass.mp hok _ (List.mem_map_of_mem hlogo)
    rw [hpath, fails_logo] at hpassed
    cases hpassed
  refine ⟨by decide +kernel, ⟨_, hresult.trans (if_neg fun hzero => ?_)⟩, places, hnodup, hmain,
    hlogo, ?_, ?_⟩
  · exact hfailed (hresult.trans (if_pos hzero))
  · intro hmem
    obtain ⟨-, front, stem, hstem, hnames⟩ := (hplaces _).mp hmem
    have hname : [".layout"] = [stem ++ ".layout"] :=
      (List.append_inj' (show [] ++ [".layout"] = front ++ [stem ++ ".layout"] from hnames) rfl).2
    have hlength := congrArg String.length (List.singleton_inj.mp hname)
    rw [String.length_append] at hlength
    exact hstem (String.length_eq_zero_iff.mp (by omega))
  · intro hmem
    obtain ⟨⟨content, hcontent⟩, -⟩ := (hplaces _).mp hmem
    cases hcontent

end Program

end WidgetLayout
