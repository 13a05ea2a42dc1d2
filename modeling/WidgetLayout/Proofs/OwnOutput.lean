/-
When a compilation writes over its own source.

Without a path for its output, a compilation takes the path of the source with another extension, or
that name in the output directory.  Nothing compares the two paths.  So the output can be the source
itself: its name must have the extension of outputs already, and the output directory, if there is
one, must be the directory that the source stands in.  In every other case the source is after the
run what it was before, whatever way the paths are spelled.
-/
import WidgetLayout.Proofs.Commands
import WidgetLayout.Proofs.FileNames

namespace WidgetLayout

namespace FileTree

open WidgetLayout.Path (Front Component frontOf)

/-! ### Paths that lead to a file

A file has many paths.  But all of them end with its name, and what stands before that leads to
its directory. -/

/-- What has something in it is a directory. -/
theorem look_of_look_append {t : FileTree} {place : List String} {name : String}
    (h : t.look (place ++ [name]) ≠ none) : t.look place = some .directory := by
  rw [look, Node.look_append] at h
  rw [look, Node.look]
  cases hat : t.root.at? place with
  | none => simp [hat] at h
  | some node =>
      rw [hat, Option.bind_some] at h
      rw [Option.map_some, Node.sight_of_look_cons h]

theorem look_dropLast {t : FileTree} {place : List String} (h : t.look place = some .directory) :
    t.look place.dropLast = some .directory := by
  rcases List.eq_nil_or_concat place with rfl | ⟨outer, name, rfl⟩
  · exact h
  · rw [List.concat_eq_append] at h ⊢
    have hpresent : t.look (outer ++ [name]) ≠ none := by simp [h]
    rw [List.dropLast_concat]
    exact look_of_look_append hpresent

theorem follow_append_eq_ok_iff {t : FileTree} {here names more place : List String} :
    follow t.root here (names ++ more) = .ok place ↔
      ∃ middle, follow t.root here names = .ok middle ∧ follow t.root middle more = .ok place := by
  rw [follow_append]
  cases follow t.root here names with
  | error fault => simp [bind, Except.bind]
  | ok middle => simp [bind, Except.bind]

/-- Behind `.` or `..` there is a directory, if there is anything. -/
theorem look_of_follow_dots {t : FileTree} {here place : List String} {name : String}
    (hname : name = "." ∨ name = "..") (h : follow t.root here [name] = .ok place) :
    t.look place = some .directory := by
  rw [follow_cons] at h
  split_ifs at h with hhere hdot hdots hlong hnone
  · obtain rfl : here = place := Except.ok.inj h
    exact hhere
  · obtain rfl : here.dropLast = place := Except.ok.inj h
    exact look_dropLast hhere
  · exact absurd hname (not_or.mpr ⟨hdot, hdots⟩)

theorem eq_append_of_follow {t : FileTree} {here place : List String} {name : String}
    (hname : ¬ (name = "." ∨ name = "..")) (h : follow t.root here [name] = .ok place) :
    place = here ++ [name] := by
  rw [not_or] at hname
  rw [follow_cons] at h
  split_ifs at h with hhere hdot hdots hlong hnone
  · exact absurd hdot hname.1
  · exact absurd hdots hname.2
  · exact (Except.ok.inj h).symm

/-- A path is the name of a file behind a front, and the front leads to a directory. -/
structure Cut (t : FileTree) (path : String) (front name : List Char)
    (directory : List String) : Prop where
  path_eq : path = String.ofList (front ++ name)
  isFront : Front front
  component : Component name
  ne_dots : name ≠ ['.', '.']
  follow :
    follow t.root (t.origin (String.ofList front)) (names (String.ofList front)) = .ok directory

/-- A path can be cut in one way only. -/
theorem Cut.unique {t : FileTree} {front front' name name' : List Char} {directory : List String}
    (h : Cut t (String.ofList (front' ++ name')) front name directory) (hfront : Front front')
    (hname : Component name') : front = front' ∧ name = name' := by
  have heq : front ++ name = front' ++ name' := (String.ofList_injective h.path_eq).symm
  constructor
  · rw [← Path.beforeBase_append h.isFront h.component, heq, Path.beforeBase_append hfront hname]
  · rw [← Path.base_append h.isFront h.component, heq, Path.base_append hfront hname]

/-- A path that leads to a file is cut before the name of the file. -/
theorem cut_of_locate {t : FileTree} {path : String} {place : List String} {content : List UInt8}
    (hlocate : t.locate path = .ok place) (hlook : t.look place = some (.file content)) :
    ∃ front name directory, Cut t path front name directory ∧
      place = directory ++ [String.ofList name] := by
  obtain ⟨hcheck, hfollow⟩ := locate_eq_ok_iff.mp hlocate
  have hfile : t.look place ≠ some .directory := by simp [hlook]
  -- a slash at the end asks for a directory, and so does a last name that is `.` or `..`
  have hslash : ¬ endsWithSlash path = true := by
    intro hslash
    rw [if_pos hslash] at hfollow
    obtain ⟨here, -, hhere⟩ := follow_append_eq_ok_iff.mp hfollow
    exact hfile (look_of_follow_dots (.inl rfl) hhere)
  have hne : path.toList ≠ [] := by
    intro hnil
    obtain rfl : path = "" := String.toList_eq_nil_iff.mp hnil
    exact absurd hcheck (by decide)
  obtain ⟨front, name, hpath, hfront, hname, hnoslash⟩ :=
    Path.exists_front hne (by simpa [endsWithSlash] using hslash)
  have hpath : path = String.ofList (front ++ name) := by rw [← hpath, String.ofList_toList]
  subst hpath
  rw [if_neg hslash, List.append_nil, names_front hfront hname hnoslash,
    origin_front hfront hnoslash] at hfollow
  obtain ⟨directory, hdirectory, hlast⟩ := follow_append_eq_ok_iff.mp hfollow
  have hdots : ¬ (String.ofList name = "." ∨ String.ofList name = "..") :=
    fun hdots => hfile (look_of_follow_dots hdots hlast)
  have hone : name ≠ ['.'] := by
    rintro rfl
    exact hdots (.inl rfl)
  have htwo : name ≠ ['.', '.'] := by
    rintro rfl
    exact hdots (.inr rfl)
  exact ⟨front, name, directory, ⟨rfl, hfront, ⟨hname, hnoslash, hone⟩, htwo, hdirectory⟩,
    eq_append_of_follow hdots hlast⟩

/-! ### Files that are kept -/

/-- The file that a path leads to is as it was. -/
structure Kept (path : String) (t t' : FileTree) : Prop where
  look : ∀ place content, t'.locate path = .ok place →
    (t'.look place = some (.file content) ↔ t.look place = some (.file content))
  readFile : ∀ content, t.readFile path = .ok content → t'.readFile path = .ok content

theorem Grows.kept {path : String} {t t' : FileTree} (h : Grows t t')
    (hlook : ∀ place content, t'.locate path = .ok place →
      (t'.look place = some (.file content) ↔ t.look place = some (.file content))) :
    Kept path t t' where
  look := hlook
  readFile content hread := by
    obtain ⟨place, hlocate, hfile⟩ := readFile_eq_ok_iff.mp hread
    have hlocate' := h.locate hlocate
    exact readFile_eq_ok_iff.mpr ⟨place, hlocate', (hlook place content hlocate').mpr hfile⟩

theorem Grows.refl (t : FileTree) : Grows t t :=
  ⟨rfl, fun _ hplace => hplace, fun _ hplace => hplace⟩

theorem Grows.trans {t t' t'' : FileTree} (h : Grows t t') (h' : Grows t' t'') : Grows t t'' where
  home := h'.home.trans h.home
  directory place hplace := h'.directory place (h.directory place hplace)
  present place hplace := h'.present place (h.present place hplace)

theorem readFile_of_textAt {t : FileTree} {role : FileRole} {path text : String}
    (h : t.textAt role path = .ok text) : ∃ content, t.readFile path = .ok content := by
  unfold textAt bytesAt at h
  cases hread : t.readFile path with
  | error fault => simp [hread, Except.mapError, bind, Except.bind] at h
  | ok content => exact ⟨content, rfl⟩

end FileTree

namespace Program

open FileTree
open WidgetLayout.Path (Front Component frontOf renamed)

/-! ### The output of a source

What is compared are places: two paths are those of one file if they lead to one place. -/

/-- What stands before the name of an output without a path of its own. -/
def outputFront (settings : Settings) (front : List Char) : List Char :=
  match settings.outputDirectory with
  | some directory => frontOf directory
  | none => front

theorem front_outputFront (settings : Settings) {front : List Char} (hfront : Front front) :
    Front (outputFront settings front) := by
  unfold outputFront
  split
  · exact Path.front_frontOf _
  · exact hfront

/-- An output without a path of its own is named after the source. -/
theorem outputPath_none (settings : Settings) {front name : List Char} (hfront : Front front)
    (hname : Component name) (hdots : name ≠ ['.', '.']) :
    outputPath settings (String.ofList (front ++ name)) none =
      if renamed name "bin".toList = ['.', '.'] then String.ofList (front ++ ['.', '.'])
      else String.ofList (outputFront settings front ++ renamed name "bin".toList) := by
  have hrenamed := Path.component_renamed hname (show '/' ∉ "bin".toList by decide)
  unfold outputPath outputFront
  dsimp only
  rw [Path.withExtension_append hfront hname hdots, Path.fileName?_append hfront hrenamed]
  by_cases htwo : renamed name "bin".toList = ['.', '.']
  · rw [if_pos htwo, if_pos htwo, htwo]
    cases settings.outputDirectory <;> rfl
  · rw [if_neg htwo, if_neg htwo]
    cases settings.outputDirectory with
    | none => rfl
    | some directory =>
        dsimp only
        rw [Path.join_eq, String.toList_ofList]

/-- The output is the source itself: its name has the extension of outputs, and the output
directory, if there is one, is the directory it stands in. -/
structure OwnOutput (settings : Settings) (t : FileTree) (input : String) : Prop where
  extension : Path.extension? input = some "bin"
  directory : ∀ directory, settings.outputDirectory = some directory →
    ∃ place name, t.locate input = .ok (place ++ [name]) ∧
      follow t.root (t.origin directory) (names directory) = .ok place

/-- Where a source and its output are files, the two are one file in no other case. -/
theorem place_eq_iff_ownOutput {settings : Settings} {t : FileTree} {input : String}
    {place out : List String} {content bytes : List UInt8} (hinput : t.locate input = .ok place)
    (hsource : t.look place = some (.file content))
    (houtput : t.locate (outputPath settings input none) = .ok out)
    (hbytes : t.look out = some (.file bytes)) : out = place ↔ OwnOutput settings t input := by
  obtain ⟨front, name, directory, hcut, rfl⟩ := cut_of_locate hinput hsource
  obtain ⟨front', name', directory', hcut', rfl⟩ := cut_of_locate houtput hbytes
  obtain rfl := hcut.path_eq
  have hrenamed := Path.component_renamed hcut.component (show '/' ∉ "bin".toList by decide)
  rw [outputPath_none settings hcut.isFront hcut.component hcut.ne_dots] at hcut'
  -- from a name like `..x` only `..` is left, and there is no file
  have htwo : renamed name "bin".toList ≠ ['.', '.'] := by
    intro htwo
    rw [if_pos htwo] at hcut'
    rw [htwo] at hrenamed
    exact hcut'.ne_dots (hcut'.unique hcut.isFront hrenamed).2
  rw [if_neg htwo] at hcut'
  obtain ⟨rfl, rfl⟩ := hcut'.unique (front_outputFront settings hcut.isFront) hrenamed
  have hextension : renamed name "bin".toList = name ↔
      Path.extension? (String.ofList (front ++ name)) = some "bin" := by
    rw [Path.renamed_eq_self_iff htwo,
      Path.extension?_append hcut.isFront hcut.component hcut.ne_dots, Option.map_eq_some_iff]
    constructor
    · intro h
      exact ⟨_, h, String.ofList_toList⟩
    · rintro ⟨ending, h, hending⟩
      rw [h, ← hending, String.toList_ofList]
  -- without an output directory both have the same front; with one, its names lead to where the
  -- output stands
  have hdirectory : directory' = directory ↔ ∀ d, settings.outputDirectory = some d →
      ∃ place own, t.locate (String.ofList (front ++ name)) = .ok (place ++ [own]) ∧
        follow t.root (t.origin d) (names d) = .ok place := by
    have hfollow := hcut'.follow
    unfold outputFront at hfollow
    cases houter : settings.outputDirectory with
    | none =>
        rw [houter] at hfollow
        have heq : directory' = directory := Except.ok.inj (hfollow.symm.trans hcut.follow)
        simp [heq]
    | some d =>
        simp only [houter, names_frontOf, origin_frontOf] at hfollow
        constructor
        · rintro rfl d' hd'
          obtain rfl := Option.some.inj hd'
          exact ⟨directory', String.ofList name, hinput, hfollow⟩
        · intro h
          obtain ⟨place, own, hplace, hd⟩ := h d rfl
          have hsame : directory = place :=
            List.append_inj_left' (Except.ok.inj (hinput.symm.trans hplace)) rfl
          rw [hsame]
          exact Except.ok.inj (hfollow.symm.trans hd)
  constructor
  · intro heq
    obtain ⟨hplaces, hnames⟩ := List.append_inj' heq rfl
    refine ⟨hextension.mp ?_, hdirectory.mp hplaces⟩
    exact String.ofList_injective (List.singleton_inj.mp hnames)
  · rintro ⟨hending, houter⟩
    rw [hdirectory.mpr houter, hextension.mpr hending]

/-! ### Runs without a path for the output -/

theorem Leaves.grows {i : Invocation} {t t' : FileTree} (h : Leaves i t t') : Grows t t' := by
  unfold Leaves at h
  split at h
  · rcases h with rfl | ⟨settings, -, hprepared⟩
    · exact .refl t'
    · exact hprepared.grows
  · rw [h]
    exact .refl t

section Compiled

variable {settings : Settings} {a : CompileArguments} {t t₁ t' : FileTree} {options : Options}
  {source : String} {result : Output}

/-- A source that is not its own output is kept. -/
theorem Compiled.kept (h : Compiled settings a t t₁ t' options source result)
    (houtput : a.output = none) (hown : ¬ OwnOutput settings t' a.input) : Kept a.input t t' := by
  obtain ⟨out, hlocate, hreplaces⟩ := h.written
  rw [houtput] at hlocate
  refine (h.prepared.grows.trans hreplaces.grows).kept fun place content hinput => ?_
  by_cases heq : place = out
  · subst heq
    have hbytes := hreplaces.look place
    rw [if_pos rfl] at hbytes
    exact absurd ((place_eq_iff_ownOutput hinput hbytes hlocate hbytes).mp rfl) hown
  · rw [hreplaces.look, if_neg heq]
    exact h.prepared.file_iff place content

/-- A source that is its own output is written over. -/
theorem Compiled.readFile_input (h : Compiled settings a t t₁ t' options source result)
    (houtput : a.output = none) (hown : OwnOutput settings t' a.input) :
    t'.readFile a.input = .ok result.bytes := by
  obtain ⟨out, hlocate, hreplaces⟩ := h.written
  rw [houtput] at hlocate
  obtain ⟨content, hread⟩ := readFile_of_textAt h.source_eq
  obtain ⟨place, hinput, hcontent⟩ := readFile_eq_ok_iff.mp hread
  have hinput' := hreplaces.grows.locate hinput
  have hbytes := hreplaces.look out
  rw [if_pos rfl] at hbytes
  by_cases heq : place = out
  · rw [heq] at hinput'
    exact readFile_eq_ok_iff.mpr ⟨out, hinput', hbytes⟩
  · have hcontent' := hreplaces.look place
    rw [if_neg heq, hcontent] at hcontent'
    exact absurd ((place_eq_iff_ownOutput hinput' hcontent' hlocate hbytes).mpr hown).symm heq

end Compiled

/-- **A run without a path for the output keeps its source, unless the source is its own output.**
In that case a run that ends well leaves the output in the place of the source, and one that fails
still keeps it. -/
theorem runIn_keeps_source {arguments : List String} {i : Invocation} {a : CompileArguments}
    (hread : Arguments.read arguments = .ok i) (hcommand : i.command = some (.compile a))
    (houtput : a.output = none) (hwatch : a.watch = false) (w : World) :
    let status := (runIn arguments w).1
    let t := w.files
    let t' := (runIn arguments w).2.files
    ((∀ settings, status = 0 → t.settings i.config = .ok settings →
      ¬ OwnOutput settings t' a.input) →
        Kept a.input t t') ∧
      ∀ settings, status = 0 → t.settings i.config = .ok settings → OwnOutput settings t' a.input →
        ∃ t₁ options source result, Compiled settings a t t₁ t' options source result ∧
          t'.readFile a.input = .ok result.bytes := by
  intro status t t'
  have haccounts := accounts_performing i t
  have hwatch' : ∀ b, i.command = some (.compile b) → b.watch = false := by
    intro b hb
    cases hcommand.symm.trans hb
    exact hwatch
  rcases runIn_of_ok hread hwatch' w with ⟨hdone, hzero⟩ | ⟨e, hfailed, hone⟩
  · rw [hdone] at haccounts
    simp only [Accounts, Accomplishes, hcommand] at haccounts
    obtain ⟨settings, t₁, options, source, result, hsettings, hcompiled⟩ := haccounts
    refine ⟨fun hown => hcompiled.kept houtput (hown settings hzero hsettings), ?_⟩
    intro settings' _ hsettings' hown
    cases hsettings.symm.trans hsettings'
    exact ⟨t₁, options, source, result, hcompiled, hcompiled.readFile_input houtput hown⟩
  · rw [hfailed] at haccounts
    have hleaves : Leaves i t t' := haccounts
    have hne : status ≠ 0 := by simp [show status = 1 from hone]
    refine ⟨fun _ => hleaves.grows.kept fun place content _ => hleaves.file_iff place content, ?_⟩
    intro settings hzero
    exact absurd hzero hne

/-- The arguments of a compilation with nothing but a source. -/
def compileOnly (input : String) : CompileArguments :=
  ⟨input, none, none, [], [], false, false, false, false⟩

/-- A world with a source that is named like an output. -/
def namedLikeOutput : World :=
  .start ⟨.directory [("main.bin", .file (Text.Utf8.encode "Panel \x7b \x7d".toList))], []⟩ "0"

/-- The same source in a directory, and settings with another directory for outputs. -/
def namedLikeOutputInLib : World :=
  .start ⟨.directory
    [("conf.json", .file (Text.Utf8.encode "\x7b\"output_directory\": \"out\"\x7d".toList)),
    ("lib", .directory [("main.bin", .file (Text.Utf8.encode "Panel \x7b \x7d".toList))])], []⟩ "0"

/-- The arguments that compile it with these settings. -/
def compileInLib : List String := ["-c", "conf.json", "compile", "lib/main.bin"]

theorem settings_namedLikeOutputInLib :
    namedLikeOutputInLib.files.settings (some "conf.json") =
      .ok ⟨none, none, none, some "out"⟩ := by
  decide +kernel

/-- A source that is named like an output is kept where outputs have a directory of their own;
beside its output it is written over. -/
theorem runIn_keeps_source_namedLikeOutput :
    ((runIn compileInLib namedLikeOutputInLib).1 = 0 ∧
      (runIn compileInLib namedLikeOutputInLib).2.files.look ["out", "main.bin"] =
        some (.file [17, 0, 0]) ∧
      Kept "lib/main.bin" namedLikeOutputInLib.files
        (runIn compileInLib namedLikeOutputInLib).2.files) ∧
    ∃ t₁ options source result, Compiled .empty (compileOnly "main.bin") namedLikeOutput.files t₁
        (runIn ["compile", "main.bin"] namedLikeOutput).2.files options source result ∧
      (runIn ["compile", "main.bin"] namedLikeOutput).2.files.readFile "main.bin" =
        .ok result.bytes := by
  have hreadLib : Arguments.read compileInLib =
      .ok ⟨some "conf.json", 0, some (.compile (compileOnly "lib/main.bin"))⟩ := by rfl
  have hread : Arguments.read ["compile", "main.bin"] =
      .ok ⟨none, 0, some (.compile (compileOnly "main.bin"))⟩ := by rfl
  have hzero : (runIn ["compile", "main.bin"] namedLikeOutput).1 = 0 := by decide +kernel
  refine ⟨⟨by decide +kernel, by decide +kernel, ?_⟩, ?_⟩
  · refine (runIn_keeps_source hreadLib rfl rfl rfl namedLikeOutputInLib).1
      fun settings _ hsettings hown => ?_
    cases settings_namedLikeOutputInLib.symm.trans hsettings
    obtain ⟨place, name, hinput, hout⟩ := hown.directory "out" rfl
    have hlib : (runIn compileInLib namedLikeOutputInLib).2.files.locate "lib/main.bin" =
        .ok (["lib"] ++ ["main.bin"]) := by decide +kernel
    have hdirectory : follow (runIn compileInLib namedLikeOutputInLib).2.files.root
        ((runIn compileInLib namedLikeOutputInLib).2.files.origin "out") (names "out") =
          .ok ["out"] := by
      decide +kernel
    have hplace : ["lib"] = place :=
      List.append_inj_left' (Except.ok.inj (hlib.symm.trans hinput)) rfl
    have hplace' : ["out"] = place := Except.ok.inj (hdirectory.symm.trans hout)
    exact absurd (hplace.trans hplace'.symm) (by decide)
  · refine (runIn_keeps_source hread rfl rfl rfl namedLikeOutput).2 .empty hzero rfl ?_
    exact ⟨by decide +kernel, fun directory hdirectory => by cases hdirectory⟩

/-- Nothing keeps a run from taking the path of its source for the output. -/
theorem runIn_overwrites_namedLikeOutput :
    Arguments.read ["compile", "main.bin"] =
      .ok ⟨none, 0, some (.compile (compileOnly "main.bin"))⟩ ∧
      (compileOnly "main.bin").output = none ∧ (compileOnly "main.bin").watch = false ∧
      namedLikeOutput.files.readFile "main.bin" = .ok (Text.Utf8.encode "Panel \x7b \x7d".toList) ∧
      (runIn ["compile", "main.bin"] namedLikeOutput).2.files.readFile "main.bin" = .ok [17, 0, 0] ∧
      Text.Utf8.encode "Panel \x7b \x7d".toList ≠ [17, 0, 0] :=
  ⟨rfl, rfl, rfl, by decide +kernel, by decide +kernel, by decide +kernel⟩

end Program

end WidgetLayout
