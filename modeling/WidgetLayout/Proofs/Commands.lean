/-
What a run of the program changes.

Directories for an output are made before anything else is looked at, so a run that fails may leave
new directories behind; but a file is written last, when nothing can fail any more except for the
writing itself.  Hence a run that fails changes no file, and one that ends well changes at most the
one file it was asked for.
-/
import WidgetLayout.Proofs.FileEffects

namespace WidgetLayout

namespace FileTree

/-! ### Reading after directories were made

The directories for an output are made before the bindings and the source are read, so what could
be read at the beginning has to be readable then. -/

/-- What comes after a step that ends well in another tree, too, ends as it did. -/
theorem bind_eq_ok_of_imp {α β : Type} {x y : Except Error α} {f : α → Except Error β} {b : β}
    (h : ∀ a, x = .ok a → y = .ok a) (hb : (x >>= f) = .ok b) : (y >>= f) = .ok b := by
  cases x with
  | error e => cases hb
  | ok a =>
      rw [h a rfl]
      exact hb

namespace Prepared

variable {paths : List String} {t t' : FileTree}

theorem bytesAt (h : Prepared paths t t') {role : FileRole} {path : String} {bytes : List UInt8}
    (hread : t.bytesAt role path = .ok bytes) : t'.bytesAt role path = .ok bytes := by
  unfold FileTree.bytesAt at hread ⊢
  cases hfile : t.readFile path with
  | error fault => simp [hfile, Except.mapError] at hread
  | ok content =>
      rw [hfile] at hread
      rw [h.readFile hfile]
      exact hread

theorem textAt (h : Prepared paths t t') {role : FileRole} {path text : String}
    (hread : t.textAt role path = .ok text) : t'.textAt role path = .ok text :=
  bind_eq_ok_of_imp (fun _ => h.bytesAt) hread

theorem storedBindings (h : Prepared paths t t') {path? : Option String} {bindings : Bindings}
    (hread : t.storedBindings path? = .ok bindings) : t'.storedBindings path? = .ok bindings := by
  cases path? with
  | none => exact hread
  | some path => exact bind_eq_ok_of_imp (fun _ => h.textAt) hread

theorem options (h : Prepared paths t t') {settings : Settings} {bindings : Option String}
    {resources properties : List String} {debug : Bool} {o : Options}
    (hread : t.options settings bindings resources properties debug = .ok o) :
    t'.options settings bindings resources properties debug = .ok o :=
  bind_eq_ok_of_imp (fun _ => h.storedBindings) hread

end Prepared

/-! ### Making directories and writing a file -/

/-- The paths of the directories around a path. -/
def way (path : String) : List String :=
  match Path.parent? path.toList with
  | none => []
  | some directory => (Path.ancestors directory).map String.ofList

/-- A tree that differs from another in the file that a path leads to and in new directories on the
way to it. -/
def Produced (path : String) (content : List UInt8) (t t' : FileTree) : Prop :=
  ∃ place, t'.locate path = .ok place ∧ t'.look place = some (.file content) ∧
    t.look place ≠ some .directory ∧
      ∀ p, p ≠ place → t'.look p = t.look p ∨
        t.look p = none ∧ t'.look p = some .directory ∧
          ∃ directory ∈ way path, t'.locate directory = .ok p

theorem Prepared.produced {path : String} {content : List UInt8} {t t₁ t' : FileTree}
    (hprepared : Prepared (way path) t t₁) (hwritten : Written path content t₁ t') :
    Produced path content t t' := by
  obtain ⟨place, hlocate, hreplaces⟩ := hwritten
  refine ⟨place, hlocate, ?_, ?_, ?_⟩
  · rw [hreplaces.look, if_pos rfl]
  · intro hold
    exact hreplaces.old (hprepared.grows.directory place hold)
  · intro p hp
    rw [hreplaces.look, if_neg hp]
    refine (hprepared.look p).imp_right ?_
    rintro ⟨hnone, hnew, directory, hdirectory, hlocate⟩
    exact ⟨hnone, hnew, directory, hdirectory, hreplaces.grows.locate hlocate⟩

end FileTree

namespace FileAction

/-- However preparing ends, nothing but directories on the way is new. -/
theorem prepared_preparing (path : String) (t : FileTree) :
    FileTree.Prepared (FileTree.way path) t (preparing path t).2 := by
  unfold preparing FileTree.way
  cases Path.parent? path.toList with
  | none => exact .refl [] t
  | some directory =>
      by_cases hempty : directory.isEmpty = true
      · simp only [hempty, if_true]
        exact .refl _ t
      · simp only [hempty]
        have hmade := t.prepared_makeDirectories (String.ofList directory)
        rw [String.toList_ofList] at hmade
        exact hmade

end FileAction

namespace Program

open FileTree FileAction

/-! ### What a run may do

`Accomplishes` is for runs that end well and `Leaves` for those that fail.  Both speak of trees
only, so nothing later has to look at the steps of a run again. -/

/-- A source was compiled.  The options and the source are read in the tree `t₁` with the new
directories, where a path can lead further than it did at the beginning, but not elsewhere. -/
structure Compiled (settings : Settings) (a : CompileArguments) (t t₁ t' : FileTree)
    (options : Options) (source : String) (result : Output) : Prop where
  prepared : Prepared (way (outputPath settings a.input a.output)) t t₁
  options_eq : t₁.options settings a.bindings a.resources a.properties a.debug = .ok options
  source_eq : t₁.textAt .input a.input = .ok source
  /-- Options that could be read at the beginning are the same. -/
  options_old : ∀ o, t.options settings a.bindings a.resources a.properties a.debug =
    .ok o → o = options
  /-- A source that could be read at the beginning is the same. -/
  source_old : ∀ s, t.textAt .input a.input = .ok s → s = source
  result_eq : compileSource options source = .ok result
  written : Written (outputPath settings a.input a.output) result.bytes t₁ t'
  produced : Produced (outputPath settings a.input a.output) result.bytes t t'

theorem compiled_of_written {settings : Settings} {a : CompileArguments} {t t₁ t' : FileTree}
    {options : Options} {source : String} {result : Output}
    (hprepared : Prepared (way (outputPath settings a.input a.output)) t t₁)
    (hoptions : t₁.options settings a.bindings a.resources a.properties a.debug = .ok options)
    (hsource : t₁.textAt .input a.input = .ok source)
    (hresult : compileSource options source = .ok result)
    (hwritten : Written (outputPath settings a.input a.output) result.bytes t₁ t') :
    Compiled settings a t t₁ t' options source result where
  prepared := hprepared
  options_eq := hoptions
  source_eq := hsource
  options_old _ ho := Except.ok.inj ((hprepared.options ho).symm.trans hoptions)
  source_old _ hs := Except.ok.inj ((hprepared.textAt hs).symm.trans hsource)
  result_eq := hresult
  written := hwritten
  produced := hprepared.produced hwritten

/-- What a run does that ends well. -/
def Accomplishes (i : Invocation) (t t' : FileTree) : Prop :=
  match i.command with
  | some (.compile a) =>
    ∃ settings t₁ options source result, t.settings i.config = .ok settings ∧
      Compiled settings a t t₁ t' options source result
  | some (.dump a) =>
    match a.output with
    | none => t' = t
    | some path =>
      ∃ bytes text, t.bytesAt .input a.input = .ok bytes ∧ dumpedText bytes a.format = .ok text ∧
        Written path (Text.Utf8.encode text.toList) t t'
  | _ => t' = t

/-- What a run may do that fails. -/
def Leaves (i : Invocation) (t t' : FileTree) : Prop :=
  match i.command with
  | some (.compile a) =>
    t' = t ∨ ∃ settings, t.settings i.config = .ok settings ∧
      Prepared (way (outputPath settings a.input a.output)) t t'
  | _ => t' = t

/-- A run that fails leaves every file as it was and makes no new one. -/
theorem Leaves.file_iff {i : Invocation} {t t' : FileTree} (h : Leaves i t t') (place : List String)
    (content : List UInt8) :
    t'.look place = some (.file content) ↔ t.look place = some (.file content) := by
  unfold Leaves at h
  split at h
  · rcases h with rfl | ⟨settings, -, hprepared⟩
    · exact Iff.rfl
    · exact hprepared.file_iff place content
  · rw [h]

theorem leaves_refl (i : Invocation) (t : FileTree) : Leaves i t t := by
  unfold Leaves
  split
  · exact .inl rfl
  · rfl

/-- All but compiling and writing a dump end well with the files as they were. -/
theorem accomplishes_refl {i : Invocation} (hcompile : ∀ a, i.command ≠ some (.compile a))
    (hdump : ∀ a, i.command = some (.dump a) → a.output = none) (t : FileTree) :
    Accomplishes i t t := by
  unfold Accomplishes
  split
  · rename_i a hcommand
    exact absurd hcommand (hcompile a)
  · rename_i a hcommand
    rw [hdump a hcommand]
  · rfl

/-- How a run ended decides what it may have done. -/
def Accounts (i : Invocation) (t : FileTree) (r : Except Error Unit × FileTree) : Prop :=
  match r with
  | (.ok _, t') => Accomplishes i t t'
  | (.error _, t') => Leaves i t t'

theorem accounts_compile {i : Invocation} {a : CompileArguments} {settings : Settings}
    {t : FileTree} (hcommand : i.command = some (.compile a))
    (hsettings : t.settings i.config = .ok settings) :
    Accounts i t (commanding settings (.compile a) t) := by
  have hprepared := prepared_preparing (outputPath settings a.input a.output) t
  have hleaves : ∀ t₁, Prepared (way (outputPath settings a.input a.output)) t t₁ →
      Leaves i t t₁ := by
    intro t₁ ht₁
    unfold Leaves
    rw [hcommand]
    exact .inr ⟨settings, hsettings, ht₁⟩
  unfold commanding
  dsimp only
  rw [FileAction.bind_apply]
  rcases hprepare : preparing (outputPath settings a.input a.output) t with ⟨e | u, t₁⟩ <;>
    rw [hprepare] at hprepared
  · exact hleaves t₁ hprepared
  · dsimp only
    rw [reading_bind]
    cases hoptions : t₁.options settings a.bindings a.resources a.properties a.debug with
    | error e => exact hleaves t₁ hprepared
    | ok options =>
        dsimp only
        rw [FileAction.bind_apply]
        rcases compiling_cases options a.input (outputPath settings a.input a.output) t₁ with
          ⟨e, he⟩ | ⟨source, result, t', hsource, hresult, hwrite, hok⟩
        · rw [he]
          exact hleaves t₁ hprepared
        · rw [hok]
          show Accomplishes i t t'
          unfold Accomplishes
          rw [hcommand]
          refine ⟨settings, t₁, options, source, result, hsettings, ?_⟩
          exact compiled_of_written hprepared hoptions hsource hresult (written_of_writeFile hwrite)

theorem accounts_dump {i : Invocation} {a : DumpArguments} (hcommand : i.command = some (.dump a))
    (t : FileTree) : Accounts i t (dumping a t) := by
  unfold dumping
  rw [reading_bind]
  cases hbytes : t.bytesAt .input a.input with
  | error e => exact leaves_refl i t
  | ok bytes =>
      dsimp only
      rw [reading_bind]
      cases htext : dumpedText bytes a.format with
      | error e => exact leaves_refl i t
      | ok text =>
          cases houtput : a.output with
          | none => exact accomplishes_refl (by simp [hcommand]) (by simp [hcommand, houtput]) t
          | some path =>
              dsimp only
              rw [writing]
              cases hwrite : t.writeFile path (Text.Utf8.encode text.toList) with
              | error fault => exact leaves_refl i t
              | ok t' =>
                  show Accomplishes i t t'
                  unfold Accomplishes
                  rw [hcommand]
                  simp only [houtput]
                  exact ⟨bytes, text, hbytes, htext, written_of_writeFile hwrite⟩

theorem accounts_performing (i : Invocation) (t : FileTree) : Accounts i t (performing i t) := by
  unfold performing
  rw [reading_bind]
  cases hsettings : t.settings i.config with
  | error e => exact leaves_refl i t
  | ok settings =>
      dsimp only
      cases hcommand : i.command with
      | none => exact accomplishes_refl (by simp [hcommand]) (by simp [hcommand]) t
      | some command =>
          cases command with
          | compile a => exact accounts_compile hcommand hsettings
          | dump a => exact accounts_dump hcommand t
          | symbols format => exact accomplishes_refl (by simp [hcommand]) (by simp [hcommand]) t
          | check a =>
              show Accounts i t (t.checked settings a, t)
              cases t.checked settings a with
              | error e => exact leaves_refl i t
              | ok u => exact accomplishes_refl (by simp [hcommand]) (by simp [hcommand]) t

/-! ### Whole runs

A run is an action from a fresh session, and a message at its end if the action failed. -/

/-- The exit status of a run, and the world after it. -/
def runIn (arguments : List String) (w : World) : UInt32 × World :=
  (run arguments : StateM World UInt32) w

theorem runIn_of_error {arguments : List String} {stop : UsageStop}
    (h : Arguments.read arguments = .error stop) (w : World) :
    (runIn arguments w).2.files = w.files := by
  unfold runIn run
  rw [h]
  cases stop <;> rfl

/-- A run does what its arguments ask for, and tells the error if there is one. -/
theorem runIn_eq {arguments : List String} {i : Invocation}
    (h : Arguments.read arguments = .ok i) (w : World) :
    runIn arguments w =
      match (perform i : Action (StateM World) Unit) (Session.start i.verbosity) w with
      | ((.ok _, _), w') => (0, w')
      | ((.error e, _), w') => (1, { w' with err := w'.err ++ s!"❌ {e.message}\n" }) := by
  unfold runIn run
  rw [h]
  dsimp only [bind, StateT.bind]
  rcases (perform i : Action (StateM World) Unit) (Session.start i.verbosity) w with
    ⟨⟨e | u, s⟩, w'⟩ <;> rfl

/-- A run ends with status zero or one, as `performing` ends well or fails, and leaves the same
files. -/
theorem runIn_of_ok {arguments : List String} {i : Invocation}
    (h : Arguments.read arguments = .ok i)
    (hwatch : ∀ a, i.command = some (.compile a) → a.watch = false) (w : World) :
    performing i w.files = (.ok (), (runIn arguments w).2.files) ∧ (runIn arguments w).1 = 0 ∨
      ∃ e, performing i w.files = (.error e, (runIn arguments w).2.files) ∧
        (runIn arguments w).1 = 1 := by
  have hdoes := (does_perform i hwatch).files (Session.start i.verbosity) w
  rw [runIn_eq h, hdoes]
  rcases (perform i : Action (StateM World) Unit) (Session.start i.verbosity) w with
    ⟨⟨e | u, s⟩, w'⟩
  · exact .inr ⟨e, rfl, rfl⟩
  · exact .inl ⟨rfl, rfl⟩

/-- **A run that fails changes no file, and one that ends well only the file it was asked for.**
New directories can be there in both cases, but only on the way to the output of a compilation. -/
theorem runIn_files (arguments : List String) (w : World)
    (hwatch : ∀ i a, Arguments.read arguments = .ok i → i.command = some (.compile a) →
      a.watch = false) :
    let status := (runIn arguments w).1
    let t := w.files
    let t' := (runIn arguments w).2.files
    (status ≠ 0 → ∀ place content,
        t'.look place = some (.file content) ↔ t.look place = some (.file content)) ∧
      match Arguments.read arguments with
      | .error _ => t' = t
      | .ok i => if status = 0 then Accomplishes i t t' else Leaves i t t' := by
  intro status t t'
  cases hread : Arguments.read arguments with
  | error stop =>
      have hfiles : t' = t := runIn_of_error hread w
      refine ⟨fun _ place content => ?_, hfiles⟩
      rw [hfiles]
  | ok i =>
      have haccounts := accounts_performing i t
      rcases runIn_of_ok hread (fun a => hwatch i a hread) w with
        ⟨hdone, hzero⟩ | ⟨e, hfailed, hone⟩
      · rw [hdone] at haccounts
        refine ⟨fun hne => absurd hzero hne, ?_⟩
        simp only [show status = 0 from hzero, if_true]
        exact haccounts
      · rw [hfailed] at haccounts
        have hne : status ≠ 0 := by simp [show status = 1 from hone]
        refine ⟨fun _ => Leaves.file_iff haccounts, ?_⟩
        simp only [hne, if_false]
        exact haccounts

/-- A world with a source that can be compiled and one that cannot. -/
def twoSources : World :=
  .start ⟨.directory
    [("panel.layout", .file (Text.Utf8.encode "Panel \x7b margin: 4; \x7d".toList)),
     ("broken.layout", .file (Text.Utf8.encode "Panel \x7b margin: 4 \x7d".toList))], []⟩ "0"

/-- The arguments that compile a source to a file in a directory of its own. -/
def compileToOut (input : String) : List String := ["compile", input, "-o", "out/panel.bin"]

/-- Both sources need a new directory for their output: it is made for both, but only one gets a
file. -/
theorem runIn_files_twoSources :
    let t := twoSources.files
    let done := runIn (compileToOut "panel.layout") twoSources
    let failed := runIn (compileToOut "broken.layout") twoSources
    (done.1 = 0 ∧ done.2.files.look ["out", "panel.bin"] = some (.file [17, 3, 4, 4, 4, 4, 0, 0]) ∧
        ∃ i, Arguments.read (compileToOut "panel.layout") = .ok i ∧ Accomplishes i t done.2.files) ∧
      failed.1 = 1 ∧ failed.2.files.look ["out"] = some .directory ∧
        ∀ place content,
          failed.2.files.look place = some (.file content) ↔
            t.look place = some (.file content) := by
  intro t done failed
  have hreadDone : Arguments.read (compileToOut "panel.layout") = .ok ⟨none, 0, some (.compile
      ⟨"panel.layout", some "out/panel.bin", none, [], [], false, false, false, false⟩)⟩ := by rfl
  have hreadFailed : Arguments.read (compileToOut "broken.layout") = .ok ⟨none, 0, some (.compile
      ⟨"broken.layout", some "out/panel.bin", none, [], [], false, false, false, false⟩)⟩ := by rfl
  have hzero : done.1 = 0 := by decide +kernel
  have hone : failed.1 = 1 := by decide +kernel
  have hwatch : ∀ arguments c, Arguments.read arguments = .ok ⟨none, 0, some (.compile c)⟩ →
      c.watch = false →
      ∀ i a, Arguments.read arguments = .ok i → i.command = some (.compile a) →
      a.watch = false := by
    intro arguments c hread hc i a hi ha
    cases hread.symm.trans hi
    cases ha
    exact hc
  obtain ⟨-, hdone⟩ :=
    runIn_files (compileToOut "panel.layout") twoSources (hwatch _ _ hreadDone rfl)
  obtain ⟨hfailed, -⟩ :=
    runIn_files (compileToOut "broken.layout") twoSources (hwatch _ _ hreadFailed rfl)
  simp only [hreadDone, show (runIn (compileToOut "panel.layout") twoSources).1 = 0 from hzero,
    if_true] at hdone
  refine ⟨⟨hzero, by decide +kernel, _, hreadDone, hdone⟩, hone, by decide +kernel, hfailed ?_⟩
  rw [show (runIn (compileToOut "broken.layout") twoSources).1 = 1 from hone]
  decide

end Program

end WidgetLayout
