/-
Checking a source foretells how compiling it ends.

Both read the same settings and bindings and compile the same text; they differ in what they print,
in options that only decide what is told, and in the file that compiling writes at its end.  If that
file can be written, compiling ends as checking does, with the same error if there is one.

What the error leaves on the stream for errors is its message, after what was told of the work.
`Discreet` says of an action that it adds to the stream only, and nothing at all unless telling was
asked for.
-/
import WidgetLayout.Proofs.Commands
import WidgetLayout.Proofs.WritablePaths

namespace WidgetLayout

/-! ### Compiling where the output can be written

A compilation reads what a check reads.  Only its writing comes on top, and that cannot fail here.
-/

namespace FileTree

theorem options_debug (t : FileTree) (settings : Settings) (bindings : Option String)
    (resources properties : List String) (debug debug' : Bool) :
    t.options settings bindings resources properties debug' =
      (t.options settings bindings resources properties debug).map fun o =>
        { o with debug := debug' } := by
  unfold options
  cases t.storedBindings (bindings.orElse fun _ => settings.bindings) with
  | error e => rfl
  | ok stored =>
      cases BindingTable.defineAll .empty resources with
      | error e => rfl
      | ok resources => cases BindingTable.defineAll .empty properties <;> rfl

/-- Checking one source ends as compiling it, without its bytes. -/
theorem checked_eq (t : FileTree) (settings : Settings) {a : CheckArguments}
    (h : (a.recursive && t.isDirectory a.input) = false) :
    t.checked settings a = do
      let options ← t.options settings a.bindings [] [] a.debug
      let _ ← t.compiled options a.input
      return () := by
  unfold checked
  rw [h]
  cases t.options settings a.bindings [] [] a.debug with
  | error e => rfl
  | ok options =>
      show failing (t.problem options a.input) = t.compiled options a.input >>= fun _ => pure ()
      unfold problem
      cases t.compiled options a.input <;> rfl

end FileTree

namespace FileAction

/-- If the output can be written, compiling ends as the source does. -/
theorem compiling_of_writable {t : FileTree} {options : Options} {input output : String}
    (h : t.Writable output) : (compiling options input output t).1 = t.compiled options input := by
  unfold compiling FileTree.compiled
  rw [reading_bind]
  cases t.textAt .input input with
  | error e => rfl
  | ok source =>
      dsimp only
      rw [reading_bind]
      show _ = compileSource options source
      cases compileSource options source with
      | error e => rfl
      | ok result =>
          obtain ⟨t', ht'⟩ := (FileTree.writable_iff_writeFile result.bytes).mp h
          dsimp only
          rw [bind_apply, writing, ht']
          rfl

/-- Compiling a source to a file that can be written ends as checking the source does. -/
theorem commanding_compile {t : FileTree} {settings : Settings} {a : CheckArguments}
    {b : CompileArguments} {output : String} (hinput : b.input = a.input)
    (hbindings : b.bindings = a.bindings) (hresources : b.resources = [])
    (hproperties : b.properties = []) (houtput : b.output = some output)
    (hwritable : t.Writable output) (hrecursive : (a.recursive && t.isDirectory a.input) = false) :
    (commanding settings (.compile b) t).1 = t.checked settings a := by
  have hpath : Program.outputPath settings b.input b.output = output := by rw [houtput]; rfl
  rw [t.checked_eq settings hrecursive]
  unfold commanding
  dsimp only
  rw [hpath, bind_apply, FileTree.preparing_of_writable hwritable]
  dsimp only
  rw [reading_bind, hinput, hbindings, hresources, hproperties,
    t.options_debug settings a.bindings [] [] a.debug b.debug]
  cases t.options settings a.bindings [] [] a.debug with
  | error e => rfl
  | ok options =>
      -- whether phases are told is no part of what a source is compiled with
      have hcompiled : (compiling { options with debug := b.debug } a.input output t).1 =
          t.compiled options a.input := compiling_of_writable hwritable
      show ((compiling { options with debug := b.debug } a.input output >>= fun _ => pure ()) t).1 =
        t.compiled options a.input >>= fun _ => pure ()
      rw [bind_apply, ← hcompiled]
      rcases compiling { options with debug := b.debug } a.input output t with
        ⟨e | result, t'⟩ <;> rfl

theorem performing_check (config : Option String) (verbosity : Nat) (a : CheckArguments)
    (t : FileTree) :
    performing ⟨config, verbosity, some (.check a)⟩ t =
      (t.settings config >>= fun settings => t.checked settings a, t) := by
  unfold performing
  rw [reading_bind]
  cases t.settings config <;> rfl

theorem performing_compile (config : Option String) (verbosity : Nat) (b : CompileArguments)
    (t : FileTree) :
    (performing ⟨config, verbosity, some (.compile b)⟩ t).1 =
      t.settings config >>= fun settings => (commanding settings (.compile b) t).1 := by
  unfold performing
  rw [reading_bind]
  cases t.settings config <;> rfl

end FileAction

namespace Program

open FileAction

variable {α β : Type}

/-! ### Telling on demand only

Every action of the program adds to the stream for errors what it tells of its work, and it asks for
that what the session says.  So this holds of all that `Does` speaks of. -/

/-- Whatever else an action does, it adds to the stream for errors, but nothing unless telling was
asked for. -/
def Discreet (act : Action (StateM World) α) : Prop :=
  ∀ s w, (act s w).1.2.verbosity = s.verbosity ∧
    ∃ told, (act s w).2.err = w.err ++ told ∧ (s.verbosity = 0 → told = "")

theorem discreet_of_err {act : Action (StateM World) α}
    (h : ∀ s w, (act s w).1.2.verbosity = s.verbosity ∧ (act s w).2.err = w.err) :
    Discreet act := by
  intro s w
  obtain ⟨hverbosity, herr⟩ := h s w
  exact ⟨hverbosity, "", by rw [herr, String.append_empty], fun _ => rfl⟩

theorem discreet_log {level : Level} (hlevel : 0 < level.rank) (topic : Log.Topic)
    (message : String) : Discreet (log level topic message) := by
  intro s w
  rw [log_apply]
  refine ⟨rfl, ?_⟩
  by_cases hrank : level.rank ≤ s.verbosity
  · simp only [if_pos hrank]
    exact ⟨Log.line level topic message, rfl, fun hzero => by omega⟩
  · simp only [if_neg hrank]
    exact ⟨"", String.append_empty.symm, fun _ => rfl⟩

theorem Discreet.bind {act : Action (StateM World) α} {k : α → Action (StateM World) β}
    (h : Discreet act) (hk : ∀ a, Discreet (k a)) : Discreet (act >>= k) := by
  intro s w
  obtain ⟨hverbosity, told, htold, hnone⟩ := h s w
  rw [bind_apply]
  rcases hact : act s w with ⟨⟨e | a, s'⟩, w'⟩ <;> rw [hact] at hverbosity htold
  · exact ⟨hverbosity, told, htold, hnone⟩
  · obtain ⟨hverbosity', told', htold', hnone'⟩ := hk a s' w'
    refine ⟨hverbosity'.trans hverbosity, told ++ told', ?_, fun hzero => ?_⟩
    · rw [htold', htold, String.append_assoc]
    · rw [hnone hzero, hnone' (hverbosity.trans hzero)]
      rfl

/-- **All that an action prints on the stream for errors is told on demand.** -/
theorem Does.discreet {p : Prop} {act : Action (StateM World) α} {m : FileAction α}
    (h : Does p act m) : Discreet act := by
  induction h with
  | ofExcept x => exact discreet_of_err fun _ _ => ⟨rfl, rfl⟩
  | @onFiles _ act f h =>
      refine discreet_of_err fun s w => ⟨rfl, ?_⟩
      show (act w).2.err = w.err
      rw [h]
  | print hp text => exact discreet_of_err fun _ _ => ⟨rfl, rfl⟩
  | log hlevel topic message => exact discreet_log hlevel topic message
  | remember => exact discreet_of_err fun _ _ => ⟨rfl, rfl⟩
  | get _ ih => exact fun s w => ih s s w
  | elapsed _ ih => exact fun s w => ih w.clock s w
  | bind _ _ ih ihk => exact ih.bind ihk
  | attempt _ ih => exact ih

/-! ### Whole runs

The message of an error is printed last, behind all that was told. -/

/-- What a run that failed printed on the stream for errors: the message of an error, after what was
told of the work if that was asked for. -/
def Reports (verbosity : Nat) (e : Error) (w w' : World) : Prop :=
  ∃ told, w'.err = w.err ++ told ++ s!"❌ {e.message}\n" ∧ (verbosity = 0 → told = "")

/-- A run that fails ends with the message of its error. -/
theorem runIn_reports {arguments : List String} {i : Invocation}
    (h : Arguments.read arguments = .ok i)
    (hwatch : ∀ a, i.command = some (.compile a) → a.watch = false) (w : World) :
    match (performing i w.files).1 with
    | .ok _ => (runIn arguments w).1 = 0
    | .error e => (runIn arguments w).1 = 1 ∧ Reports i.verbosity e w (runIn arguments w).2 := by
  have hdoes := does_perform i hwatch
  obtain ⟨-, told, htold, hnone⟩ := hdoes.discreet (Session.start i.verbosity) w
  rw [runIn_eq h, hdoes.files (Session.start i.verbosity) w]
  rcases hperform : (perform i : Action (StateM World) Unit) (Session.start i.verbosity) w with
    ⟨⟨e | u, s⟩, w'⟩
  · rw [hperform] at htold
    exact ⟨rfl, told, by rw [← htold], hnone⟩
  · rfl

/-- **Checking a source foretells how compiling it ends, and changes no file.**  The two may be
asked to tell more or less of their work; they are given the same settings, the same bindings and
the same source, and the output can be written.  Then compiling fails exactly where checking does,
with the same message. -/
theorem runIn_check {checking : List String} {config bindings : Option String} {input : String}
    {verbosity : Nat} {recursive debug : Bool}
    (hchecking : Arguments.read checking =
      .ok ⟨config, verbosity, some (.check ⟨input, recursive, bindings, debug⟩)⟩) (w : World) :
    (runIn checking w).2.files = w.files ∧
      ∀ (compiling : List String) (output : String) (verbosity' : Nat) (debug' stats hex : Bool),
        Arguments.read compiling = .ok ⟨config, verbosity',
          some (.compile ⟨input, some output, bindings, [], [], debug', stats, hex, false⟩)⟩ →
        w.files.Writable output → (recursive && w.files.isDirectory input) = false →
        ((runIn checking w).1 = 0 ↔ (runIn compiling w).1 = 0) ∧
          ((runIn checking w).1 ≠ 0 → ∃ e, Reports verbosity e w (runIn checking w).2 ∧
            Reports verbosity' e w (runIn compiling w).2) := by
  have hcheck := runIn_reports hchecking (by simp) w
  constructor
  · rcases runIn_of_ok hchecking (by simp) w with ⟨hdone, -⟩ | ⟨e, hfailed, -⟩
    · rw [performing_check] at hdone
      exact (congrArg Prod.snd hdone).symm
    · rw [performing_check] at hfailed
      exact (congrArg Prod.snd hfailed).symm
  · intro compiling output verbosity' debug' stats hex hcompiling hwritable hrecursive
    have hcompile := runIn_reports hcompiling (by simp) w
    have hsame : ∀ settings, (commanding settings
        (.compile ⟨input, some output, bindings, [], [], debug', stats, hex, false⟩) w.files).1 =
          w.files.checked settings ⟨input, recursive, bindings, debug⟩ := fun settings =>
      commanding_compile rfl rfl rfl rfl rfl hwritable hrecursive
    rw [performing_check] at hcheck
    simp only [performing_compile, hsame] at hcompile
    cases hended : w.files.settings config >>= fun settings =>
        w.files.checked settings ⟨input, recursive, bindings, debug⟩ with
    | ok u =>
        simp only [hended] at hcheck hcompile
        exact ⟨by simp [hcheck, hcompile], fun hne => absurd hcheck hne⟩
    | error e =>
        simp only [hended] at hcheck hcompile
        exact ⟨by simp [hcheck.1, hcompile.1], fun _ => ⟨e, hcheck.2, hcompile.2⟩⟩

/-- Of two sources the one that cannot be compiled fails both ways. -/
theorem runIn_check_twoSources :
    let w := twoSources
    let done := runIn ["check", "panel.layout"] w
    let failed := runIn ["check", "broken.layout"] w
    (done.1 = 0 ∧ (runIn ["compile", "panel.layout", "-o", "panel.bin"] w).1 = 0 ∧
      done.2.files = w.files) ∧ failed.1 = 1 ∧ failed.2.files = w.files ∧
        ∃ e, Reports 0 e w failed.2 ∧
        Reports 0 e w (runIn ["compile", "broken.layout", "-o", "panel.bin"] w).2 := by
  intro w done failed
  have hwritable : w.files.Writable "panel.bin" :=
    ⟨[], "panel.bin",
      ⟨by decide, by decide, by decide, by decide, rfl, rfl⟩, by decide, by decide, by decide⟩
  have hzero : done.1 = 0 := by decide +kernel
  have hone : failed.1 = 1 := by decide +kernel
  obtain ⟨hfiles, hdone⟩ := runIn_check (rfl : Arguments.read ["check", "panel.layout"] =
    .ok ⟨none, 0, some (.check ⟨"panel.layout", false, none, false⟩)⟩) w
  obtain ⟨hfiles', hfailed⟩ := runIn_check (rfl : Arguments.read ["check", "broken.layout"] =
    .ok ⟨none, 0, some (.check ⟨"broken.layout", false, none, false⟩)⟩) w
  obtain ⟨hstatus, -⟩ :=
    hdone ["compile", "panel.layout", "-o", "panel.bin"] "panel.bin" 0 false false false rfl
    hwritable rfl
  obtain ⟨-, hmessage⟩ :=
    hfailed ["compile", "broken.layout", "-o", "panel.bin"] "panel.bin" 0 false false false rfl
    hwritable rfl
  refine ⟨⟨hzero, hstatus.mp hzero, hfiles⟩, hone, hfiles', hmessage ?_⟩
  rw [show (runIn ["check", "broken.layout"] w).1 = 1 from hone]
  decide

end Program

end WidgetLayout
