/-
What the actions of the program do to files.

An action also prints, looks at the clock and remembers what it told, but none of that reaches the
files or decides how the action ends.  So each action does what a simpler one does, which sees the
files only; most see them without changing them, and are then given by a function of the tree.

`Does` relates the two.  It has a case for each primitive action and for each way to put actions
together, and this module goes through the actions of the program once.  What all of them have in
common is then proved by induction on `Does`, and not once for every action: that an action ends as
the simpler one does and leaves the same files (`Does.files`), that it tells of its work on demand
only (`Proofs/Checking.lean`), and that nothing else is printed where nothing is said
(`Proofs/SourceFiles.lean`).
-/
import WidgetLayout.Program
import WidgetLayout.Proofs.Places

namespace WidgetLayout

/-! ### What is read from a tree

These functions give of a tree what the reading actions of the program give of a host. -/

/-- Fails with what was found to be wrong, if anything was. -/
def failing : Option Error → Except Error Unit
  | none => .ok ()
  | some e => .error e

/-- What is wrong where some of several sources have a problem. -/
def problemOfCount (failed : Nat) : Option Error :=
  if 0 < failed then some (.invalidFormat (.failedChecks failed)) else none

namespace FileTree

/-- The bytes of the file at a path. -/
def bytesAt (t : FileTree) (role : FileRole) (path : String) : Except Error (List UInt8) :=
  (t.readFile path).mapError (.unreadableFile role path)

/-- The text of the file at a path. -/
def textAt (t : FileTree) (role : FileRole) (path : String) : Except Error String := do
  let bytes ← t.bytesAt role path
  match Text.Utf8.decode bytes with
  | .ok cs => .ok (String.ofList cs)
  | .error _ => .error (.unreadableFile role path .notText)

/-- The bindings in the file at a path. -/
def bindingsAt (t : FileTree) (path : String) : Except Error Bindings := do
  let text ← t.textAt .bindings path
  if Path.extension? path = some "json" then Bindings.parse .json text
  else if Path.extension? path = some "toml" then Bindings.parse .toml text
  else .error (.invalidFormat .bindingsKind)

/-- What writing a file gives, and the tree after it. -/
def written (t : FileTree) (path : String) (content : List UInt8) :
    Except FileFault Unit × FileTree :=
  match t.writeFile path content with
  | .error fault => (.error fault, t)
  | .ok t' => (.ok (), t')

/-- The bindings of a file, if there is one. -/
def storedBindings (t : FileTree) : Option String → Except Error Bindings
  | none => .ok .empty
  | some path => t.bindingsAt path

/-- The settings in the file at a path. -/
def settingsAt (t : FileTree) (path : String) : Except Error Settings := do
  let text ← t.textAt .config path
  if Program.endsWith path ".json" then Settings.parse .json text
  else if Program.endsWith path ".toml" then Settings.parse .toml text
  else .error (.invalidFormat .configKind)

/-- The settings of a run: those of the file that it names, if it names one. -/
def settings (t : FileTree) : Option String → Except Error Settings
  | none => .ok .empty
  | some path => t.settingsAt path

/-- What a source is compiled with: bindings from the file that the command line or else the
settings name, with the definitions of the command line over them, and limits from the settings. -/
def options (t : FileTree) (settings : Settings) (bindings : Option String)
    (resources properties : List String) (debug : Bool) : Except Error Options := do
  let stored ← t.storedBindings (bindings.orElse fun _ => settings.bindings)
  let resources ← BindingTable.defineAll .empty resources
  let properties ← BindingTable.defineAll .empty properties
  return {
    bindings := stored.merge ⟨resources, properties⟩
    debug := debug
    maxDepth := settings.maxDepth.getD Options.default.maxDepth
    maxSourceSize := settings.maxSourceSize.getD Options.default.maxSourceSize }

/-- What the source at a path is compiled to. -/
def compiled (t : FileTree) (options : Options) (path : String) : Except Error Output := do
  let source ← t.textAt .input path
  compileSource options source

/-- What is wrong with the source at a path. -/
def problem (t : FileTree) (options : Options) (path : String) : Option Error :=
  match t.compiled options path with
  | .ok _ => none
  | .error e => some e

/-- What is wrong with the sources below a directory. -/
def problemBelow (t : FileTree) (options : Options) (directory : String) : Option Error :=
  let sources :=
    (t.filesBelow directory).filter fun path => Path.extension? path = some Program.sourceExtension
  problemOfCount (sources.countP fun path => (t.problem options path).isSome)

/-- How checking ends: with what is wrong, if anything is. -/
def checked (t : FileTree) (settings : Settings) (a : CheckArguments) : Except Error Unit := do
  let options ← t.options settings a.bindings [] [] a.debug
  if a.recursive && t.isDirectory a.input then failing (t.problemBelow options a.input)
  else failing (t.problem options a.input)

end FileTree

/-- The text that shows what compiled bytes stand for. -/
def dumpedText (bytes : List UInt8) : DumpFormat → Except Error String
  | .hex => return HexListing.render bytes
  | .text => do
    let tree ← Decode.decode .shipped bytes
    return tree.listing .shipped
  | .json => do
    let tree ← Decode.decode .shipped bytes
    return tree.json.pretty ++ "\n"

/-! ### Actions on files alone

What writes is an action again, on a tree and nothing else.  Reading is a part of it, since what
is read can depend on what was made before. -/

/-- An action on files alone, which may fail. -/
abbrev FileAction := ExceptT Error (StateM FileTree)

namespace FileAction

variable {α β : Type}

/-- Reads from the tree and leaves it as it is. -/
def reading (read : FileTree → Except Error α) : FileAction α := fun t => (read t, t)

/-- Writes a file. -/
def writing (path : String) (content : List UInt8) : FileAction Unit := fun t =>
  match t.writeFile path content with
  | .ok t' => (.ok (), t')
  | .error fault => (.error (.output (.file fault)), t)

/-- Makes a directory and those on the way to it. -/
def making (path : String) : FileAction Unit := fun t =>
  let (result, t') := t.makeDirectories path
  (result.mapError (.output <| .file ·), t')

/-- Makes the directories around a path. -/
def preparing (path : String) : FileAction Unit :=
  match Path.parent? path.toList with
  | none => pure ()
  | some directory => if directory.isEmpty then pure () else making (String.ofList directory)

/-- Compiles a source and writes its bytes to a file. -/
def compiling (options : Options) (input output : String) : FileAction Output := do
  let source ← reading (·.textAt .input input)
  let result ← reading fun _ => compileSource options source
  writing output result.bytes
  return result

/-- Writes the text that shows what a compiled file holds, if it goes to a file. -/
def dumping (a : DumpArguments) : FileAction Unit := do
  let bytes ← reading (·.bytesAt .input a.input)
  let text ← reading fun _ => dumpedText bytes a.format
  match a.output with
  | none => pure ()
  | some path => writing path (Text.Utf8.encode text.toList)

/-- Does what a command asks for, without watching. -/
def commanding (settings : Settings) : Command → FileAction Unit
  | .compile a => do
    let output := Program.outputPath settings a.input a.output
    preparing output
    let options ← reading (·.options settings a.bindings a.resources a.properties a.debug)
    let _ ← compiling options a.input output
    return ()
  | .check a => reading (·.checked settings a)
  | .dump a => dumping a
  | .symbols _ => return ()

/-- Does what a command line asks for, without watching. -/
def performing (i : Invocation) : FileAction Unit := do
  let settings ← reading (·.settings i.config)
  match i.command with
  | some command => commanding settings command
  | none => return ()

theorem bind_apply (m : FileAction α) (n : α → FileAction β) (t : FileTree) :
    (m >>= n) t =
      match m t with
      | (.ok a, t') => n a t'
      | (.error e, t') => (.error e, t') := by
  show ExceptT.bindCont n (m t).1 (m t).2 = _
  rcases m t with ⟨_ | _, _⟩ <;> rfl

theorem reading_bind (read : FileTree → Except Error α) (n : α → FileAction β) (t : FileTree) :
    (reading read >>= n) t =
      match read t with
      | .ok a => n a t
      | .error e => (.error e, t) := by
  rw [bind_apply, reading]
  cases read t <;> rfl

/-- A source is compiled and its bytes are written, or nothing happens. -/
theorem compiling_cases (options : Options) (input output : String) (t : FileTree) :
    (∃ e, compiling options input output t = (.error e, t)) ∨
      ∃ source result t', t.textAt .input input = .ok source ∧
        compileSource options source = .ok result ∧
        t.writeFile output result.bytes = .ok t' ∧
        compiling options input output t = (.ok result, t') := by
  unfold compiling
  rw [reading_bind]
  cases hsource : t.textAt .input input with
  | error e => exact .inl ⟨e, rfl⟩
  | ok source =>
      dsimp only
      rw [reading_bind]
      cases hresult : compileSource options source with
      | error e => exact .inl ⟨e, rfl⟩
      | ok result =>
          dsimp only
          rw [bind_apply, writing]
          cases hwrite : t.writeFile output result.bytes with
          | error fault => exact .inl ⟨_, rfl⟩
          | ok t' => exact .inr ⟨source, result, t', rfl, hresult, hwrite, rfl⟩

end FileAction

/-! ### One relation for all actions

An action of the program is given beside what is left of it, so that an induction on `Does` has both
at hand.  Everything that an action does not say about files is forgotten in the second. -/

namespace Program

open FileAction

variable {α β : Type}

theorem bind_apply (act : Action (StateM World) α) (k : α → Action (StateM World) β)
    (s : Session) (w : World) :
    (act >>= k) s w =
      match act s w with
      | ((.ok a, s'), w') => k a s' w'
      | ((.error e, s'), w') => ((.error e, s'), w') := by
  show ExceptT.bindCont k (act s w).1.1 (act s w).1.2 (act s w).2 = _
  rcases act s w with ⟨⟨_ | _, _⟩, _⟩ <;> rfl

theorem log_apply (level : Level) (topic : Log.Topic) (message : String) (s : Session) (w : World) :
    (log level topic message : Action (StateM World) Unit) s w =
      ((.ok (), s), if level.rank ≤ s.verbosity then
        { w with err := w.err ++ Log.line level topic message } else w) := by
  show (if level.rank ≤ s.verbosity then onHost (Host.printError (Log.line level topic message))
    else pure () : Action (StateM World) Unit) s w = _
  split <;> rfl

/-- An action of the program, and what is left of it where only files are seen.  It prints only if
`p`. -/
inductive Does (p : Prop) : {α : Type} → Action (StateM World) α → FileAction α → Prop
  /-- What is decided without the host is decided without the files. -/
  | ofExcept {α : Type} (x : Except Error α) : Does p (ExceptT.mk (pure x)) (reading fun _ => x)
  /-- What the host does with its files. -/
  | onFiles {α : Type} {act : StateM World α} {f : FileTree → α × FileTree}
      (h : ∀ w, act w = ((f w.files).1, { w with files := (f w.files).2 })) :
      Does p (onHost act) fun t => (.ok (f t).1, (f t).2)
  | print (hp : p) (text : String) : Does p (onHost (Host.print text)) (reading fun _ => .ok ())
  /-- Lines of the lowest rank are told always; the program tells none of them. -/
  | log {level : Level} (hlevel : 0 < level.rank) (topic : Log.Topic) (message : String) :
      Does p (log level topic message) (reading fun _ => .ok ())
  | remember : Does p (modify fun s => { s with indexed := true }) (reading fun _ => .ok ())
  /-- What was told before makes no difference. -/
  | get {α : Type} {k : Session → Action (StateM World) α} {m : FileAction α}
      (hk : ∀ s, Does p (k s) m) : Does p (get >>= k) m
  /-- What the clock shows makes no difference. -/
  | elapsed {α : Type} {k : String → Action (StateM World) α} {m : FileAction α}
      (hk : ∀ time, Does p (k time) m) : Does p (onHost Host.elapsed >>= k) m
  | bind {α β : Type} {act : Action (StateM World) α} {k : α → Action (StateM World) β}
      {m : FileAction α} {n : α → FileAction β} (h : Does p act m) (hk : ∀ a, Does p (k a) (n a)) :
      Does p (act >>= k) (m >>= n)
  | attempt {α : Type} {act : Action (StateM World) α} {read : FileTree → Except Error α}
      (h : Does p act (reading read)) : Does p (attempt act) (reading fun t => .ok (read t))

/-- An action ends as a function of the files says and leaves them as they are. -/
def Reads (p : Prop) (act : Action (StateM World) α) (read : FileTree → Except Error α) : Prop :=
  Does p act (reading read)

/-- An action ends well and leaves the files as they are. -/
def Tells (p : Prop) (act : Action (StateM World) Unit) : Prop := Reads p act fun _ => .ok ()

variable {p : Prop}

/-- **Whatever was told before, an action ends as its action on files does and leaves the same
files.** -/
theorem Does.files {act : Action (StateM World) α} {m : FileAction α}
    (h : Does p act m) (s : Session) (w : World) :
    m w.files = ((act s w).1.1, (act s w).2.files) := by
  induction h generalizing s w with
  | ofExcept x => rfl
  | @onFiles _ act f h =>
      show _ = (Except.ok (act w).1, (act w).2.files)
      rw [h]
  | print hp text => rfl
  | @log level hlevel topic message =>
      rw [log_apply]
      split <;> rfl
  | remember => rfl
  | get _ ih => exact ih s s w
  | elapsed _ ih => exact ih w.clock s w
  | @bind _ _ act k m n _ _ ih ihk =>
      rw [FileAction.bind_apply, bind_apply, ih s w]
      rcases act s w with ⟨⟨e | a, s'⟩, w'⟩
      · rfl
      · exact ihk a s' w'
  | attempt _ ih =>
      obtain ⟨hresult, hfiles⟩ := Prod.mk.inj (ih s w)
      exact Prod.ext (congrArg Except.ok hresult) hfiles

/-! ### Actions one after the other

Telling drops out of a sequence, so what is left of it is what is left of its other parts. -/

theorem Does.of_eq {act : Action (StateM World) α} {m m' : FileAction α} (h : Does p act m)
    (heq : ∀ t, m t = m' t) : Does p act m' := by
  obtain rfl : m = m' := funext heq
  exact h

theorem Reads.of_eq {act : Action (StateM World) α} {read read' : FileTree → Except Error α}
    (h : Reads p act read) (heq : ∀ t, read t = read' t) : Reads p act read' :=
  Does.of_eq h fun t => by rw [reading, reading, heq]

theorem Reads.bind {act : Action (StateM World) α} {k : α → Action (StateM World) β}
    {read : FileTree → Except Error α} {n : α → FileTree → Except Error β} (h : Reads p act read)
    (hk : ∀ a, Reads p (k a) (n a)) : Reads p (act >>= k) fun t => read t >>= fun a => n a t := by
  refine Does.of_eq (Does.bind h hk) fun t => ?_
  rw [reading_bind, reading]
  cases read t <;> rfl

/-- Telling something first makes no difference. -/
theorem Tells.before {act : Action (StateM World) Unit} {k : Unit → Action (StateM World) α}
    {m : FileAction α} (h : Tells p act) (hk : Does p (k ()) m) : Does p (act >>= k) m :=
  Does.of_eq (Does.bind h fun _ => hk) fun t => by rw [reading_bind]

/-- Telling something at the end makes no difference. -/
theorem Does.then {act : Action (StateM World) Unit} {k : Unit → Action (StateM World) Unit}
    {m : FileAction Unit} (h : Does p act m) (hk : Tells p (k ())) : Does p (act >>= k) m := by
  refine Does.of_eq (Does.bind h fun _ => hk) fun t => ?_
  rw [FileAction.bind_apply]
  rcases m t with ⟨e | ⟨⟩, t'⟩ <;> rfl

theorem reads_pure (a : α) : Reads p (pure a) fun _ => .ok a := Does.ofExcept (.ok a)

theorem reads_throw (e : Error) : Reads p (throw e : Action (StateM World) α) fun _ => .error e :=
  Does.ofExcept (.error e)

theorem reads_ofExcept (x : Except Error α) : Reads p (ExceptT.mk (pure x)) fun _ => x :=
  Does.ofExcept x

theorem reads_attempt {act : Action (StateM World) α} {read : FileTree → Except Error α}
    (h : Reads p act read) :
    Reads p (attempt act) fun t => .ok (read t) := Does.attempt h

/-- Telling something about the result at the end makes no difference. -/
theorem Reads.told {act : Action (StateM World) α} {k : α → Action (StateM World) Unit}
    {read : FileTree → Except Error α} (h : Reads p act read) (hk : ∀ a, Tells p (k a)) :
    Reads p (do let a ← act; k a; pure a) read := by
  refine Reads.of_eq (h.bind fun a => (hk a).before (reads_pure a)) fun t => ?_
  cases read t <;> rfl

theorem Reads.ite {act act' : Action (StateM World) α} {read read' : FileTree → Except Error α}
    (h : Reads p act read) (h' : Reads p act' read') (c : Prop) [Decidable c] :
    Reads p (if c then act else act') fun t => if c then read t else read' t := by
  by_cases hc : c
  · simp only [if_pos hc]
    exact h
  · simp only [if_neg hc]
    exact h'

/-- What the host looks up in its files. -/
theorem reads_onHost {act : StateM World α} {read : FileTree → α}
    (h : ∀ w, act w = (read w.files, w)) : Reads p (onHost act) fun t => .ok (read t) :=
  Does.onFiles (f := fun t => (read t, t)) h

/-! ### Telling -/

theorem tells_print (text : String) : Tells True (onHost (Host.print text)) :=
  Does.print trivial text

theorem tells_say (text : String) : Tells True (say text) := tells_print (text ++ "\n")

theorem Tells.ite {act act' : Action (StateM World) Unit} (h : Tells p act) (h' : Tells p act')
    (c : Prop) [Decidable c] : Tells p (if c then act else act') :=
  (Reads.ite h h' c).of_eq fun _ => ite_self _

theorem tells_log (level : Level) (hlevel : 0 < level.rank) (topic : Log.Topic) (message : String) :
    Tells p (log level topic message) := Does.log hlevel topic message

theorem tells_noteSchema : Tells p noteSchema := by
  refine Does.get fun s => ?_
  refine Tells.ite (reads_pure ()) ?_ (s.indexed = true)
  exact (tells_log _ (by decide) _ _).before Does.remember

theorem tells_tellEvents (events : List Event) : Tells p (tellEvents events) := by
  induction events with
  | nil => exact reads_pure ()
  | cons e es ih => exact (tells_log _ (by decide) _ _).before ih

theorem tells_tellPhase (options : Options) (message : String) :
    Tells p (tellPhase options message) :=
  (tells_log .info (by decide) .program message).ite (reads_pure ()) (options.debug = true)

theorem tells_sayStats (o : Output) (elapsed : String) : Tells True (sayStats o elapsed) := by
  unfold sayStats
  repeat' refine (tells_say _).before ?_
  exact tells_say _

/-! ### Reading -/

theorem reads_readFile (path : String) :
    Reads p (onHost (Host.readFile path)) fun t => .ok (t.readFile path) :=
  reads_onHost fun _ => rfl

theorem reads_readBytes (role : FileRole) (path : String) :
    Reads p (readBytes role path) (·.bytesAt role path) := by
  unfold readBytes
  refine (reads_readFile path).bind (n := fun result _ =>
    result.mapError (.unreadableFile role path)) ?_
  intro result
  cases result with
  | ok bytes => exact reads_pure bytes
  | error fault => exact reads_throw _

theorem reads_readText (role : FileRole) (path : String) :
    Reads p (readText role path) (·.textAt role path) := by
  refine (reads_readBytes role path).bind fun bytes => ?_
  cases Text.Utf8.decode bytes with
  | ok cs => exact reads_pure (String.ofList cs)
  | error fault => exact reads_throw _

theorem reads_loadBindings (path : String) : Reads p (loadBindings path) (·.bindingsAt path) := by
  refine (reads_readText .bindings path).bind fun text => ?_
  have htold := fun x => (reads_ofExcept (p := p) x).told fun bindings : Bindings =>
    tells_log .info (by decide) .bindings
    s!"Loaded {bindings.resources.size} resources and {bindings.properties.size} properties from {path}"
  dsimp only
  split
  · rename_i hextension
    exact (htold _).of_eq fun _ => by simp [hextension]
  · rename_i hextension
    exact (htold _).of_eq fun _ => by simp [hextension]
  · rename_i hjson htoml
    exact (htold (.error _)).of_eq fun _ => by rw [if_neg hjson, if_neg htoml]

theorem reads_loadSettings (path : String) : Reads p (loadSettings path) (·.settingsAt path) := by
  refine (reads_readText .config path).bind fun text => ?_
  have htold := fun x => (reads_ofExcept (p := p) x).told fun _ : Settings =>
    tells_log .info (by decide) .settings s!"Loaded configuration from {path}"
  dsimp only
  split
  · exact htold _
  · split
    · exact htold _
    · exact htold (.error _)

theorem reads_settingsOf (config : Option String) :
    Reads p (settingsOf config) (·.settings config) := by
  cases config with
  | none => exact reads_pure _
  | some path => exact reads_loadSettings path

theorem reads_fileBindings (path? : Option String) :
    Reads p (fileBindings path?) (·.storedBindings path?) := by
  cases path? with
  | none => exact reads_pure _
  | some path => exact reads_loadBindings path

theorem reads_buildOptions (settings : Settings) (bindings : Option String)
    (resources properties : List String) (debug : Bool) :
    Reads p (buildOptions settings bindings resources properties debug)
      (·.options settings bindings resources properties debug) :=
  (reads_fileBindings _).bind fun _ => (reads_ofExcept _).bind fun _ =>
    (reads_ofExcept _).bind fun _ => reads_pure _

/-! ### Compiling

Once the bytes are written nothing that follows can fail: showing them reads the file that is
there now. -/

theorem reads_compileText (options : Options) (source : String) :
    Reads p (compileText options source) fun _ => compileSource options source := by
  refine (reads_ofExcept _).bind fun _ => ?_
  refine (tells_log _ (by decide) _ _).before
    ((tells_log _ (by decide) _ _).before (tells_noteSchema.before ?_))
  refine (tells_tellEvents _).before ?_
  exact (reads_ofExcept _).told fun _ => tells_log _ (by decide) _ _

theorem does_orFail {act : StateM World (Except FileFault Unit)}
    {f : FileTree → Except FileFault Unit × FileTree} {m : FileAction Unit}
    (h : ∀ w, act w = ((f w.files).1, { w with files := (f w.files).2 }))
    (hm : ∀ t, m t = ((f t).1.mapError (.output <| .file ·), (f t).2)) :
    Does p (onHost act >>= orFail) m := by
  have hfail : ∀ result, Reads p (orFail result) fun _ => result.mapError (.output <| .file ·) := by
    intro result
    cases result with
    | ok u => exact reads_pure ()
    | error fault => exact reads_throw _
  refine Does.of_eq (Does.bind (Does.onFiles h) hfail) fun t => ?_
  rw [FileAction.bind_apply, hm]
  rfl

theorem writeFile_apply (path : String) (content : List UInt8) (w : World) :
    (Host.writeFile path content : StateM World (Except FileFault Unit)) w =
      ((w.files.written path content).1, { w with files := (w.files.written path content).2 }) := by
  show (match w.files.writeFile path content with
    | .error fault => pure (.error fault)
    | .ok files => do
      modify fun w => { w with files := files }
      return .ok () : StateM World (Except FileFault Unit)) w = _
  unfold FileTree.written
  cases w.files.writeFile path content <;> rfl

theorem does_writeBytes (path : String) (bytes : List UInt8) :
    Does p (writeBytes path bytes) (writing path bytes) := by
  refine does_orFail (f := (·.written path bytes)) (writeFile_apply path bytes) fun t => ?_
  rw [writing, FileTree.written]
  cases t.writeFile path bytes <;> rfl

theorem does_prepareOutput (output : String) :
    Does p (prepareOutput output) (preparing output) := by
  unfold prepareOutput preparing
  cases Path.parent? output.toList with
  | none => exact reads_pure ()
  | some directory =>
      by_cases hempty : directory.isEmpty = true
      · simp only [hempty, if_true]
        exact reads_pure ()
      · simp only [hempty]
        exact does_orFail (f := (·.makeDirectories (String.ofList directory)))
          (fun _ => rfl) fun _ => rfl

theorem does_compileFile (options : Options) (input output : String) :
    Does p (compileFile options input output) (compiling options input output) := by
  refine (tells_tellPhase _ _).before
    ((tells_tellPhase _ _).before ((tells_log _ (by decide) _ _).before ?_))
  refine Does.bind (reads_readText .input input) fun source => ?_
  refine Does.bind (reads_compileText options source) fun result => ?_
  refine Does.bind (does_writeBytes output result.bytes) fun _ => ?_
  refine Does.elapsed fun time => ?_
  refine (tells_tellPhase _ _).before ((tells_tellPhase _ _).before ?_)
  refine (tells_tellPhase _ _).before
    ((tells_tellPhase _ _).before ((tells_log _ (by decide) _ _).before ?_))
  exact reads_pure result

/-- The bytes that were written can be read, so showing them cannot fail. -/
theorem compiling_readFile {options : Options} {input output : String} {t t' : FileTree}
    {result : Output} (h : compiling options input output t = (.ok result, t')) :
    t'.readFile output = .ok result.bytes := by
  rcases compiling_cases options input output t with
    ⟨e, he⟩ | ⟨source, result', t'', -, -, hwrite, hok⟩
  · cases he.symm.trans h
  · cases hok.symm.trans h
    exact (FileTree.written_of_writeFile hwrite).readFile

/-- What comes after compiling may count on the bytes being there. -/
theorem Does.afterCompiling {act : Action (StateM World) Output}
    {k : Output → Action (StateM World) Unit} {options : Options} {input output : String}
    (read : FileTree → Except Error Unit) (h : Does p act (compiling options input output))
    (hk : ∀ result, Reads p (k result) read)
    (hread : ∀ t content, t.readFile output = .ok content → read t = .ok ()) :
    Does p (act >>= k) (do let _ ← compiling options input output; return ()) := by
  refine Does.of_eq (Does.bind h hk) fun t => ?_
  rw [FileAction.bind_apply, FileAction.bind_apply]
  rcases hcompiled : compiling options input output t with ⟨e | result, t'⟩
  · rfl
  · dsimp only
    rw [reading, hread t' _ (compiling_readFile hcompiled)]
    rfl

/-- Fails where the file at a path cannot be shown. -/
def shown (path : String) (t : FileTree) : Except Error Unit :=
  match t.readFile path with
  | .ok _ => .ok ()
  | .error fault => .error (.output (.file fault))

theorem reads_sayHex (path : String) : Reads True (sayHex path) (shown path) := by
  unfold sayHex
  refine (reads_readFile path).bind (n := fun result _ => match result with
    | .ok _ => .ok ()
    | .error fault => .error (.output (.file fault))) ?_
  intro result
  cases result with
  | ok bytes => exact tells_print _
  | error fault => exact reads_throw _

theorem does_compileOnce (a : CompileArguments) (options : Options) (output : String) :
    Does True (compileOnce a options output)
      (do let _ ← compiling options a.input output; return ()) := by
  unfold compileOnce
  refine (tells_say _).before ?_
  let read : FileTree → Except Error Unit :=
    fun t => if a.hex = true then shown output t else .ok ()
  have hhex : Reads True (if a.hex = true then sayHex output else pure ()) read :=
    (reads_sayHex output).ite (reads_pure ()) (a.hex = true)
  refine Does.afterCompiling read (does_compileFile options a.input output) (fun result => ?_) ?_
  · refine Does.elapsed fun time => ?_
    refine (tells_say _).before ((tells_say _).before ((tells_say _).before ?_))
    dsimp only
    split
    · exact (tells_sayStats result time).before hhex
    · exact hhex
  · intro t content hcontent
    simp [read, shown, hcontent]

/-! ### Checking -/

theorem reads_checkFile (options : Options) (path : String) :
    Reads p (checkFile options path) (·.compiled options path) :=
  (reads_readText .input path).bind fun source => reads_compileText options source

theorem reads_checkSource (options : Options) (path : String) :
    Reads True (checkSource options path) fun t => .ok (t.problem options path) := by
  unfold checkSource
  refine (tells_say _).before ?_
  refine Reads.of_eq ((reads_attempt (reads_checkFile options path)).bind
    (n := fun result _ => .ok (match result with | .ok _ => none | .error e => some e)) ?_)
    fun t => rfl
  intro result
  cases result with
  | ok output => exact (tells_say _).before (reads_pure none)
  | error e => exact (tells_say _).before (reads_pure (some e))

theorem reads_checkSources (options : Options) (paths : List String) :
    Reads True (checkSources options paths) fun t =>
      .ok (paths.countP fun path => (t.problem options path).isSome) := by
  induction paths with
  | nil => exact reads_pure 0
  | cons path paths ih =>
      unfold checkSources
      refine Reads.of_eq ((reads_checkSource options path).bind fun error => ih.bind fun failed =>
        reads_pure _) ?_
      intro t
      show Except.ok _ = Except.ok _
      rw [List.countP_cons, Nat.add_comm]

theorem reads_checkDirectory (options : Options) (directory : String) :
    Reads True (checkDirectory options directory) fun t =>
      failing (t.problemBelow options directory) := by
  unfold checkDirectory
  have hpaths :
      Reads True (onHost (Host.filesBelow directory)) fun t => .ok (t.filesBelow directory) :=
    reads_onHost fun _ => rfl
  have hend : ∀ failed : Nat, Reads True
      (if 0 < failed then throw (.invalidFormat (.failedChecks failed)) else pure ())
      fun _ => failing (problemOfCount failed) := by
    intro failed
    unfold problemOfCount
    split
    · exact reads_throw _
    · exact reads_pure ()
  refine hpaths.bind fun paths => (reads_checkSources options _).bind
    (n := fun failed _ => failing (problemOfCount failed)) fun failed => ?_
  refine (tells_say _).before ((tells_say _).before ((tells_say _).before ?_))
  dsimp only
  split
  · exact (tells_say _).before (hend failed)
  · exact hend failed

theorem reads_check (settings : Settings) (a : CheckArguments) :
    Reads True (check settings a) (·.checked settings a) := by
  unfold check
  have hdirectory :
      Reads True (onHost (Host.isDirectory a.input)) fun t => .ok (t.isDirectory a.input) :=
    reads_onHost fun _ => rfl
  refine (reads_buildOptions settings a.bindings [] [] a.debug).bind fun options => ?_
  refine hdirectory.bind (n := fun isDirectory t =>
    if (a.recursive && isDirectory) = true then failing (t.problemBelow options a.input)
    else failing (t.problem options a.input)) fun isDirectory => ?_
  refine (reads_checkDirectory options a.input).ite ?_ ((a.recursive && isDirectory) = true)
  refine (reads_checkSource options a.input).bind (n := fun found _ => failing found)
    fun found => ?_
  cases found with
  | none => exact reads_pure ()
  | some e => exact reads_throw e

/-! ### Showing -/

theorem reads_decodeTree (bytes : List UInt8) :
    Reads p (decodeTree bytes) fun _ => Decode.decode .shipped bytes :=
  tells_noteSchema.before (reads_ofExcept _)

theorem reads_dumpText (bytes : List UInt8) (format : DumpFormat) :
    Reads p (dumpText bytes format) fun _ => dumpedText bytes format := by
  cases format with
  | hex => exact reads_pure _
  | text => exact (reads_decodeTree bytes).bind fun tree => reads_pure _
  | json => exact (reads_decodeTree bytes).bind fun tree => reads_pure _

theorem does_dump (a : DumpArguments) : Does True (dump a) (dumping a) := by
  unfold dump dumping
  refine Does.bind (reads_readBytes .input a.input) fun bytes => ?_
  refine Does.bind (reads_dumpText bytes a.format) fun text => ?_
  cases a.output with
  | none => exact tells_print text
  | some path =>
      refine (does_writeBytes path _).then ?_
      exact tells_say _

theorem tells_symbols (format : ListFormat) : Tells True (symbols format) := by
  cases format <;> exact tells_print _

/-! ### The whole program

Watching is left out, since it goes on for as long as its host does. -/

theorem does_compile (settings : Settings) (a : CompileArguments) (hwatch : a.watch = false) :
    Does True (compile settings a) (commanding settings (.compile a)) := by
  unfold compile
  refine Does.bind (does_prepareOutput _) fun _ =>
    Does.bind (reads_buildOptions _ _ _ _ _) fun options => ?_
  rw [hwatch]
  exact does_compileOnce a options _

/-- Without watching, a run does to the files what `performing` does. -/
theorem does_perform (i : Invocation)
    (hwatch : ∀ a, i.command = some (.compile a) → a.watch = false) :
    Does True (perform i) (performing i) := by
  unfold perform performing
  refine Does.bind (reads_settingsOf i.config) fun settings => ?_
  cases hcommand : i.command with
  | none => exact tells_say _
  | some command =>
      cases command with
      | compile a => exact does_compile settings a (hwatch a hcommand)
      | check a => exact reads_check settings a
      | dump a => exact does_dump a
      | symbols format => exact tells_symbols format

end Program

end WidgetLayout
