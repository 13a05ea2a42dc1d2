/-
Definitions on the command line go before those of a file.

What a source is compiled with comes from three places: the settings, a file with bindings and the
command line.  The command line names the file, or else the settings do.  Its own definitions are
collected in tables first, those of resources and those of properties apart, and then put over the
tables of the file; so the last definition of a name decides, then the file, and it does not matter
how definitions of the two kinds are mixed.

`defineAll_cases` is what a list of definitions comes to, and `get?_putAll_of_lastGives` what a
table says once it has been put over another one.
-/
import WidgetLayout.Proofs.FileEffects
import WidgetLayout.Proofs.LastWrite

namespace WidgetLayout

namespace BindingTable

/-! ### Lists of definitions -/

theorem defineAll_concat (ds : List String) (d : String) (table : BindingTable) :
    defineAll table (ds ++ [d]) = defineAll table ds >>= fun table' => define table' d := by
  induction ds generalizing table with
  | nil =>
      show define table d >>= pure = define table d
      cases define table d <;> rfl
  | cons d' ds ih =>
      show define table d' >>= _ = (define table d' >>= _) >>= _
      cases define table d' with
      | error e => rfl
      | ok table' => exact ih table'

/-- A list of definitions is accepted exactly if each of them is, and then the last one of a name
decides. -/
theorem defineAll_cases (ds : List String) :
    (∀ d ∈ ds, ∃ name id, Defines d name id) ∧ (∃ table, defineAll .empty ds = .ok table ∧
      ∀ name id, table.get? name = some id ↔ LastGives Defines ds name id) ∨
    (∃ d ∈ ds, ∀ name id, ¬ Defines d name id) ∧
      ∃ fault, defineAll .empty ds = .error (.invalidFormat fault) := by
  induction ds using List.reverseRec with
  | nil =>
      exact .inl ⟨by simp, .empty, rfl, fun name id => iff_of_false (by simp) not_lastGives_nil⟩
  | append_singleton ds d ih =>
      rw [defineAll_concat]
      rcases ih with ⟨hall, table, htable, hlookup⟩ | ⟨⟨d', hmem, hd'⟩, fault, hfault⟩
      · rw [htable]
        by_cases hd : ∃ name id, Defines d name id
        · obtain ⟨name, id, hd⟩ := hd
          refine .inl ⟨?_, table.put name id, hd.define_eq table, fun name' id' => ?_⟩
          · exact List.forall_mem_append.mpr ⟨hall, List.forall_mem_singleton.mpr ⟨name, id, hd⟩⟩
          · rw [get?_put_iff_of_gives (Defines d) fun _ _ => hd.iff, lastGives_concat, hlookup]
        · simp only [not_exists] at hd
          exact .inr ⟨⟨d, by simp, hd⟩, define_of_not_defines hd table⟩
      · rw [hfault]
        exact .inr ⟨⟨d', by simp [hmem], hd'⟩, fault, rfl⟩

/-- The number of a name by a list of definitions, or else by a table. -/
def Layered (ds : List String) (stored : BindingTable) (name : String) (id : UInt32) : Prop :=
  LastGives Defines ds name id ∨ (∀ d ∈ ds, ∀ id', ¬ Defines d name id') ∧
    stored.get? name = some id

theorem get?_putAll_of_lastGives {ds : List String} {table stored : BindingTable}
    (h : ∀ name id, table.get? name = some id ↔ LastGives Defines ds name id) (name : String)
    (id : UInt32) :
    (stored.putAll table.entries).get? name = some id ↔ Layered ds stored name id := by
  rw [Dictionary.get?_putAll_entries, Option.or_eq_some_iff, h,
    eq_none_iff_of_lastGives (h name), Layered]

end BindingTable

/-! ### Files -/

/-- Bindings depend on the files only through the content of the file that they are in. -/
theorem FileTree.storedBindings_congr {t t' : FileTree} {path? : Option String}
    (h : ∀ path, path? = some path → t'.readFile path = t.readFile path) :
    t'.storedBindings path? = t.storedBindings path? := by
  cases path? with
  | none => rfl
  | some path => simp only [storedBindings, bindingsAt, textAt, bytesAt, h path rfl]

/-! ### Arguments

However options are mixed, the values of each are kept in the order in which they were given. -/

namespace Arguments

theorem has_eq (g : Given) (name : OptionName) : g.has name = !(g.values name).isEmpty := by
  unfold Given.has Given.values
  induction g.options with
  | nil => rfl
  | cons o options ih => by_cases ho : o.1 = name <;> simp [ho, ih]

/-- What compiling is asked for depends on each option alone, however the options are mixed. -/
theorem readCompile_congr {args args' : List String} {g g' : Given}
    (hg : readAll compileForms .empty none args = .ok g)
    (hg' : readAll compileForms .empty none args' = .ok g')
    (hvalues : ∀ name, g.values name = g'.values name) (hinputs : g.inputs = g'.inputs) :
    readCompile args = readCompile args' := by
  have hvalue : ∀ name, g.value? name = g'.value? name := by
    intro name
    rw [Given.value?, Given.value?, hvalues]
  have hinput : oneInput g = oneInput g' := by
    rw [oneInput, oneInput, hinputs]
  unfold readCompile
  rw [hg, hg']
  show oneInput g >>= _ = oneInput g' >>= _
  simp only [hinput, has_eq, hvalues, hvalue]

end Arguments

namespace Program

open WidgetLayout.BindingTable (Defines Layered defineAll_cases get?_putAll_of_lastGives)

/-! ### Options -/

/-- How an action ends. -/
def outcome {α : Type} (act : Action (StateM World) α) (s : Session) (w : World) :
    Except Error α := (act s w).1.1

/-- The options of a compilation, from settings and from what it was asked for. -/
def optionsFor (settings : Settings) (a : CompileArguments) : Action (StateM World) Options :=
  buildOptions settings a.bindings a.resources a.properties a.debug

theorem Reads.outcome_eq {α : Type} {act : Action (StateM World) α}
    {read : FileTree → Except Error α} (h : Reads True act read) (s : Session) (w : World) :
    outcome act s w = read w.files :=
  (Prod.mk.inj (h.files s w)).1.symm

/-- The file is read first, then the definitions of resources, and then those of properties. -/
theorem options_eq (t : FileTree) (settings : Settings) (a : CompileArguments) :
    t.options settings a.bindings a.resources a.properties a.debug = do
      let stored ← t.storedBindings (a.bindings.or settings.bindings)
      let resources ← BindingTable.defineAll .empty a.resources
      let properties ← BindingTable.defineAll .empty a.properties
      return {
        bindings := stored.merge ⟨resources, properties⟩
        debug := a.debug
        maxDepth := settings.maxDepth.getD Options.default.maxDepth
        maxSourceSize := settings.maxSourceSize.getD Options.default.maxSourceSize } := by
  unfold FileTree.options
  cases a.bindings <;> rfl

/-- Options come about exactly if the file and all definitions can be read, and then in layers. -/
theorem options_cases (t : FileTree) (settings : Settings) (a : CompileArguments) :
    let options := t.options settings a.bindings a.resources a.properties a.debug
    let file := t.storedBindings (a.bindings.or settings.bindings)
    (∃ stored o, file = .ok stored ∧ options = .ok o ∧
      (∀ d ∈ a.resources ++ a.properties, ∃ name id, Defines d name id) ∧
      ∀ name id,
        (o.bindings.resources.get? name = some id ↔ Layered a.resources stored.resources name id) ∧
        (o.bindings.properties.get? name = some id ↔
          Layered a.properties stored.properties name id)) ∨
    (∃ e, options = .error e) ∧
      ((∃ e, file = .error e) ∨ ∃ d ∈ a.resources ++ a.properties, ∀ name id,
        ¬ Defines d name id) := by
  intro options file
  have hoptions : options = _ := options_eq t settings a
  rw [hoptions]
  cases hfile : t.storedBindings (a.bindings.or settings.bindings) with
  | error e => exact .inr ⟨⟨e, rfl⟩, .inl ⟨e, hfile⟩⟩
  | ok stored =>
      rcases defineAll_cases a.resources with
        ⟨hall, table, htable, hlookup⟩ | ⟨⟨d, hmem, hd⟩, fault, hfault⟩
      · rcases defineAll_cases a.properties with
          ⟨hall', table', htable', hlookup'⟩ | ⟨⟨d, hmem, hd⟩, fault, hfault⟩
        · rw [htable, htable']
          refine .inl ⟨stored, _, hfile, rfl, List.forall_mem_append.mpr ⟨hall, hall'⟩,
            fun name id => ⟨?_, ?_⟩⟩
          · exact get?_putAll_of_lastGives hlookup name id
          · exact get?_putAll_of_lastGives hlookup' name id
        · rw [htable, hfault]
          exact .inr ⟨⟨_, rfl⟩, .inr ⟨d, by simp [hmem], hd⟩⟩
      · rw [hfault]
        exact .inr ⟨⟨_, rfl⟩, .inr ⟨d, by simp [hmem], hd⟩⟩

/-- **Definitions on the command line go before those of a file, however they are mixed.**  The
bindings file is the one that the command line names, or else the one that the settings name, and no
other file matters.  Where options come about, the number of a name is that of its last definition,
or else that of the file.  They come about unless the file cannot be loaded or a definition is
malformed.  Two ways to mix the same arguments give the same options or the same error. -/
theorem optionsFor_precedence (settings : Settings) (a : CompileArguments)
    (s : Session) (w : World) :
    let path? := a.bindings.or settings.bindings
    let file := outcome (fileBindings path?) s w
    let result := outcome (optionsFor settings a) s w
    (∀ s' w', (∀ path, path? = some path → w'.files.readFile path = w.files.readFile path) →
      outcome (optionsFor settings a) s' w' = result) ∧
    (∀ o, result = .ok o → ∃ stored, file = .ok stored ∧ ∀ name id,
      (o.bindings.resources.get? name = some id ↔ Layered a.resources stored.resources name id) ∧
      (o.bindings.properties.get? name = some id ↔
        Layered a.properties stored.properties name id)) ∧
    ((∃ e, result = .error e) ↔
      (∃ e, file = .error e) ∨ ∃ d ∈ a.resources ++ a.properties, ∀ name id, ¬ Defines d name id) ∧
    ∀ args args' g g', Arguments.readAll Arguments.compileForms .empty none args = .ok g →
      Arguments.readAll Arguments.compileForms .empty none args' = .ok g' →
      (∀ name, g.values name = g'.values name) → g.inputs = g'.inputs →
      Arguments.readCompile args = .ok (.compile a) →
        ∃ a', Arguments.readCompile args' = .ok (.compile a') ∧
          optionsFor settings a' s w = optionsFor settings a s w := by
  intro path? file result
  have hreads : ∀ s w, outcome (optionsFor settings a) s w =
      w.files.options settings a.bindings a.resources a.properties a.debug :=
    (reads_buildOptions settings a.bindings a.resources a.properties a.debug).outcome_eq
  have hfile : file = w.files.storedBindings path? := (reads_fileBindings path?).outcome_eq s w
  have hresult : result = _ := hreads s w
  refine ⟨fun s' w' hsame => ?_, fun o ho => ?_, ?_, ?_⟩
  · rw [hresult, hreads s' w', options_eq, options_eq, FileTree.storedBindings_congr hsame]
  · rw [hresult] at ho
    rcases options_cases w.files settings a with
      ⟨stored, o', hstored, ho', -, hlookup⟩ | ⟨⟨e, he⟩, -⟩
    · obtain rfl := Except.ok.inj (ho'.symm.trans ho)
      exact ⟨stored, hfile.trans hstored, hlookup⟩
    · exact nomatch he.symm.trans ho
  · rw [hresult, hfile]
    rcases options_cases w.files settings a with
      ⟨stored, o, hstored, ho, hall, -⟩ | ⟨herror, hcause⟩
    · refine iff_of_false (fun ⟨e, he⟩ => nomatch ho.symm.trans he) ?_
      rintro (⟨e, he⟩ | ⟨d, hd, hnot⟩)
      · exact nomatch hstored.symm.trans he
      · obtain ⟨name, id, hdefines⟩ := hall d hd
        exact hnot name id hdefines
    · exact iff_of_true herror hcause
  · intro args args' g g' hg hg' hvalues hinputs ha
    exact ⟨a, (Arguments.readCompile_congr hg hg' hvalues hinputs).symm.trans ha, rfl⟩

/-- A file is named by both, its entry for a name is defined anew twice, and the arguments come in
two orders. -/
theorem optionsFor_precedence_mixed :
    let w : World := .start ⟨.directory [("host.json", .file (Text.Utf8.encode
      "\x7b\"resources\": \x7b\"logo\": 1, \"icon\": 2\x7d\x7d".toList))], []⟩ "0"
    let settings : Settings := ⟨some "missing.json", none, none, none⟩
    let a : CompileArguments :=
      ⟨"in.layout", none, some "host.json", ["logo=40", "logo = 41"], ["count=3"], false,
        false, false, false⟩
    let args :=
  ["in.layout", "-b", "host.json", "-r", "logo=40", "-P", "count=3", "-r", "logo = 41"]
    let args' := ["-Pcount=3", "--resource=logo=40", "in.layout", "-rlogo = 41", "-b", "host.json"]
    (∃ o stored, outcome (optionsFor settings a) (.start 0) w = .ok o ∧
      o.bindings.resources.get? "logo" = some 41 ∧ Layered a.resources stored "logo" 41 ∧
      o.bindings.resources.get? "icon" = some 2 ∧ Layered a.resources stored "icon" 2) ∧
    Arguments.readCompile args = .ok (.compile a) ∧
    ∃ a', Arguments.readCompile args' = .ok (.compile a') ∧
      optionsFor settings a' (.start 0) w = optionsFor settings a (.start 0) w := by
  intro w settings a args args'
  obtain ⟨-, hlayers, -, hmixed⟩ := optionsFor_precedence settings a (.start 0) w
  have hfound : (outcome (optionsFor settings a) (.start 0) w).toOption.map (fun o =>
      (o.bindings.resources.get? "logo", o.bindings.resources.get? "icon")) =
        some (some 41, some 2) := by
    decide +kernel
  refine ⟨?_, rfl, ?_⟩
  · cases hresult : outcome (optionsFor settings a) (.start 0) w with
    | error e =>
        rw [hresult] at hfound
        cases hfound
    | ok o =>
        rw [hresult] at hfound
        obtain ⟨hlogo, hicon⟩ := Prod.mk.inj (Option.some.inj hfound)
        obtain ⟨stored, -, hlookup⟩ := hlayers o hresult
        exact ⟨o, stored.resources, rfl, hlogo, (hlookup "logo" 41).1.mp hlogo, hicon,
          (hlookup "icon" 2).1.mp hicon⟩
  · refine hmixed args args'
      ⟨[(.bindings, "host.json"), (.resource, "logo=40"), (.property, "count=3"),
        (.resource, "logo = 41")], ["in.layout"]⟩
      ⟨[(.property, "count=3"), (.resource, "logo=40"), (.resource, "logo = 41"),
        (.bindings, "host.json")], ["in.layout"]⟩ rfl rfl ?_ rfl rfl
    intro name
    cases name <;> rfl

end Program

end WidgetLayout
