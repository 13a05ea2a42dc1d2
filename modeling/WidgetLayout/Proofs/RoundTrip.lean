/-
Decoding what was compiled gives the tree that the source spells, and the counters agree with it.

A compiled source spells a tree (`compile_eq_ok_iff`), whose names and types come from the rows of
the schema it was compiled against (`declared_of_spelled`).  The shipped schema can be read back, so
the decoder gives this tree again, unless it is deeper than the decoder allows: the two limits are
not the same.
-/
import WidgetLayout.Proofs.Declared
import WidgetLayout.Proofs.Document

namespace WidgetLayout

/-! ### Spelled trees are declared

Every name of a spelling was looked up in the tables, so it is the name of a row. -/

section Declared

variable {s : Schema} {context : Context}

theorem mem_of_widget? {name : String} {e : WidgetEntry} (h : s.index.widget? name = some e) :
    e ∈ s.widgets :=
  (Dictionary.mem_of_get?_ofList_map h).1

theorem mem_of_property? {name : String} {e : PropertyEntry} (h : s.index.property? name = some e) :
    e ∈ s.properties :=
  (Dictionary.mem_of_get?_ofList_map h).1

/-- The value of a literal has the type it was read for, and a size list has an item. -/
theorem Literal.Spelled.suits {symbols : SymbolTables} {resources : BindingTable} {type : ValueType}
    {v : Value} {l : List Token} (h : Literal.Spelled symbols resources type v l) (hfits : v.Fits) :
    v.Suits type := by
  refine ⟨?_, hfits, ?_⟩
  · cases h <;> rfl
  · intro hnil
    cases h <;> cases hnil

theorem Property.declared_of_spelled (hs : context.symbols = s.index) {p : Property}
    {l : List Token} (h : p.Spelled context l) : p.Declared s := by
  cases h with
  | literal _ hentry _ hl _ hfits =>
      rw [hs] at hentry
      refine ⟨_, mem_of_property? hentry, fun v hv => ?_⟩
      obtain rfl := PropertyValue.literal.inj hv
      exact hl.suits hfits
  | binding _ hentry =>
      rw [hs] at hentry
      refine ⟨_, mem_of_property? hentry, fun v hv => ?_⟩
      cases hv

theorem Property.forall_declared_of_joined (hs : context.symbols = s.index) {ps : List Property} :
    ∀ {l : List Token}, Joined (Property.Spelled context) ps l → ∀ p ∈ ps, p.Declared s := by
  induction ps with
  | nil =>
      intro l _ p hp
      cases hp
  | cons p ps ih =>
      intro l hl
      obtain ⟨l₁, l₂, hp, hps, -⟩ := hl
      exact List.forall_mem_cons.mpr ⟨Property.declared_of_spelled hs hp, ih hps⟩

mutual

theorem Widget.declared_of_spelled (hs : context.symbols = s.index) : (w : Widget) →
    ∀ {l : List Token}, w.Spelled context l → w.Declared s
  | ⟨name, tag, properties, children⟩, l, hspelled => by
      rw [Widget.Spelled] at hspelled
      obtain ⟨word, opening, closing, ps, cs, -, hentry, -, -, hps, hcs, -⟩ := hspelled
      rw [hs] at hentry
      rw [Widget.Declared]
      exact ⟨mem_of_widget? hentry, Property.forall_declared_of_joined hs hps,
        Widget.declaredAll_of_spelled hs children hcs⟩

theorem Widget.declaredAll_of_spelled (hs : context.symbols = s.index) : (ws : List Widget) →
    ∀ {l : List Token}, Widget.ChildrenSpelled context ws l → Widget.DeclaredAll s ws
  | [], l, _ => by
      rw [Widget.DeclaredAll]
      trivial
  | w :: ws, l, hspelled => by
      rw [Widget.ChildrenSpelled] at hspelled
      obtain ⟨l₁, l₂, hw, -, hws, -⟩ := hspelled
      rw [Widget.DeclaredAll]
      exact ⟨Widget.declared_of_spelled hs w hw, Widget.declaredAll_of_spelled hs ws hws⟩

end

end Declared

/-! ### Compiled sources -/

/-- A source that compiles spells a tree; its bytes and counters are those of the tree. -/
theorem compileSource_eq_ok {options : Options} {source : String} {out : Output}
    (h : compileSource options source = .ok out) :
    ∃ w : Widget, w.Spelled options.context (tokenize source).dropLast ∧ out.bytes = w.encode ∧
      out.stats = w.tally 1 ∧ out.outputSize = out.bytes.length := by
  unfold compileSource at h
  cases hsize : options.checkSize source with
  | error e =>
      rw [hsize] at h
      cases h
  | ok _ =>
      rw [hsize] at h
      have h : (compileInto .unbounded options.context source).output source = .ok out := h
      unfold Outcome.output at h
      cases hresult : (compileInto .unbounded options.context source).result with
      | error e =>
          rw [hresult] at h
          cases h
      | ok _ =>
          rw [hresult] at h
          obtain rfl := Except.ok.inj h
          have hrun := Document.outcome_result_iff.mp hresult
          have hstart : (Run.start (Lexer.ofSource source) .unbounded).sink.capacity = none := rfl
          obtain ⟨w, -, hspelled, hbytes, hstats⟩ :=
            (Document.compile_eq_ok_iff hstart).mp ⟨_, hrun, rfl, rfl⟩
          rw [dropLast_tokenize]
          refine ⟨w, hspelled, hbytes, ?_, Array.length_toList.symm⟩
          exact hstats.trans (Stats.zero_join _)

/-- A source that spells a tree compiles to the bytes of the tree, unless it is refused for its size
or the tree for its depth. -/
theorem compileSource_of_spelled {options : Options} {source : String} {w : Widget}
    (hsize : options.checkSize source = .ok ()) (hheight : w.height ≤ options.maxDepth)
    (hspelled : w.Spelled options.context (tokenize source).dropLast) :
    ∃ out, compileSource options source = .ok out ∧ out.bytes = w.encode ∧
      out.stats = w.tally 1 := by
  rw [dropLast_tokenize] at hspelled
  have hstart : (Run.start (Lexer.ofSource source) .unbounded).sink.capacity = none := rfl
  obtain ⟨run, hrun, hbytes, hstats⟩ :=
    (Document.compile_eq_ok_iff hstart).mpr ⟨w, hheight, hspelled, rfl, rfl⟩
  refine ⟨⟨run.sink.bytes.toList, source.utf8ByteSize, run.sink.bytes.size, run.stats⟩, ?_, hbytes,
    hstats.trans (Stats.zero_join _)⟩
  have hoptions : compileSource options source =
      (compileInto .unbounded options.context source).output source := by
    unfold compileSource
    rw [hsize]
    rfl
  rw [hoptions, compileInto, Compile.outcome, hrun]
  rfl

/-- **The decoder undoes the compiler and agrees with its counters.**  The bytes of a compiled
source decode to the tree that its tokens spell if that tree is no deeper than the decoder allows,
and are refused for their depth otherwise; the counters of the compilation are those of the tree. -/
theorem decode_compileSource {options : Options} {source : String} {out : Output}
    (h : compileSource options source = .ok out) :
    ∃ w : Widget, w.Spelled options.context (tokenize source).dropLast ∧
      (Decode.decode .shipped out.bytes =
        if out.stats.maxDepth ≤ maxDecodeDepth then .ok w
        else .error (.limitExceeded .decodedDepth maxDecodeDepth)) ∧
      w.count = out.stats.widgets ∧
      (w.countProperties fun p => p.value.isLiteral) = out.stats.properties ∧
      (w.countProperties fun p => !p.value.isLiteral) = out.stats.bindings ∧
      w.height = out.stats.maxDepth ∧ out.outputSize = out.bytes.length := by
  obtain ⟨w, hspelled, hbytes, hstats, hsize⟩ := compileSource_eq_ok h
  have hdeclared : w.Declared .shipped := Widget.declared_of_spelled rfl w hspelled
  have hknown : w.Known .shipped :=
    (Widget.known_iff_declared Schema.readable_shipped w).mpr hdeclared
  have hform : w.Form out.bytes := by
    rw [hbytes]
    exact Widget.form_encode w hknown
  rw [Widget.tally_eq, Nat.zero_add] at hstats
  rw [hstats]
  refine ⟨w, hspelled, ?_, rfl, rfl, rfl, rfl, hsize⟩
  by_cases hheight : w.height ≤ maxDecodeDepth
  · rw [if_pos hheight]
    exact Decode.decode_eq_ok_iff.mpr ⟨hknown, hheight, hform⟩
  · rw [if_neg hheight]
    exact Decode.decode_eq_error hknown hform (Nat.lt_of_not_le hheight)

/-- The options of a host that knows one property. -/
def Options.hosted : Options :=
  { Options.default with bindings := ⟨.empty, .ofList [("title", 300)]⟩ }

/-- A panel with a margin literal and a bound child. -/
def panelSource : String := "Panel \x7b padding: 1, 2; Label \x7b text: bind(\"title\"); \x7d \x7d"

theorem decode_compileSource_panel :
    compileSource .hosted panelSource =
        .ok ⟨[17, 4, 1, 2, 1, 2, 0, 2, 138, 130, 44, 0, 0, 0], 55, 14, ⟨2, 1, 1, 2⟩⟩ ∧
      ∃ w : Widget,
        w.Spelled Options.hosted.context (tokenize panelSource).dropLast ∧
        Decode.decode .shipped [17, 4, 1, 2, 1, 2, 0, 2, 138, 130, 44, 0, 0, 0] = .ok w ∧
        w.count = 2 ∧ (w.countProperties fun p => p.value.isLiteral) = 1 ∧
        (w.countProperties fun p => !p.value.isLiteral) = 1 ∧ w.height = 2 := by
  have h : compileSource .hosted panelSource =
      .ok ⟨[17, 4, 1, 2, 1, 2, 0, 2, 138, 130, 44, 0, 0, 0], 55, 14, ⟨2, 1, 1, 2⟩⟩ := by
    decide +kernel
  obtain ⟨w, hspelled, hdecode, hcount, hliterals, hbindings, hheight, -⟩ := decode_compileSource h
  exact ⟨h, w, hspelled, hdecode, hcount, hliterals, hbindings, hheight⟩

end WidgetLayout
