/-
The tables of a host matter only through the names that a document uses.

A document uses a name of a resource as `resource("name"` and a name of a host property as
`bind("name"`.  Compiling looks a name up only after it has read it in such a place, and in the
table that the word before the parenthesis stands for.  So two hosts whose tables agree on the names
that the tokens ahead use cannot be told apart: every lookup gives the same answer.  Tokens are only
ever taken, so tables that agree on the tokens of a source agree on whatever is left of them later
on.
-/
import WidgetLayout.Proofs.Composed

namespace WidgetLayout

open WidgetLayout.Progress WidgetLayout.TokenSource WidgetLayout.Compile

/-! ### Names that tokens use

A name is used where it stands in parentheses behind its word.  Tables are asked for no other
names. -/

/-- Somewhere among the tokens `word` is followed by a parenthesis and the string `name`. -/
def UsesName (word : String) (ts : List Token) (name : String) : Prop :=
  ∃ t opening s : Token, [t, opening, s] <:+: ts ∧ t.isWord word = true ∧
    opening.kind = .openParens ∧ s.kind = .string ∧ s.text = name

/-- Tables that give the same number to every name that the tokens use, or none. -/
structure Bindings.AgreeOn (ts : List Token) (b b' : Bindings) : Prop where
  resources : ∀ name, UsesName "resource" ts name → b.resources.get? name = b'.resources.get? name
  properties : ∀ name, UsesName "bind" ts name → b.properties.get? name = b'.properties.get? name

theorem UsesName.mono {word name : String} {ts ts' : List Token} (h : UsesName word ts name)
    (hts : ts <:+: ts') : UsesName word ts' name := by
  obtain ⟨t, opening, s, hpart, huses⟩ := h
  exact ⟨t, opening, s, hpart.trans hts, huses⟩

theorem Bindings.AgreeOn.mono {b b' : Bindings} {ts ts' : List Token} (h : b.AgreeOn ts' b')
    (hts : ts <:+: ts') : b.AgreeOn ts b' where
  resources name hname := h.resources name (hname.mono hts)
  properties name hname := h.properties name (hname.mono hts)

/-! ### Actions that come to the same in one run

Other runs may use other names, so two actions are compared in one run only, and what follows them
only where they ended well. -/

namespace Progress

variable {ε s α β : Type} {x : s}

/-- What follows an action need only be the same where the action ends well. -/
theorem bind_congr_at {m m' : EStateM ε s α} {f g : α → EStateM ε s β} (hm : m x = m' x)
    (hf : ∀ a y, m x = .ok a y → f a y = g a y) : (m >>= f) x = (m' >>= g) x := by
  cases hr : m x with
  | ok a y =>
      rw [bind_of_ok hr, bind_of_ok (hm.symm.trans hr)]
      exact hf a y hr
  | error e y => rw [bind_of_error hr, bind_of_error (hm.symm.trans hr)]

theorem map_congr_at {m m' : EStateM ε s α} (hm : m x = m' x) (f : α → β) :
    (f <$> m) x = (f <$> m') x :=
  bind_congr_at (f := fun a => pure (f a)) hm fun _ _ _ => rfl

/-- Steps that are the same as long as something holds, which they keep, come to the same when
repeated. -/
theorem iterate_congr_at [Measured s] {step step' : β → EStateM ε s (β ⊕ α)}
    {hstep : ∀ b, Advances (step b)} {hstep' : ∀ b, Advances (step' b)} {P : s → Prop}
    (h : ∀ {b x}, P x → step b x = step' b x) (hkeeps : ∀ {b x r y}, P x → step b x = .ok r y → P y)
    (b : β) (hx : P x) : iterate step hstep b x = iterate step' hstep' b x := by
  show iterateOn step hstep b x = iterateOn step' hstep' b x
  -- the induction is on the rounds of the first loop; the second one has as many
  fun_induction iterateOn step hstep b x with
  | case1 b x e y hs =>
      rw [h hx] at hs
      exact (iterateOn_of_error hs).symm
  | case2 b x a y hs =>
      rw [h hx] at hs
      exact (iterateOn_of_done hs).symm
  | case3 b x b' y hs ih =>
      have hy := hkeeps hx hs
      rw [h hx] at hs
      rw [iterateOn_of_more hs]
      exact ih hy

end Progress

/-! ### Tokens that were taken -/

section Taken

variable {σ : Type} [TokenSource σ] {run run' : Run σ}

theorem Compile.tokens_of_expect {t : Token} (h : expect run = .ok t run') :
    takeAll run.source = t :: takeAll run'.source := by
  unfold expect at h
  rcases htake : TokenSource.take run.source with ⟨_ | t', source⟩
  · rw [htake] at h
    cases h
  · rw [htake] at h
    obtain ⟨rfl, rfl⟩ := EStateM.Result.ok.inj h
    exact takeAll_of_some htake

theorem Compile.tokens_of_accept {kind : TokenKind} {t : Token} (h : accept kind run = .ok t run') :
    t.kind = kind ∧ takeAll run.source = t :: takeAll run'.source := by
  obtain ⟨t', run₁, hexpect, hcheck⟩ := bind_eq_ok_iff.mp h
  by_cases hkind : t'.kind = kind
  · rw [if_pos hkind] at hcheck
    obtain ⟨rfl, rfl⟩ := EStateM.Result.ok.inj hcheck
    exact ⟨hkind, tokens_of_expect hexpect⟩
  · rw [if_neg hkind] at hcheck
    cases hcheck

omit [TokenSource σ] in
theorem Compile.source_of_write {bs : List UInt8} (h : write bs run = .ok () run') :
    run'.source = run.source := by
  have hleft : run' = { run with sink := (run.sink.write bs).2 } := by
    rw [← left_write, h]
    rfl
  rw [hleft]

/-- A word and what was accepted after it use the name that was accepted. -/
theorem usesName_of_accept {word : String} {run₁ run₂ run₃ : Run σ} {t opening s : Token}
    (ht : t.isWord word = true) (htokens : takeAll run.source = t :: takeAll run₁.source)
    (hopening : accept .openParens run₁ = .ok opening run₂)
    (hs : accept .string run₂ = .ok s run₃) : UsesName word (takeAll run.source) s.text := by
  obtain ⟨hopening, htokens₁⟩ := tokens_of_accept hopening
  obtain ⟨hs, htokens₂⟩ := tokens_of_accept hs
  refine ⟨t, opening, s, ⟨[], takeAll run₃.source, ?_⟩, ht, hopening, hs, rfl⟩
  rw [htokens, htokens₁, htokens₂]
  rfl

end Taken

/-! ### Lookups

A host is asked in two places: for the name of a resource in a literal, and for the name of a
property in a binding. -/

section Lookups

variable {σ : Type} [TokenSource σ] {run : Run σ} {b b' : Bindings}

/-- A context with the tables of another host. -/
def Context.withHost (context : Context) (b : Bindings) : Context := { context with bindings := b }

namespace Literal

theorem resource_of_agreeOn (h : b.AgreeOn (takeAll run.source) b') :
    resource b.resources run = resource b'.resources run := by
  refine bind_congr_at rfl fun word run₁ hword => ?_
  obtain ⟨hkind, htokens⟩ := tokens_of_accept hword
  by_cases htext : word.text = "resource"
  · rw [if_pos htext, if_pos htext]
    refine bind_congr_at rfl fun opening run₂ hopening => bind_congr_at rfl fun name run₃ hname =>
      bind_congr_at rfl fun _ _ _ => bind_congr_at rfl fun _ _ _ => ?_
    have hisWord : word.isWord "resource" = true := by simp [Token.isWord, hkind, htext]
    rw [h.resources name.text (usesName_of_accept hisWord htokens hopening hname)]
  · rw [if_neg htext, if_neg htext]

/-- Only the form of a resource has a name in it that is looked up. -/
theorem parse_of_agreeOn (symbols : SymbolTables) (type : ValueType)
    (h : b.AgreeOn (takeAll run.source) b') :
    parse symbols b.resources type run = parse symbols b'.resources type run := by
  cases type with
  | resource => exact map_congr_at (resource_of_agreeOn h) Value.resource
  | _ => rfl

end Literal

namespace Document

variable (context : Context) (entry : PropertyEntry) (name : Token)

theorem literal_of_agreeOn (h : b.AgreeOn (takeAll run.source) b') :
    literal (context.withHost b) entry name run = literal (context.withHost b') entry name run := by
  refine bind_congr_at rfl fun _ run₁ hwrite => ?_
  rw [← source_of_write hwrite] at h
  have hencode := bind_congr_at (Literal.parse_of_agreeOn context.symbols entry.type h) fun v y _ =>
    (rfl : (Literal.writeValue v >>= fun _ => pure v) y = _)
  exact bind_congr_at hencode fun _ _ _ => rfl

/-- A binding begins with its word, as was seen before. -/
theorem bound_of_agreeOn (h : b.AgreeOn (takeAll run.source) b')
    (hbind : (takeAll run.source).head?.any (·.isWord "bind") = true) :
    bound (context.withHost b) entry name run = bound (context.withHost b') entry name run := by
  refine bind_congr_at rfl fun _ run₁ hwrite => bind_congr_at rfl fun word run₂ hword =>
    bind_congr_at rfl fun opening run₃ hopening => bind_congr_at rfl fun source run₄ hsource =>
      bind_congr_at rfl fun _ _ _ => bind_congr_at rfl fun _ _ _ => ?_
  have htokens : takeAll run.source = word :: takeAll run₂.source := by
    rw [← source_of_write hwrite]
    exact (tokens_of_accept hword).2
  have hisWord : word.isWord "bind" = true := by simpa [htokens] using hbind
  have hget := h.properties source.text (usesName_of_accept hisWord htokens hopening hsource)
  dsimp only [Context.withHost]
  rw [hget]

/-! ### Documents -/

variable [LawfulTokenSource σ]

/-- Tables that agree on the tokens ahead agree on those that an action leaves. -/
theorem agreeOn_left {α : Type} {w : Prop} {E : Error → Prop} {m : OnAny α} (hm : Composed w E m)
    (h : b.AgreeOn (takeAll run.source) b') {a : α} {run' : Run σ} (hrun : m σ run = .ok a run') :
    b.AgreeOn (takeAll run'.source) b' := by
  have hsuffix := hm.suffix run
  rw [hrun] at hsuffix
  exact h.mono hsuffix.isInfix

theorem property_of_agreeOn (h : b.AgreeOn (takeAll run.source) b') :
    property (context.withHost b) entry name run =
      property (context.withHost b') entry name run := by
  refine bind_congr_at rfl fun _ run₁ hcolon => bind_congr_at rfl fun front run₂ hpeek => ?_
  have h₁ := agreeOn_left (composed_accept (w := True) .colon) h hcolon
  have h₂ := agreeOn_left (.peek (w := True) (E := Error.Inner)) h₁ hpeek
  have hfront : front = (takeAll run₂.source).head? := by
    obtain ⟨rfl, rfl⟩ := EStateM.Result.ok.inj hpeek
    rw [takeAll_peek, peek_eq_head?]
  by_cases hbind : front.any (·.isWord "bind") = true
  · rw [if_pos hbind, if_pos hbind]
    exact bound_of_agreeOn context entry name h₂ (hfront ▸ hbind)
  · rw [if_neg hbind, if_neg hbind]
    exact literal_of_agreeOn context entry name h₂

theorem bodyItem_of_agreeOn (here : Section) (outer : List Section)
    (h : b.AgreeOn (takeAll run.source) b') :
    bodyItem (context.withHost b) here outer run =
      bodyItem (context.withHost b') here outer run := by
  refine bind_congr_at rfl fun t run₁ ht => ?_
  have h₁ := agreeOn_left (.expect (w := True) (E := Error.Inner)) h ht
  cases t.kind with
  | identifier =>
      dsimp only [Context.withHost]
      cases context.symbols.property? t.text with
      | some entry =>
          cases here with
          | children => rfl
          | properties =>
              exact bind_congr_at (property_of_agreeOn context entry t h₁) fun _ _ _ => rfl
      | none => rfl
  | _ => rfl

theorem compile_of_agreeOn (h : b.AgreeOn (takeAll run.source) b') :
    compile (context.withHost b) run = compile (context.withHost b') run := by
  refine bind_congr_at rfl fun name run₁ hname => bind_congr_at rfl fun _ run₂ hopen => ?_
  have h₁ := agreeOn_left (composed_accept (w := True) .identifier) h hname
  have h₂ := agreeOn_left (composed_openWidget (context.withHost b) 1 name) h₁ hopen
  have hbody :
      iterate (bodyStep (context.withHost b)) (advances_bodyStep _) (.properties, []) run₂ =
      iterate (bodyStep (context.withHost b')) (advances_bodyStep _) (.properties, []) run₂ :=
    iterate_congr_at (P := fun run => b.AgreeOn (takeAll run.source) b')
      (fun hx => map_congr_at (bodyItem_of_agreeOn context _ _ hx) goOn)
      (fun hx hstep => agreeOn_left (composed_bodyStep (context.withHost b) _) hx hstep) _ h₂
  exact bind_congr_at hbody fun _ _ _ => rfl

end Document

end Lookups

/-- **The tables of a host matter only through the names that a document uses.**  If two hosts give
the same numbers to all resources that the source uses in `resource(..)` and to all properties that
it uses in `bind(..)`, the source is compiled to the same bytes with the same counters for both, or
refused with the same error.  What a `bind(..)` is compiled to never depends on the resources of the
host, and what a literal is compiled to, a `resource(..)` among them, never on its properties. -/
theorem compileSource_of_agreeOn (options : Options) (source : String) {b b' : Bindings}
    (h : b.AgreeOn (tokenize source) b') :
    compileSource { options with bindings := b } source =
      compileSource { options with bindings := b' } source ∧
      ∀ (entry : PropertyEntry) (name : Token) (run : Run Lexer),
        (∀ resources,
          Document.bound (options.context.withHost ⟨resources, b.properties⟩) entry name run =
          Document.bound (options.context.withHost b) entry name run) ∧
        ∀ properties,
          Document.literal (options.context.withHost ⟨b.resources, properties⟩) entry name run =
          Document.literal (options.context.withHost b) entry name run := by
  refine ⟨?_, fun entry name run => ⟨fun _ => rfl, fun _ => rfl⟩⟩
  have hahead : b.AgreeOn (takeAll (Run.start (Lexer.ofSource source) .unbounded).source) b' := by
    show b.AgreeOn (takeAll (Lexer.ofSource source)) b'
    rw [← dropLast_tokenize]
    have hfront := List.dropLast_prefix (tokenize source)
    exact h.mono hfront.isInfix
  have hcompile := Document.compile_of_agreeOn options.context hahead
  have hinto : compileInto .unbounded (options.context.withHost b) source =
      compileInto .unbounded (options.context.withHost b') source := by
    unfold compileInto Compile.outcome
    rw [hcompile]
  exact congrArg (fun o => (options.checkSize source >>= fun _ => o.output source)) hinto

/-- The name of a host property is no name of a resource, whatever number the resource of that name
has. -/
theorem compileSource_of_agreeOn_bound :
    let source := "Label \x7b text: bind(\"logo\"); \x7d"
    let b : Bindings := ⟨.ofList [("logo", 7)], .ofList [("logo", 300), ("title", 1)]⟩
    let b' : Bindings := ⟨.empty, .ofList [("logo", 300)]⟩
    b.AgreeOn (tokenize source) b' ∧
      compileSource { Options.default with bindings := b } source =
        compileSource { Options.default with bindings := b' } source ∧
      compileSource { Options.default with bindings := b' } source =
        .ok ⟨[2, 138, 130, 44, 0, 0], 29, 6, ⟨1, 0, 1, 1⟩⟩ := by
  intro source b b'
  have hagree : b.AgreeOn (tokenize source) b' := by
    constructor
    · rintro name ⟨t, opening, s, hpart, ht, -⟩
      have hnone : ∀ t ∈ tokenize source, t.isWord "resource" = false := by decide +kernel
      rw [hnone t (hpart.subset (by simp))] at ht
      cases ht
    · rintro name ⟨t, opening, s, hpart, -, -, hs, rfl⟩
      have hname : ∀ s ∈ tokenize source, s.kind = .string → s.text = "logo" := by decide +kernel
      rw [hname s (hpart.subset (by simp)) hs]
      decide
  exact ⟨hagree, (compileSource_of_agreeOn .default source hagree).1, by decide +kernel⟩

end WidgetLayout
