/-
Documents that are compiled one after the other.

One compiler may compile many documents, and go on after one of them has failed.  It carries nothing
but its counters from one to the next, and it never looks at them: so each document is compiled as
by a compiler of its own, and what that one counts, also before it fails, is added to what was
counted before.

The depth that is counted is one that was reached, so it is within the limit; and to reach it as
many widgets had to be opened, each inside the one before.  `Bounded` says this while widgets are
still open.
-/
import Mathlib.Algebra.GroupWithZero.Nat
import WidgetLayout.Proofs.Lockstep

namespace WidgetLayout

open WidgetLayout.Progress

/-! ### Counters that were not zero at the start

Counters are added to and never looked at, so runs that differ in them alone go on in step. -/

section Counters

variable {σ : Type} [TokenSource σ]

/-- Runs may differ in what they have counted, as `R` says. -/
def Lockstep.counters (R : Stats → Stats → Prop) : Lockstep σ σ where
  Places := Eq
  Sources := Eq
  Counters := R
  position {s t} h := by rw [h]
  peek {s t} h := by
    rw [h]
    refine ⟨?_, rfl⟩
    cases (TokenSource.peek t).1 with
    | none => exact .none
    | some a => exact .some ⟨rfl, rfl⟩
  take {s t} h := by
    rw [h]
    refine ⟨?_, rfl⟩
    cases (TokenSource.take t).1 with
    | none => exact .none
    | some a => exact .some ⟨rfl, rfl⟩

/-- Errors that point to the same place and are the same but for that are the same. -/
theorem Lockstep.eq_of_errors {R : Stats → Stats → Prop} {e e' : Error}
    (h : (Lockstep.counters R : Lockstep σ σ).Errors e e') : e = e' := by
  obtain ⟨hplaced, hposition⟩ := h
  have heq : e.position? = e'.position? := by
    generalize e.position? = p at hposition
    generalize e'.position? = q at hposition
    cases hposition with
    | none => rfl
    | some h => rw [h]
  rw [Error.eq_placed hplaced, ← heq, Error.placed_position]

/-- Compiles a document with counters that may have been used before. -/
def compileOnto (context : Context) (stats : Stats) (document : σ × Sink) : Outcome σ :=
  (Document.compile context).outcome ⟨document.1, document.2, stats, #[]⟩

/-- What was counted before is still there at the end, and makes no other difference. -/
theorem compileOnto_eq (context : Context) (stats : Stats) (document : σ × Sink) :
    let o := compileOnto context stats document
    let fresh := compileOnto context .zero document
    o.run.sink = fresh.run.sink ∧ o.run.source = fresh.run.source ∧ o.result = fresh.result ∧
      o.run.stats = stats.join fresh.run.stats := by
  have hcounts : ∀ c, (Lockstep.counters fun a b => a = stats.join b : Lockstep σ σ).Counts c := by
    intro c a b h
    show a.join c = stats.join (b.join c)
    rw [h, Stats.join_assoc]
  have hstart : (Lockstep.counters fun a b => a = stats.join b).Runs
      (⟨document.1, document.2, stats, #[]⟩ : Run σ) ⟨document.1, document.2, .zero, #[]⟩ :=
    ⟨rfl, rfl, (Stats.join_zero stats).symm⟩
  obtain ⟨hruns, hresult⟩ := (Document.inStep_compile context hcounts).outcome hstart
  refine ⟨hruns.sink, hruns.source, ?_, hruns.stats⟩
  rcases hresult with ⟨hok, hok'⟩ | ⟨e, e', he, he', herrors⟩
  · exact hok.trans hok'.symm
  · rw [Lockstep.eq_of_errors herrors] at he
    exact he.trans he'.symm

end Counters

/-! ### How deep widgets can be nested

Depths are counted where widgets are opened.  `Nests` follows through the actions how many are
open. -/

/-- Counters while `n` widgets are open: as many were counted, and the greatest depth that was
counted is neither beyond the limit nor beyond the number of widgets. -/
structure Bounded (limit n : Nat) (s : Stats) : Prop where
  opened : n ≤ s.widgets
  deep : s.maxDepth ≤ s.widgets
  limited : s.maxDepth ≤ limit

theorem Bounded.mono {limit m n : Nat} {s : Stats} (h : Bounded limit n s) (hle : m ≤ n) :
    Bounded limit m s :=
  ⟨Nat.le_trans hle h.opened, h.deep, h.limited⟩

/-- Properties are counted apart from widgets. -/
theorem Bounded.join_properties {limit n : Nat} {s : Stats} (h : Bounded limit n s)
    (properties bindings : Nat) : Bounded limit n (s.join ⟨0, properties, bindings, 0⟩) :=
  ⟨by simpa [Stats.join] using h.opened, by simpa [Stats.join] using h.deep,
    by simpa [Stats.join] using h.limited⟩

/-- A widget that is opened inside `n` others is counted at the depth after theirs. -/
theorem Bounded.join_widget {limit n : Nat} {s : Stats} (h : Bounded limit n s)
    (hlimit : n + 1 ≤ limit) : Bounded limit (n + 1) (s.join ⟨1, 0, 0, n + 1⟩) := by
  have hopened := h.opened
  have hdeep := h.deep
  have hlimited := h.limited
  refine ⟨?_, ?_, ?_⟩
  · show n + 1 ≤ s.widgets + 1
    omega
  · show max s.maxDepth (n + 1) ≤ s.widgets + 1
    omega
  · show max s.maxDepth (n + 1) ≤ limit
    omega

theorem Bounded.join {limit : Nat} {a b : Stats} (ha : Bounded limit 0 a) (hb : Bounded limit 0 b) :
    Bounded limit 0 (a.join b) := by
  have hdeep := ha.deep
  have hdeep' := hb.deep
  refine ⟨Nat.zero_le _, ?_, Nat.max_le.mpr ⟨ha.limited, hb.limited⟩⟩
  show max a.maxDepth b.maxDepth ≤ a.widgets + b.widgets
  omega

namespace Compile

variable {σ α β : Type} {limit n : Nat}

/-- The action can be started with `n` open widgets, and leaves `after a` of them open when it
succeeds with `a`; when it fails, the counters are still within their bounds. -/
def Nests (limit n : Nat) (m : Compile σ α) (after : α → Nat) : Prop :=
  ∀ run, Bounded limit n run.stats →
    (∀ a run', m run = .ok a run' → Bounded limit (after a) run'.stats) ∧
      ∀ e run', m run = .error e run' → Bounded limit 0 run'.stats

theorem Nests.bind {m : Compile σ α} {f : α → Compile σ β} {between : α → Nat} {after : β → Nat}
    (hm : Nests limit n m between) (hf : ∀ a, Nests limit (between a) (f a) after) :
    Nests limit n (m >>= f) after := by
  intro run hrun
  obtain ⟨hok, herror⟩ := hm run hrun
  refine ⟨?_, ?_⟩
  · intro b run' h
    obtain ⟨a, run₁, hfirst, hsecond⟩ := bind_eq_ok_iff.mp h
    exact (hf a run₁ (hok a run₁ hfirst)).1 b run' hsecond
  · intro e run' h
    rcases bind_eq_error_iff.mp h with hfirst | ⟨a, run₁, hfirst, hsecond⟩
    · exact herror e run' hfirst
    · exact (hf a run₁ (hok a run₁ hfirst)).2 e run' hsecond

theorem nests_pure (a : α) (after : α → Nat) (h : after a ≤ n) :
    Nests limit n (pure a : Compile σ α) after := by
  intro run hrun
  refine ⟨?_, fun e run' heq => nomatch heq⟩
  intro b run' heq
  obtain ⟨rfl, rfl⟩ := EStateM.Result.ok.inj heq
  exact hrun.mono h

theorem nests_throw (e : Error) (after : α → Nat) :
    Nests limit n (throw e : Compile σ α) after := by
  intro run hrun
  refine ⟨fun a run' heq => (nomatch heq), ?_⟩
  intro e' run' heq
  obtain ⟨-, rfl⟩ := EStateM.Result.error.inj heq
  exact hrun.mono (Nat.zero_le n)

variable [TokenSource σ]

/-- Counters that stay within their bounds. -/
abbrev keeping (σ : Type) [TokenSource σ] (limit n : Nat) : Lockstep σ σ :=
  .counters fun a b => a = b ∧ Bounded limit n a

/-- An action that is in step with itself while counters are within their bounds keeps them
there. -/
theorem nests_of_inStep {m : Compile σ α} {R : α → α → Prop}
    (h : (keeping σ limit n).InStep R m m) : Nests limit n m fun _ => n := by
  intro run hrun
  have hresults := h run run ⟨rfl, rfl, rfl, hrun⟩
  refine ⟨?_, ?_⟩
  · intro a run' heq
    rw [heq] at hresults
    cases hresults with
    | ok _ hruns => exact hruns.stats.2
  · intro e run' heq
    rw [heq] at hresults
    cases hresults with
    | error _ hruns => exact hruns.stats.2.mono (Nat.zero_le n)

theorem nests_iterate {step : β → Compile σ (β ⊕ α)} {hstep : ∀ b, Advances (step b)}
    {opened : β → Nat}
    (h : ∀ b, Nests limit (opened b) (step b) (Sum.elim opened fun _ => 0)) (b : β) :
    Nests limit (opened b) (iterate step hstep b) fun _ => 0 := by
  intro run hrun
  show (∀ a run', iterateOn step hstep b run = .ok a run' → _) ∧
    ∀ e run', iterateOn step hstep b run = .error e run' → _
  fun_induction iterateOn step hstep b run with
  | case1 b run e run' hs =>
      constructor
      · intro a run'' heq
        cases heq
      · intro e' run'' heq
        obtain ⟨rfl, rfl⟩ := EStateM.Result.error.inj heq
        exact (h b run hrun).2 e run' hs
  | case2 b run a run' hs =>
      constructor
      · intro a' run'' heq
        obtain ⟨rfl, rfl⟩ := EStateM.Result.ok.inj heq
        exact (h b run hrun).1 _ run' hs
      · intro e run'' heq
        cases heq
  | case3 b run b' run' hs ih => exact ih ((h b run hrun).1 _ run' hs)

end Compile

open WidgetLayout.Compile WidgetLayout.Lockstep

namespace Document

variable {σ : Type} [TokenSource σ] (context : Context)

theorem nests_property (n : Nat) (entry : PropertyEntry) (name : Token) :
    Nests context.maxDepth n (property context entry name : Compile σ Unit) fun _ => n := by
  have hcounts : ∀ properties bindings,
      (keeping σ context.maxDepth n).Counts ⟨0, properties, bindings, 0⟩ := by
    intro properties bindings a b h
    obtain ⟨rfl, hbounded⟩ := h
    exact ⟨rfl, hbounded.join_properties properties bindings⟩
  exact nests_of_inStep (inStep_property context (hcounts 0 1) (hcounts 1 0) entry name name)

theorem nests_openWidget (n : Nat) (name : Token) :
    Nests context.maxDepth n (openWidget context (n + 1) name : Compile σ Unit) fun _ => n + 1 := by
  unfold openWidget
  by_cases hdepth : context.maxDepth < n + 1
  · rw [if_pos hdepth]
    exact nests_throw _ _
  · rw [if_neg hdepth]
    refine (nests_of_inStep (inStep_accept _)).bind fun _ => ?_
    cases context.symbols.widget? name.text with
    | none => exact nests_throw _ _
    | some entry =>
        refine (nests_of_inStep (inStep_write _)).bind fun _ =>
          (nests_of_inStep (inStep_record _ _)).bind fun _ => ?_
        intro run hrun
        refine ⟨?_, fun e run' heq => nomatch heq⟩
        intro _ run' heq
        obtain ⟨-, rfl⟩ := EStateM.Result.ok.inj heq
        exact hrun.join_widget (Nat.le_of_not_lt hdepth)

theorem nests_bodyItem (here : Section) (outer : List Section) :
    Nests context.maxDepth (outer.length + 1)
      (bodyItem context here outer : Compile σ (List Section)) List.length := by
  refine (nests_of_inStep inStep_expect).bind fun t => ?_
  have hend :
      Nests context.maxDepth (outer.length + 1) (endProperties here : Compile σ Unit) fun _ => _ :=
    nests_of_inStep (inStep_endProperties here)
  cases t.kind with
  | closeBrace =>
      exact hend.bind fun _ => (nests_of_inStep (inStep_write _)).bind fun _ =>
        nests_pure outer List.length (Nat.le_succ _)
  | identifier =>
      dsimp only
      cases context.symbols.property? t.text with
      | some entry =>
          cases here with
          | children => exact nests_throw _ _
          | properties =>
              exact (nests_property context _ entry t).bind fun _ =>
                nests_pure _ List.length (Nat.le_refl _)
      | none =>
          dsimp only
          cases context.symbols.widget? t.text with
          | some _ =>
              exact hend.bind fun _ => (nests_openWidget context (outer.length + 1) t).bind fun _ =>
                nests_pure _ List.length (Nat.le_refl _)
          | none => exact (nests_of_inStep inStep_peek).bind fun _ => nests_throw _ _
  | _ => exact nests_throw _ _

theorem nests_compile : Nests context.maxDepth 0 (compile context : Compile σ Unit) fun _ => 0 := by
  have hbody : ∀ sections : Section × List Section, Nests context.maxDepth (sections.2.length + 1)
      (bodyStep context sections : Compile σ _)
      (Sum.elim (fun s => s.2.length + 1) fun _ => 0) := by
    intro sections
    refine (nests_bodyItem context sections.1 sections.2).bind fun opened => nests_pure _ _ ?_
    cases opened with
    | nil => exact Nat.le_refl _
    | cons here outer => exact Nat.le_refl _
  refine (nests_of_inStep (inStep_accept _)).bind fun name =>
    (nests_openWidget context 0 name).bind fun _ =>
    (nests_iterate hbody (.properties, [])).bind fun _ =>
      (nests_of_inStep inStep_peek).bind fun front => ?_
  cases front with
  | none => exact nests_pure _ _ (Nat.le_refl _)
  | some t => exact nests_throw _ _

end Document

/-! ### One document after the other -/

section Documents

variable {σ : Type} [TokenSource σ] (context : Context)

/-- Whether a document compiles or not, it is nested no deeper than allowed and no deeper than it
has widgets. -/
theorem bounded_compileOnto (document : σ × Sink) :
    Bounded context.maxDepth 0 (compileOnto context .zero document).run.stats := by
  have hzero : Bounded context.maxDepth 0 .zero := ⟨Nat.le_refl _, Nat.le_refl _, Nat.zero_le _⟩
  obtain ⟨hok, herror⟩ :=
    Document.nests_compile (σ := σ) context ⟨document.1, document.2, .zero, #[]⟩ hzero
  unfold compileOnto Compile.outcome
  split
  · rename_i run' heq
    exact hok _ run' heq
  · rename_i e run' heq
    exact herror e run' heq

/-- Compiles documents one after the other, each into its own sink, with the same counters
throughout; a failure does not keep the next document from being compiled. -/
def compileEach : Stats → List (σ × Sink) → List (Outcome σ)
  | _, [] => []
  | stats, document :: documents =>
    let o := compileOnto context stats document
    o :: compileEach o.run.stats documents

/-- All counts put together. -/
def Stats.total (counts : List Stats) : Stats := counts.foldr join zero

theorem Stats.total_append (counts : List Stats) (c : Stats) :
    total (counts ++ [c]) = (total counts).join c := by
  induction counts with
  | nil => simp [total]
  | cons a counts ih =>
      show a.join (total (counts ++ [c])) = (a.join (total counts)).join c
      rw [ih, join_assoc]

/-- Totals are sums, but of depths the greatest counts. -/
theorem Stats.total_eq (counts : List Stats) :
    total counts =
      ⟨(counts.map widgets).sum, (counts.map properties).sum, (counts.map bindings).sum,
      (counts.map maxDepth).foldr max 0⟩ := by
  induction counts with
  | nil => rfl
  | cons a counts ih =>
      show a.join (total counts) = _
      rw [ih]
      rfl

theorem bounded_total {limit : Nat} {counts : List Stats} (h : ∀ c ∈ counts, Bounded limit 0 c) :
    Bounded limit 0 (.total counts) := by
  induction counts with
  | nil => exact ⟨Nat.le_refl _, Nat.le_refl _, Nat.zero_le _⟩
  | cons a counts ih =>
      exact (h a List.mem_cons_self).join (ih fun c hc => h c (List.mem_cons_of_mem a hc))

/-- A document finds the counters as all the documents before it have left them. -/
theorem getElem?_compileEach (documents : List (σ × Sink)) :
    ∀ (stats : Stats) (i : Nat), (compileEach context stats documents)[i]? =
      documents[i]?.map (compileOnto context (stats.join
        (.total ((documents.take i).map fun d => (compileOnto context .zero d).run.stats)))) := by
  induction documents with
  | nil =>
      intro stats i
      rfl
  | cons document documents ih =>
      intro stats i
      cases i with
      | zero => simp [compileEach, Stats.total]
      | succ i =>
          obtain ⟨-, -, -, hstats⟩ := compileOnto_eq context stats document
          rw [compileEach, List.getElem?_cons_succ, ih, hstats, Stats.join_assoc]
          rfl

theorem length_compileEach (documents : List (σ × Sink)) :
    ∀ stats, (compileEach context stats documents).length = documents.length := by
  induction documents with
  | nil =>
      intro stats
      rfl
  | cons document documents ih =>
      intro stats
      rw [compileEach, List.length_cons, List.length_cons, ih]

/-- **A compiler carries nothing but its counters from one document to the next.**  Of any documents
that are compiled one after the other, each has the bytes, the unread tokens and the result that it
has alone.  After each of them, failed ones included, what was counted is the sum of what was
counted for each alone, and the depth is the greatest of theirs; it is within the limit, and no more
than the number of widgets. -/
theorem compileEach_eq_fresh (documents : List (σ × Sink)) :
    let fresh := fun document => compileOnto context .zero document
    (compileEach context .zero documents).length = documents.length ∧
      ∀ i document, documents[i]? = some document →
        ∃ o, (compileEach context .zero documents)[i]? = some o ∧
          o.run.sink = (fresh document).run.sink ∧ o.run.source = (fresh document).run.source ∧
          o.result = (fresh document).result ∧
          let counts := (documents.take (i + 1)).map fun d => (fresh d).run.stats
          o.run.stats.widgets = (counts.map Stats.widgets).sum ∧
          o.run.stats.properties = (counts.map Stats.properties).sum ∧
          o.run.stats.bindings = (counts.map Stats.bindings).sum ∧
          o.run.stats.maxDepth = (counts.map Stats.maxDepth).foldr max 0 ∧
          o.run.stats.maxDepth ≤ context.maxDepth ∧ o.run.stats.maxDepth ≤ o.run.stats.widgets := by
  intro fresh
  refine ⟨length_compileEach context documents .zero, ?_⟩
  intro i document hdocument
  have hget := getElem?_compileEach context documents .zero i
  rw [hdocument, Option.map_some, Stats.zero_join] at hget
  refine ⟨_, hget, ?_⟩
  obtain ⟨hsink, hsource, hresult, hstats⟩ := compileOnto_eq context
    (.total ((documents.take i).map fun d => (fresh d).run.stats)) document
  refine ⟨hsink, hsource, hresult, ?_⟩
  intro counts
  have hcounts : counts = (documents.take i).map (fun d => (fresh d).run.stats) ++
      [(fresh document).run.stats] := by
    simp only [counts, List.take_add_one, hdocument, List.map_append]
    rfl
  have htotal := hstats
  rw [← Stats.total_append, ← hcounts] at htotal
  have hbounded : Bounded context.maxDepth 0 (.total counts) := by
    refine bounded_total fun c hc => ?_
    obtain ⟨d, -, rfl⟩ := List.mem_map.mp hc
    exact bounded_compileOnto context d
  rw [htotal]
  refine ⟨?_, ?_, ?_, ?_, hbounded.limited, hbounded.deep⟩
  all_goals rw [Stats.total_eq]

end Documents

/-- Two panels, one inside the other; then a panel with a margin that has a value and one that has
none. -/
def panelDocuments : List (List Token × Sink) :=
  [((tokenize "Panel \x7b Panel \x7b \x7d \x7d").dropLast, .unbounded),
    ((tokenize "Panel \x7b margin: 4; margin: ; \x7d").dropLast, .unbounded)]

/-- The second document fails, and what it had counted by then is counted with the first one. -/
theorem compileEach_eq_fresh_panels :
    panelDocuments[1]? =
      some ((tokenize "Panel \x7b margin: 4; margin: ; \x7d").dropLast, .unbounded) ∧
      ∃ o, (compileEach ⟨.shipped, .empty, 64⟩ .zero panelDocuments)[1]? = some o ∧
        o.result = .error (.invalidValue ⟨1, 28⟩ .marginCount) ∧ o.run.stats.widgets = 3 ∧
          o.run.stats.properties = 1 ∧ o.run.stats.bindings = 0 ∧ o.run.stats.maxDepth = 2 := by
  refine ⟨rfl, ?_⟩
  obtain ⟨-, hfresh⟩ := compileEach_eq_fresh ⟨.shipped, .empty, 64⟩ panelDocuments
  obtain ⟨o, ho, -, -, hresult, hwidgets, hproperties, hbindings, hdepth, -⟩ := hfresh 1 _ rfl
  have hcounts : (panelDocuments.take 2).map
      (fun d => (compileOnto ⟨.shipped, .empty, 64⟩ .zero d).run.stats) =
        [⟨2, 0, 0, 2⟩, ⟨1, 1, 0, 1⟩] := by
    decide +kernel
  rw [hcounts] at hwidgets hproperties hbindings hdepth
  refine ⟨o, ho, ?_, hwidgets, hproperties, hbindings, hdepth⟩
  rw [hresult]
  decide +kernel

end WidgetLayout
