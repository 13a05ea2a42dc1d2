/-
Decoding accepts exactly the forms of the trees that the tables know and that are not too deep.

`decodeStep` works on a stack of open widgets, while the form of a tree is defined by recursion on
the tree.  `Step` says what one step reads.  A tree is taken apart into steps by recursion on it
(`chain_children`); in the other direction `Completes` says what is still missing of all open
widgets, and every step taken back leaves that missing part one piece longer (`Step.completes`), so
that at the first step all of the tree is there.  A tree that is too deep is read up to the first
widget below the limit, and fails there (`decode_eq_error`).
-/
import WidgetLayout.Proofs.Reading

namespace WidgetLayout

open WidgetLayout.Progress WidgetLayout.Wire

variable {symbols : SymbolTables}

/-- The canonical form of a known property is one of its forms. -/
theorem Property.Known.form_encode {p : Property} (h : p.Known symbols) : p.Form p.encode := by
  refine Property.form_encode fun hvalue => ?_
  obtain ⟨-, entry, -, -, hsuits⟩ := h
  exact (hsuits _ hvalue).2.nonempty rfl

namespace Widget

mutual

/-- The tables have the tags of a tree under its names, and its properties; only a root may have tag
0. -/
def Known (symbols : SymbolTables) : Widget → Prop
  | ⟨name, tag, properties, children⟩ =>
    (∃ entry, symbols.widgetByTag? tag = some entry ∧ entry.name = name) ∧
      (∀ p ∈ properties, p.Known symbols) ∧ KnownAll symbols children

/-- The tables know the children of a widget. -/
def KnownAll (symbols : SymbolTables) : List Widget → Prop
  | [] => True
  | w :: ws => (w.tag ≠ terminator ∧ Known symbols w) ∧ KnownAll symbols ws

end

mutual

/-- The canonical form of a known tree is one of its forms. -/
theorem form_encode : (w : Widget) → w.Known symbols → w.Form w.encode
  | ⟨name, tag, properties, children⟩, hknown => by
      rw [Known] at hknown
      obtain ⟨-, hproperties, hchildren⟩ := hknown
      rw [Form, encode]
      exact ⟨_, _, joined_flatMap fun p hp => (hproperties p hp).form_encode,
        formAll_encodeAll children hchildren, rfl⟩

theorem formAll_encodeAll : (ws : List Widget) → KnownAll symbols ws → FormAll ws (encodeAll ws)
  | [], _ => by rw [FormAll, encodeAll]
  | w :: ws, hknown => by
      rw [KnownAll] at hknown
      rw [FormAll, encodeAll]
      exact ⟨_, _, form_encode w hknown.1.2, formAll_encodeAll ws hknown.2, rfl⟩

end

end Widget

namespace Decode

/-! ### Steps

One step reads a property, an end or the beginning of a child.  Which of these it is depends on
the section that the innermost widget is in, and on the first byte. -/

theorem reads_begin (symbols : SymbolTables) (depth : Nat) (t : UInt8) :
    Reads (begin symbols depth t) fun f bs => depth ≤ maxDecodeDepth ∧
      (∃ entry, symbols.widgetByTag? t = some entry ∧ f = ⟨entry.name, t, #[], #[]⟩) ∧ bs = [] := by
  unfold begin
  by_cases hdepth : maxDecodeDepth < depth
  · rw [if_pos hdepth]
    refine (Takes.throw _).congr fun f bs => ?_
    simp [Nat.not_le.mpr hdepth]
  · rw [if_neg hdepth]
    cases hentry : symbols.widgetByTag? t with
    | none =>
        refine (reads_refuse fun o => .unknownTag t (o - 1)).congr fun f bs => ?_
        simp
    | some entry =>
        refine (Takes.pure _).congr fun f bs => ?_
        simp [Nat.not_lt.mp hdepth, tape]

/-- What one step reads, and what it makes of the open widgets. -/
inductive Step (symbols : SymbolTables) : Open → Open ⊕ Widget → List UInt8 → Prop
  | property {here : Frame} {outer : List Frame} {p : Property} {bs : List UInt8}
      (hknown : p.Known symbols) (hform : p.Form bs) :
      Step symbols ⟨false, here, outer⟩
        (.inl ⟨false, { here with properties := here.properties.push p }, outer⟩) bs
  | endProperties {here : Frame} {outer : List Frame} :
      Step symbols ⟨false, here, outer⟩ (.inl ⟨true, here, outer⟩) [terminator]
  | child {here : Frame} {outer : List Frame} {t : UInt8} {entry : WidgetEntry}
      (hdepth : outer.length + 2 ≤ maxDecodeDepth) (ht : t ≠ terminator)
      (hentry : symbols.widgetByTag? t = some entry) :
      Step symbols ⟨true, here, outer⟩ (.inl ⟨false, ⟨entry.name, t, #[], #[]⟩, here :: outer⟩) [t]
  | finish {here : Frame} {outer : List Frame} :
      Step symbols ⟨true, here, outer⟩ (finish here outer) [terminator]

/-- The form of a known property does not begin with the byte that ends the properties. -/
theorem form_eq_cons {p : Property} {bs : List UInt8} (hknown : p.Known symbols)
    (hform : p.Form bs) : ∃ raw rest, bs = raw :: rest ∧ raw ≠ terminator := by
  obtain ⟨hid, entry, -, -, hvalue⟩ := hknown
  obtain ⟨name, id, value⟩ := p
  cases value with
  | literal v =>
      obtain ⟨payload, -, rfl⟩ := hform
      exact ⟨id, payload, rfl, (hvalue v rfl).1⟩
  | binding n =>
      obtain ⟨payload, -, rfl⟩ := hform
      refine ⟨_, payload, rfl, fun hzero => ?_⟩
      obtain ⟨-, hflag, -⟩ := Property.heads_of_id hid
      rw [hzero] at hflag
      exact hflag rfl

theorem reads_decodeStep (symbols : SymbolTables) (state : Open) :
    Reads (decodeStep symbols state) (Step symbols state) := by
  obtain ⟨inChildren, here, outer⟩ := state
  cases inChildren with
  | true =>
      refine (reads_tag.bind fun b => Takes.ite (Takes.pure _)
        ((reads_begin symbols _ b).bind_pure _)).congr fun r bs => ?_
      constructor
      · intro h
        obtain ⟨b, _, bs₂, rfl, h, rfl⟩ := h
        by_cases hb : b = terminator
        · rw [if_pos hb] at h
          obtain ⟨rfl, rfl⟩ := h
          rw [hb]
          exact .finish
        · rw [if_neg hb] at h
          obtain ⟨f, ⟨hdepth, ⟨entry, hentry, rfl⟩, rfl⟩, rfl⟩ := h
          exact .child hdepth hb hentry
      · intro h
        cases h with
        | child hdepth ht hentry =>
            refine ⟨_, _, [], rfl, ?_, rfl⟩
            rw [if_neg ht]
            exact ⟨_, ⟨hdepth, ⟨_, hentry, rfl⟩, rfl⟩, rfl⟩
        | finish => exact ⟨terminator, _, [], rfl, ⟨rfl, rfl⟩, rfl⟩
  | false =>
      -- a property is only read after a byte that does not end the properties
      refine (reads_tag.bind (H := fun b r bs =>
        if b = terminator then r = .inl ⟨true, here, outer⟩ ∧ bs = []
        else ∃ p, (p.Known symbols ∧ p.Form (b :: bs)) ∧
          Sum.inl ⟨false, { here with properties := here.properties.push p }, outer⟩ = r)
        fun b => ?_).congr fun r bs => ?_
      · by_cases hb : b = terminator
        · simp only [if_pos hb]
          exact Takes.pure _
        · simp only [if_neg hb]
          exact (reads_property symbols hb).bind_pure _
      constructor
      · intro h
        obtain ⟨b, _, bs₂, rfl, h, rfl⟩ := h
        by_cases hb : b = terminator
        · rw [if_pos hb] at h
          obtain ⟨rfl, rfl⟩ := h
          rw [hb]
          exact .endProperties
        · rw [if_neg hb] at h
          obtain ⟨p, ⟨hknown, hform⟩, rfl⟩ := h
          exact .property hknown hform
      · intro h
        cases h with
        | property hknown hform =>
            obtain ⟨raw, rest, rfl, hraw⟩ := form_eq_cons hknown hform
            refine ⟨raw, [raw], rest, rfl, ?_, rfl⟩
            rw [if_neg hraw]
            exact ⟨_, ⟨hknown, hform⟩, rfl⟩
        | endProperties => exact ⟨terminator, _, [], rfl, ⟨rfl, rfl⟩, rfl⟩

/-! ### A tree is read in steps

Inside open widgets a tree is read as the next child of the innermost one.  The recursion is on the
tree; `widget` leaves the stack as it found it, so its children can be read one after the other. -/

/-- A frame with more properties and children. -/
def Frame.add (f : Frame) (properties : List Property) (children : List Widget) : Frame :=
  { f with properties := f.properties ++ properties, children := f.children ++ children }

theorem Frame.close_add (name : String) (tag : UInt8) (properties : List Property)
    (children : List Widget) :
    (Frame.add ⟨name, tag, #[], #[]⟩ properties children).close =
      ⟨name, tag, properties, children⟩ := by
  simp [Frame.add, Frame.close]

theorem Frame.add_property (f : Frame) (p : Property) (properties : List Property)
    (children : List Widget) :
    Frame.add { f with properties := f.properties.push p } properties children =
      f.add (p :: properties) children := by
  simp [Frame.add]

theorem Frame.add_child (f : Frame) (w : Widget) (children : List Widget) :
    Frame.add { f with children := f.children.push w } [] children = f.add [] (w :: children) := by
  simp [Frame.add]

theorem chain_properties {outer : List Frame} (ps : List Property)
    (hknown : ∀ p ∈ ps, p.Known symbols) :
    ∀ {here : Frame} {bs : List UInt8}, Joined Property.Form ps bs →
      Chain tape (Step symbols) ⟨false, here, outer⟩ bs ⟨false, here.add ps [], outer⟩ := by
  induction ps with
  | nil =>
      intro here bs hbs
      obtain rfl : bs = [] := hbs
      have hadd : here.add [] [] = here := by simp [Frame.add]
      rw [hadd]
      exact .refl _
  | cons p ps ih =>
      intro here bs hbs
      obtain ⟨bs₁, bs₂, hp, hps, rfl⟩ := hbs
      rw [← Frame.add_property]
      exact .head (.property (hknown p (by simp)) hp) (ih (fun x hx => hknown x (by simp [hx])) hps)

/-- A child is read between two other children once the reading of what is inside it is known. -/
theorem chain_child {w : Widget} {here : Frame} {outer : List Frame} {inside : List UInt8}
    (hdepth : outer.length + 2 ≤ maxDecodeDepth) (htag : w.tag ≠ terminator)
    (hknown : w.Known symbols)
    (hinside : Chain tape (Step symbols) ⟨false, ⟨w.name, w.tag, #[], #[]⟩, here :: outer⟩ inside
      ⟨true, Frame.add ⟨w.name, w.tag, #[], #[]⟩ w.properties w.children, here :: outer⟩) :
    Chain tape (Step symbols) ⟨true, here, outer⟩ (w.tag :: inside ++ [terminator])
      ⟨true, { here with children := here.children.push w }, outer⟩ := by
  obtain ⟨name, tag, properties, children⟩ := w
  rw [Widget.Known] at hknown
  obtain ⟨⟨entry, hentry, rfl⟩, -⟩ := hknown
  have hend : Step symbols ⟨true, Frame.add ⟨entry.name, tag, #[], #[]⟩ properties children,
      here :: outer⟩ _ [terminator] := .finish
  rw [finish, Frame.close_add] at hend
  exact (Chain.head (.child hdepth htag hentry) hinside).trans (Chain.single hend)

mutual

/-- What is inside a widget is read from its beginning to the byte that ends it. -/
theorem chain_inside : (w : Widget) → (outer : List Frame) → ∀ {bs : List UInt8}, w.Known symbols →
    w.Form bs → w.height ≤ maxDecodeDepth - outer.length →
      ∃ inside, bs = w.tag :: inside ++ [terminator] ∧
        Chain tape (Step symbols) ⟨false, ⟨w.name, w.tag, #[], #[]⟩, outer⟩ inside
          ⟨true, Frame.add ⟨w.name, w.tag, #[], #[]⟩ w.properties w.children, outer⟩
  | ⟨name, tag, properties, children⟩, outer, bs, hknown, hform, hheight => by
      rw [Widget.Known] at hknown
      rw [Widget.Form] at hform
      rw [Widget.height] at hheight
      obtain ⟨-, hproperties, hchildren⟩ := hknown
      obtain ⟨ps, cs, hps, hcs, rfl⟩ := hform
      refine ⟨ps ++ terminator :: cs, by simp, ?_⟩
      have hcs := chain_children children (Frame.add ⟨name, tag, #[], #[]⟩ properties []) outer
        hchildren hcs (by omega)
      have hadd : (Frame.add ⟨name, tag, #[], #[]⟩ properties []).add [] children =
          Frame.add ⟨name, tag, #[], #[]⟩ properties children := by
        simp [Frame.add]
      rw [hadd] at hcs
      exact (chain_properties properties hproperties hps).trans (.head .endProperties hcs)

/-- Children are read one after the other. -/
theorem chain_children : (ws : List Widget) → (here : Frame) → (outer : List Frame) →
    ∀ {bs : List UInt8}, Widget.KnownAll symbols ws → Widget.FormAll ws bs →
      Widget.heightAll ws ≤ maxDecodeDepth - (outer.length + 1) →
      Chain tape (Step symbols) ⟨true, here, outer⟩ bs ⟨true, here.add [] ws, outer⟩
  | [], here, outer, bs, _, hform, _ => by
      rw [Widget.FormAll] at hform
      have hadd : here.add [] [] = here := by simp [Frame.add]
      rw [hform, hadd]
      exact .refl _
  | w :: ws, here, outer, bs, hknown, hform, hheight => by
      rw [Widget.KnownAll] at hknown
      rw [Widget.FormAll] at hform
      rw [Widget.heightAll] at hheight
      obtain ⟨⟨htag, hw⟩, hws⟩ := hknown
      obtain ⟨bs₁, bs₂, hbs₁, hbs₂, rfl⟩ := hform
      have hrest := chain_children ws { here with children := here.children.push w } outer
        hws hbs₂ (by omega)
      rw [Frame.add_child] at hrest
      have hpos := Widget.height_pos w
      obtain ⟨inside, rfl, hinside⟩ := chain_inside w (here :: outer) hw hbs₁
        (Nat.le_trans (Nat.le_max_left _ _) hheight)
      exact (chain_child (by omega) htag hw hinside).trans hrest

end

/-! ### What steps have read is a tree

`Completes` says of open widgets which tree they become and which bytes are missing: the rest of the
innermost one, then for each widget around it the children that come after it.  The bound on heights
subtracts the depth, so it says nothing where there are no more children. -/

/-- Children still to come at a depth, with the byte that ends them. -/
def ChildrenLeft (symbols : SymbolTables) (depth : Nat) (cs : List Widget)
    (bs : List UInt8) : Prop :=
  Widget.KnownAll symbols cs ∧ Widget.heightAll cs ≤ maxDecodeDepth - depth ∧
    ∃ b, Widget.FormAll cs b ∧ bs = b ++ [terminator]

/-- What is still to come of a widget at a depth. -/
def WidgetLeft (symbols : SymbolTables) (depth : Nat) :
    Bool → List Property → List Widget → List UInt8 → Prop
  | true, ps, cs, bs => ps = [] ∧ ChildrenLeft symbols depth cs bs
  | false, ps, cs, bs => (∀ p ∈ ps, p.Known symbols) ∧
    ∃ b b', Joined Property.Form ps b ∧ ChildrenLeft symbols depth cs b' ∧
    bs = b ++ terminator :: b'

/-- The tree and the missing bytes once a widget is closed inside others. -/
def Closes (symbols : SymbolTables) (closed : Widget) : List Frame → Widget → List UInt8 → Prop
  | [], w, bs => w = closed ∧ bs = []
  | parent :: outer, w, bs => ∃ cs b b', ChildrenLeft symbols (outer.length + 1) cs b ∧
    Closes symbols (parent.add [] (closed :: cs)).close outer w b' ∧ bs = b ++ b'

/-- The tree that open widgets become and the bytes missing of it. -/
def Completes (symbols : SymbolTables) (state : Open) (w : Widget) (bs : List UInt8) : Prop :=
  ∃ ps cs b b', WidgetLeft symbols (state.outer.length + 1) state.inChildren ps cs b ∧
    Closes symbols (state.here.add ps cs).close state.outer w b' ∧ bs = b ++ b'

theorem childrenLeft_nil (depth : Nat) : ChildrenLeft symbols depth [] [terminator] := by
  refine ⟨?_, ?_, [], ?_, rfl⟩
  · rw [Widget.KnownAll]
    trivial
  · rw [Widget.heightAll]
    exact Nat.zero_le _
  · rw [Widget.FormAll]

/-- A child that is still to come stands before the children that come after it. -/
theorem childrenLeft_cons {depth : Nat} {t : UInt8} {entry : WidgetEntry} {ps : List Property}
    {cs cs' : List Widget} {b b' : List UInt8} (hdepth : depth + 1 ≤ maxDecodeDepth)
    (ht : t ≠ terminator) (hentry : symbols.widgetByTag? t = some entry)
    (hinside : WidgetLeft symbols (depth + 1) false ps cs b)
    (hafter : ChildrenLeft symbols depth cs' b') :
    ChildrenLeft symbols depth (⟨entry.name, t, ps, cs⟩ :: cs') (t :: b ++ b') := by
  obtain ⟨hps, bp, _, hbp, ⟨hcs, hheight, bc, hbc, rfl⟩, rfl⟩ := hinside
  obtain ⟨hcs', hheight', bc', hbc', rfl⟩ := hafter
  refine ⟨?_, ?_, t :: bp ++ terminator :: bc ++ [terminator] ++ bc', ?_, by simp⟩
  · rw [Widget.KnownAll, Widget.Known]
    exact ⟨⟨ht, ⟨entry, hentry, rfl⟩, hps, hcs⟩, hcs'⟩
  · rw [Widget.heightAll, Widget.height]
    omega
  · rw [Widget.FormAll]
    refine ⟨t :: bp ++ terminator :: bc ++ [terminator], bc', ?_, hbc', rfl⟩
    rw [Widget.Form]
    exact ⟨bp, bc, hbp, hbc, rfl⟩

/-- Taking a step back, the bytes that it read are missing again. -/
theorem Step.completes {state : Open} {r : Open ⊕ Widget} {q : List UInt8}
    (h : Step symbols state r q) :
    match r with
    | .inl state' => ∀ {w bs}, Completes symbols state' w bs → Completes symbols state w (q ++ bs)
    | .inr w => Completes symbols state w q := by
  cases h with
  | @property here outer p _ hknown hform =>
      intro w bs h
      obtain ⟨ps, cs, _, b', ⟨hps, bp, bc, hbp, hcs, rfl⟩, hcloses, rfl⟩ := h
      refine ⟨p :: ps, cs, q ++ (bp ++ terminator :: bc), b', ⟨?_, ?_⟩, ?_, by simp⟩
      · exact List.forall_mem_cons.mpr ⟨hknown, hps⟩
      · exact ⟨q ++ bp, bc, ⟨q, bp, hform, hbp, rfl⟩, hcs, by simp⟩
      · rw [← Frame.add_property]
        exact hcloses
  | @endProperties here outer =>
      intro w bs h
      obtain ⟨ps, cs, b, b', ⟨rfl, hcs⟩, hcloses, rfl⟩ := h
      exact ⟨[], cs, terminator :: b, b', ⟨by simp, [], b, rfl, hcs, rfl⟩, hcloses, rfl⟩
  | @child here outer t entry hdepth ht hentry =>
      intro w bs h
      obtain ⟨ps, cs, b, _, hinside, ⟨cs', b', b'', hafter, hcloses, rfl⟩, rfl⟩ := h
      rw [Frame.close_add] at hcloses
      refine ⟨[], _, t :: b ++ b', b'', ⟨rfl, ?_⟩, hcloses, by simp⟩
      exact childrenLeft_cons hdepth ht hentry hinside hafter
  | @finish here outer =>
      have hadd : here.add [] [] = here := by simp [Frame.add]
      cases outer with
      | nil =>
          refine ⟨[], [], [terminator], [], ⟨rfl, childrenLeft_nil _⟩, ⟨?_, rfl⟩, rfl⟩
          rw [hadd]
      | cons parent outer =>
          intro w bs h
          obtain ⟨ps, cs, b, b', ⟨rfl, hcs⟩, hcloses, rfl⟩ := h
          refine ⟨[], [], [terminator], b ++ b', ⟨rfl, childrenLeft_nil _⟩, ?_, rfl⟩
          rw [hadd]
          rw [Frame.add_child] at hcloses
          exact ⟨cs, b, b', hcs, hcloses, rfl⟩

/-- Whatever the steps from open widgets to a tree have read was missing at the first of them. -/
theorem completes_of_rounds {state : Open} {w : Widget} {bs : List UInt8}
    (h : Rounds tape (Step symbols) state w bs) : Completes symbols state w bs := by
  obtain ⟨last, bs₁, bs₂, hchain, hlast, rfl⟩ := h
  induction hchain with
  | refl state => exact hlast.completes
  | head hround _ ih =>
      rw [tape.append_assoc]
      exact hround.completes (ih hlast)

/-! ### Documents -/

/-- **Reading a root takes the forms of the known trees that are not too deep.** -/
theorem reads_root (symbols : SymbolTables) :
    Reads (root symbols) fun w bs => w.Known symbols ∧ w.height ≤ maxDecodeDepth ∧ w.Form bs := by
  refine (reads_tag.bind fun t => (reads_begin symbols 1 t).bind fun frame =>
    Takes.iterate (reads_decodeStep symbols) _).congr fun w bs => ?_
  constructor
  · intro h
    obtain ⟨t, _, _, rfl, ⟨frame, _, bs, ⟨hdepth, ⟨entry, hentry, rfl⟩, rfl⟩, hrounds, rfl⟩, rfl⟩ :=
      h
    obtain ⟨ps, cs, _, _, ⟨hps, bp, _, hbp, ⟨hcs, hheight, bc, hbc, rfl⟩, rfl⟩, ⟨hw, rfl⟩, rfl⟩ :=
      completes_of_rounds hrounds
    rw [Frame.close_add] at hw
    rw [hw]
    refine ⟨?_, ?_, ?_⟩
    · rw [Widget.Known]
      exact ⟨⟨entry, hentry, rfl⟩, hps, hcs⟩
    · have hheight : Widget.heightAll cs ≤ maxDecodeDepth - 1 := hheight
      rw [Widget.height]
      omega
    · rw [Widget.Form]
      exact ⟨bp, bc, hbp, hbc, by simp [tape]⟩
  · intro h
    obtain ⟨hknown, hheight, hform⟩ := h
    obtain ⟨inside, rfl, hchain⟩ := chain_inside w [] hknown hform hheight
    obtain ⟨name, tag, properties, children⟩ := w
    rw [Widget.Known] at hknown
    obtain ⟨⟨entry, hentry, rfl⟩, -⟩ := hknown
    have hend : Step symbols ⟨true, Frame.add ⟨entry.name, tag, #[], #[]⟩ properties children, []⟩ _
        [terminator] := .finish
    rw [finish, Frame.close_add] at hend
    have hdepth : 1 ≤ maxDecodeDepth := by decide
    exact ⟨tag, [tag], inside ++ [terminator], rfl, ⟨_, [], _, ⟨hdepth, ⟨entry, hentry, rfl⟩, rfl⟩,
      ⟨_, _, _, hchain, hend, rfl⟩, rfl⟩, rfl⟩

/-- Bytes decode to a tree exactly if reading its root takes all of them. -/
theorem decode_eq_ok_iff_root {bytes : List UInt8} {w : Widget} :
    decode symbols bytes = .ok w ↔ ∃ c, root symbols (.start bytes) = .ok w c ∧ c.rest = [] := by
  unfold decode
  cases root symbols (.start bytes) with
  | error e c => simp
  | ok w' c =>
      dsimp only
      constructor
      · intro h
        by_cases hrest : c.rest.isEmpty
        · rw [if_pos hrest] at h
          obtain rfl := Except.ok.inj h
          exact ⟨c, rfl, List.isEmpty_iff.mp hrest⟩
        · rw [if_neg hrest] at h
          cases h
      · rintro ⟨c', heq, hrest⟩
        obtain ⟨rfl, rfl⟩ := EStateM.Result.ok.inj heq
        rw [if_pos (List.isEmpty_iff.mpr hrest)]

/-- **Bytes decode to a tree exactly if they are a form of it, the tables know it and it is not too
deep.** -/
theorem decode_eq_ok_iff {bytes : List UInt8} {w : Widget} :
    decode symbols bytes = .ok w ↔
      w.Known symbols ∧ w.height ≤ maxDecodeDepth ∧ w.Form bytes := by
  rw [decode_eq_ok_iff_root]
  constructor
  · rintro ⟨c, hroot, hrest⟩
    obtain ⟨bs, hw, hmoves, -⟩ := (reads_root symbols).sound trivial hroot
    have hmoves : bytes = bs ++ c.rest := hmoves
    rw [hrest, List.append_nil] at hmoves
    rw [hmoves]
    exact hw
  · intro h
    obtain ⟨c, hroot, hc⟩ :=
      (reads_root symbols).complete (x := .start bytes) (z := ⟨bytes.length, []⟩)
      trivial h ⟨(List.append_nil bytes).symm, (Nat.zero_add _).symm⟩
    obtain rfl : c = ⟨bytes.length, []⟩ := hc
    exact ⟨_, hroot, rfl⟩

/-! ### Trees that are too deep

The bytes of such a tree are read without a fault up to the first widget that is too deep.  Where
that one stands the reading fails, whatever follows. -/

theorem advances_decodeStep (symbols : SymbolTables) (state : Open) :
    Advances (decodeStep symbols state) :=
  (shrinks_decodeStep symbols state).advances

/-- A root is read on from its tag. -/
theorem root_cons {t : UInt8} {entry : WidgetEntry} (hentry : symbols.widgetByTag? t = some entry)
    (bs : List UInt8) :
    root symbols (.start (t :: bs)) = iterateOn (decodeStep symbols) (advances_decodeStep symbols)
      ⟨false, ⟨entry.name, t, #[], #[]⟩, []⟩ ⟨1, bs⟩ := by
  have htag : tag (.start (t :: bs)) = .ok t ⟨1, bs⟩ := rfl
  have hbegin : begin symbols 1 t = pure ⟨entry.name, t, #[], #[]⟩ := by
    unfold begin
    rw [if_neg (by decide), hentry]
  unfold root
  rw [bind_of_ok htag, hbegin]
  rfl

/-- Reading on from open widgets, where some bytes lie ahead, ends at the limit of the depth. -/
def Overflows (symbols : SymbolTables) (state : Open) (bs : List UInt8) : Prop :=
  ∀ c : Cursor, (∃ rest, c.rest = bs ++ rest) → ∃ c',
    iterateOn (decodeStep symbols) (advances_decodeStep symbols) state c =
      .error (.limitExceeded .decodedDepth maxDecodeDepth) c'

theorem Overflows.append {state : Open} {bs : List UInt8} (h : Overflows symbols state bs)
    (bs' : List UInt8) : Overflows symbols state (bs ++ bs') := by
  intro c hc
  obtain ⟨rest, hrest⟩ := hc
  exact h c ⟨bs' ++ rest, by rw [hrest, List.append_assoc]⟩

theorem Overflows.of_chain {state state' : Open} {bs bs' : List UInt8}
    (hchain : Chain tape (Step symbols) state bs state') (h : Overflows symbols state' bs') :
    Overflows symbols state (bs ++ bs') := by
  intro c hc
  obtain ⟨rest, hrest⟩ := hc
  have hmoves : tape.Moves (tape.view c) bs ⟨c.offset + bs.length, bs' ++ rest⟩ :=
    ⟨by rw [← List.append_assoc]; exact hrest, rfl⟩
  obtain ⟨d, heq, -, hd⟩ := iterateOn_of_chain (reads_decodeStep symbols) hchain trivial hmoves
  obtain rfl : d = ⟨c.offset + bs.length, bs' ++ rest⟩ := hd
  rw [heq]
  exact h _ ⟨rest, rfl⟩

/-- Below the limit the tag of a child is read, and then the reading fails. -/
theorem overflows_tag {here : Frame} {outer : List Frame} {t : UInt8}
    (hdepth : maxDecodeDepth < outer.length + 2) (ht : t ≠ terminator) :
    Overflows symbols ⟨true, here, outer⟩ [t] := by
  intro c hc
  obtain ⟨rest, hrest⟩ := hc
  obtain ⟨d, htag, -⟩ :=
    reads_tag.complete (x := c) (z := ⟨c.offset + 1, rest⟩) trivial rfl ⟨hrest, rfl⟩
  have hstep : decodeStep symbols ⟨true, here, outer⟩ c =
      .error (.limitExceeded .decodedDepth maxDecodeDepth) d := by
    unfold decodeStep
    rw [bind_of_ok htag]
    simp only [if_neg ht, begin, if_pos hdepth]
    rfl
  exact ⟨d, iterateOn_of_error hstep⟩

/-- A child fails because of its own depth or because of what is inside it. -/
theorem overflows_child {w : Widget} {here : Frame} {outer : List Frame} {inside : List UInt8}
    (htag : w.tag ≠ terminator) (hknown : w.Known symbols)
    (hinside : (here :: outer).length < maxDecodeDepth →
      Overflows symbols ⟨false, ⟨w.name, w.tag, #[], #[]⟩, here :: outer⟩ inside) :
    Overflows symbols ⟨true, here, outer⟩ (w.tag :: inside ++ [terminator]) := by
  by_cases hdepth : outer.length + 2 ≤ maxDecodeDepth
  · obtain ⟨name, tag, properties, children⟩ := w
    rw [Widget.Known] at hknown
    obtain ⟨⟨entry, hentry, rfl⟩, -⟩ := hknown
    exact (Overflows.of_chain (Chain.single (.child hdepth htag hentry)) (hinside hdepth)).append _
  · exact (overflows_tag (Nat.lt_of_not_le hdepth) htag).append (inside ++ [terminator])

mutual

theorem overflows_inside :
    (w : Widget) → (outer : List Frame) → ∀ {bs : List UInt8}, w.Known symbols →
    w.Form bs → maxDecodeDepth - outer.length < w.height →
      ∃ inside, bs = w.tag :: inside ++ [terminator] ∧ (outer.length < maxDecodeDepth →
        Overflows symbols ⟨false, ⟨w.name, w.tag, #[], #[]⟩, outer⟩ inside)
  | ⟨name, tag, properties, children⟩, outer, bs, hknown, hform, hheight => by
      rw [Widget.Known] at hknown
      rw [Widget.Form] at hform
      rw [Widget.height] at hheight
      obtain ⟨-, hproperties, hchildren⟩ := hknown
      obtain ⟨ps, cs, hps, hcs, rfl⟩ := hform
      refine ⟨ps ++ terminator :: cs, by simp, ?_⟩
      intro houter
      have hover :=
        overflows_children children (Frame.add ⟨name, tag, #[], #[]⟩ properties []) outer
        hchildren hcs (by omega)
      exact .of_chain (chain_properties properties hproperties hps)
        (.of_chain (Chain.single .endProperties) hover)

theorem overflows_children : (ws : List Widget) → (here : Frame) → (outer : List Frame) →
    ∀ {bs : List UInt8}, Widget.KnownAll symbols ws → Widget.FormAll ws bs →
      maxDecodeDepth - (outer.length + 1) < Widget.heightAll ws →
      Overflows symbols ⟨true, here, outer⟩ bs
  | [], here, outer, bs, _, _, hheight => by
      rw [Widget.heightAll] at hheight
      omega
  | w :: ws, here, outer, bs, hknown, hform, hheight => by
      rw [Widget.KnownAll] at hknown
      rw [Widget.FormAll] at hform
      rw [Widget.heightAll] at hheight
      obtain ⟨⟨htag, hw⟩, hws⟩ := hknown
      obtain ⟨bs₁, bs₂, hbs₁, hbs₂, rfl⟩ := hform
      -- the first child fails if it is too deep; otherwise it is read and a later one fails
      by_cases hfirst : w.height ≤ maxDecodeDepth - (outer.length + 1)
      · have hpos := Widget.height_pos w
        obtain ⟨inside, rfl, hinside⟩ := chain_inside w (here :: outer) hw hbs₁ hfirst
        refine .of_chain (chain_child (by omega) htag hw hinside) ?_
        exact overflows_children ws _ outer hws hbs₂ (by omega)
      · obtain ⟨inside, rfl, hinside⟩ := overflows_inside w (here :: outer) hw hbs₁
          (Nat.lt_of_not_le hfirst)
        exact (overflows_child htag hw hinside).append bs₂

end

/-- **Bytes of a known tree that is too deep are refused for its depth.** -/
theorem decode_eq_error {bytes : List UInt8} {w : Widget} (hknown : w.Known symbols)
    (hform : w.Form bytes) (hheight : maxDecodeDepth < w.height) :
    decode symbols bytes = .error (.limitExceeded .decodedDepth maxDecodeDepth) := by
  have hpos : 0 < maxDecodeDepth := by decide
  obtain ⟨inside, rfl, hover⟩ := overflows_inside w [] hknown hform hheight
  obtain ⟨name, t, properties, children⟩ := w
  rw [Widget.Known] at hknown
  obtain ⟨⟨entry, hentry, rfl⟩, -⟩ := hknown
  obtain ⟨c, hiterate⟩ := hover hpos ⟨1, inside ++ [terminator]⟩ ⟨[terminator], rfl⟩
  unfold decode
  rw [List.cons_append, root_cons hentry, hiterate]

end Decode

end WidgetLayout
