/-
The grammar of layouts: which tokens spell a tree, and what is counted of one.

A tree is spelled as the name of its widget and, between braces, its properties and then its
children.  Names are looked up in the tables of the context; a name that is both a property and a
widget is read as a property, so no child can be spelled with it.  A literal that begins with the
word `bind` could not be told from a binding and spells no property; neither does one too long for
its count to be written.
-/
import WidgetLayout.Proofs.Form
import WidgetLayout.Proofs.Literal

namespace WidgetLayout

/-! ### Spellings

A name that is both that of a property and that of a widget is taken for the property.  So no
child may begin with the name of a property. -/

/-- The tokens of a property: its name, a colon, and a literal of its type or a binding. -/
inductive Property.Spelled (context : Context) : Property → List Token → Prop
  | literal {entry : PropertyEntry} {name colon : Token} {v : Value} {l : List Token}
      (hname : name.kind = .identifier)
      (hentry : context.symbols.property? name.text = some entry) (hcolon : colon.kind = .colon)
      (hl : Literal.Spelled context.symbols context.bindings.resources entry.type v l)
      (hbind : ∀ t, l.head? = some t → t.isWord "bind" = false) (hfits : v.Fits) :
      Spelled context ⟨entry.name, entry.id, .literal v⟩ (name :: colon :: l)
  | binding {entry : PropertyEntry}
      {name colon word opening source closing semi : Token} {id : UInt32}
      (hname : name.kind = .identifier)
      (hentry : context.symbols.property? name.text = some entry) (hcolon : colon.kind = .colon)
      (hword : word.isWord "bind" = true) (hopening : opening.kind = .openParens)
      (hsource : source.kind = .string) (hclosing : closing.kind = .closeParens)
      (hsemi : semi.kind = .semicolon)
      (hid : context.bindings.properties.get? source.text = some id) :
      Spelled context ⟨entry.name, entry.id, .binding id⟩
        [name, colon, word, opening, source, closing, semi]

/-- A spelling of a property begins with the name of a property. -/
theorem Property.Spelled.head {context : Context} {p : Property} {t : Token} {l : List Token}
    (h : p.Spelled context (t :: l)) :
    t.kind = .identifier ∧ context.symbols.property? t.text ≠ none := by
  cases h with
  | literal hname hentry => exact ⟨hname, by rw [hentry]; exact Option.some_ne_none _⟩
  | binding hname hentry => exact ⟨hname, by rw [hentry]; exact Option.some_ne_none _⟩

namespace Widget

mutual

/-- The tokens of a tree. -/
def Spelled (context : Context) : Widget → List Token → Prop
  | ⟨name, tag, properties, children⟩, l =>
    ∃ word opening closing ps cs, word.kind = .identifier ∧
      context.symbols.widget? word.text = some ⟨name, tag⟩ ∧ opening.kind = .openBrace ∧
        closing.kind = .closeBrace ∧ Joined (Property.Spelled context) properties ps ∧
          ChildrenSpelled context children cs ∧ l = word :: opening :: ps ++ cs ++ [closing]

/-- The tokens of children, none of which begins with the name of a property. -/
def ChildrenSpelled (context : Context) : List Widget → List Token → Prop
  | [], l => l = []
  | w :: ws, l => ∃ l₁ l₂, Spelled context w l₁ ∧
    (∀ t, l₁.head? = some t → context.symbols.property? t.text = none) ∧
      ChildrenSpelled context ws l₂ ∧ l = l₁ ++ l₂

end

end Widget

/-! ### Counts

What compiling counts is said of trees here, so that counters can be compared without running
anything. -/

/-- Whether a value is a literal. -/
def PropertyValue.isLiteral : PropertyValue → Bool
  | .literal _ => true
  | .binding _ => false

/-- How many of some properties have a literal, and how many are bound. -/
def Property.tally (ps : List Property) : Stats where
  widgets := 0
  properties := ps.countP fun p => p.value.isLiteral
  bindings := ps.countP fun p => !p.value.isLiteral
  maxDepth := 0

theorem Property.tally_cons (p : Property) (ps : List Property) :
    Property.tally (p :: ps) = (Property.tally [p]).join (Property.tally ps) := by
  simp [Property.tally, Stats.join, List.countP_cons, Nat.add_comm]

namespace Widget

mutual

/-- How many properties of a tree satisfy a condition. -/
def countProperties (f : Property → Bool) : Widget → Nat
  | ⟨_, _, properties, children⟩ => properties.countP f + countPropertiesAll f children

/-- How many properties of several trees satisfy a condition. -/
def countPropertiesAll (f : Property → Bool) : List Widget → Nat
  | [] => 0
  | w :: ws => countProperties f w + countPropertiesAll f ws

end

mutual

/-- What compiling a tree counts, when its root is at a depth. -/
def tally (depth : Nat) : Widget → Stats
  | ⟨_, _, properties, children⟩ =>
    (Stats.mk 1 0 0 depth).join ((Property.tally properties).join (tallyAll (depth + 1) children))

/-- What compiling several trees at a depth counts. -/
def tallyAll (depth : Nat) : List Widget → Stats
  | [] => .zero
  | w :: ws => (tally depth w).join (tallyAll depth ws)

end

mutual

/-- What is counted of a tree are its widgets, its literals and its bindings, and how deep it
goes. -/
theorem tally_eq : (w : Widget) → ∀ depth : Nat, w.tally (depth + 1) =
    ⟨w.count, w.countProperties fun p => p.value.isLiteral,
      w.countProperties fun p => !p.value.isLiteral, depth + w.height⟩
  | ⟨name, tag, properties, children⟩, depth => by
      have hchildren := join_tallyAll children (depth + 1)
      rw [tally, count, countProperties, countProperties, height, ← Nat.add_assoc]
      simp only [Stats.join, Property.tally, Stats.mk.injEq] at hchildren ⊢
      omega

/-- A widget around several trees is as deep as the deepest of them, or as itself. -/
theorem join_tallyAll : (ws : List Widget) → ∀ depth : Nat,
    (Stats.mk 0 0 0 depth).join (tallyAll (depth + 1) ws) =
      ⟨countAll ws, countPropertiesAll (fun p => p.value.isLiteral) ws,
        countPropertiesAll (fun p => !p.value.isLiteral) ws, depth + heightAll ws⟩
  | [], depth => by
      rw [tallyAll, countAll, countPropertiesAll, countPropertiesAll, heightAll]
      exact Stats.join_zero _
  | w :: ws, depth => by
      have hw := tally_eq w depth
      have hws := join_tallyAll ws depth
      rw [tallyAll, hw, countAll, countPropertiesAll, countPropertiesAll, heightAll]
      simp only [Stats.join, Stats.mk.injEq] at hws ⊢
      omega

end

end Widget

end WidgetLayout
