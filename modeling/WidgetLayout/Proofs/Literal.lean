/-
Literals are read exactly as they are spelled.

`Spelled` is the grammar of literals, with the values they stand for: each item is one token, items
are separated by commas, and every literal ends with its semicolon.  For every type, reading a
literal succeeds on the spellings of its values and on nothing else, and only takes tokens
(`does_parse`).
-/
import WidgetLayout.Compilation
import WidgetLayout.Proofs.Effect

namespace WidgetLayout.Literal

open WidgetLayout.Compile WidgetLayout.Progress

/-! ### Spellings

What one token stands for is left to the readers of numbers; the grammar says which tokens follow
each other. -/

/-- A token that stands for an integer. -/
def IntegerToken (n : UInt32) (t : Token) : Prop :=
  t.kind = .integer ∧ Text.readUInt32 t.text.toList = .ok n

/-- A token that stands for an item of a size list. -/
inductive SizeToken : SizeItem → Token → Prop
  | auto {t : Token} (hkind : t.kind = .identifier) (htext : t.text = "auto") : SizeToken .auto t
  | expand {t : Token} (hkind : t.kind = .identifier) (htext : t.text = "expand") :
      SizeToken .expand t
  | pixels {t : Token} {n : UInt32} (ht : IntegerToken n t) : SizeToken (.pixels n) t
  | percentage {t : Token} {x : Single} (hkind : t.kind = .percentage)
      (hx : Single.read (withoutPercent t.text.toList) = .ok x) :
      SizeToken (.percentage (Single.hundredth * x)) t

/-- All percent signs at the end of a percentage are dropped, and nothing else. -/
theorem withoutPercent_eq_iff {cs ds : List Char} :
    withoutPercent cs = ds ↔ (∃ n, cs = ds ++ List.replicate n '%') ∧ ds.getLast? ≠ some '%' := by
  unfold withoutPercent
  constructor
  · rintro rfl
    refine ⟨⟨(cs.reverse.takeWhile (· = '%')).length, ?_⟩, ?_⟩
    · have hsigns : cs.reverse.takeWhile (· = '%') = List.replicate _ '%' :=
        List.eq_replicate_iff.mpr ⟨rfl, fun c hc => by
          simpa using List.all_eq_true.mp List.all_takeWhile c hc⟩
      rw [← List.reverse_replicate, ← hsigns, ← List.reverse_append,
        List.takeWhile_append_dropWhile, List.reverse_reverse]
    · rw [List.getLast?_reverse]
      intro hhead
      have hnot := List.head?_dropWhile_not (fun c : Char => decide (c = '%')) cs.reverse
      simp [hhead] at hnot
  · rintro ⟨⟨n, rfl⟩, hlast⟩
    have hsigns : ∀ c ∈ List.replicate n '%', decide (c = '%') := by
      intro c hc
      simp [List.eq_of_mem_replicate hc]
    rw [List.reverse_append, List.reverse_replicate, List.dropWhile_append_of_pos hsigns]
    rw [List.getLast?_eq_head?_reverse] at hlast
    cases hds : ds.reverse with
    | nil => simpa using hds.symm
    | cons c rest =>
        rw [hds] at hlast
        have hc : c ≠ '%' := by simpa using hlast
        rw [List.dropWhile_cons_of_neg (by simpa using hc), ← hds, List.reverse_reverse]

/-- The tokens of percentages, spelled out: a number, and behind it any percent signs. -/
theorem sizeToken_percentage_iff {y : Single} {t : Token} :
    SizeToken (.percentage y) t ↔ t.kind = .percentage ∧ ∃ digits n x,
      t.text.toList = digits ++ List.replicate n '%' ∧ digits.getLast? ≠ some '%' ∧
      Single.read digits = .ok x ∧ y = Single.hundredth * x := by
  constructor
  · intro h
    cases h with
    | percentage hkind hx =>
        obtain ⟨⟨n, htext⟩, hlast⟩ := withoutPercent_eq_iff.mp rfl
        exact ⟨hkind, _, n, _, htext, hlast, hx, rfl⟩
  · rintro ⟨hkind, digits, n, x, htext, hlast, hx, rfl⟩
    rw [← withoutPercent_eq_iff.mpr ⟨⟨n, htext⟩, hlast⟩] at hx
    exact .percentage hkind hx

/-- The kind of the tokens that stand for an item. -/
def sizeTokenKind : SizeItem → TokenKind
  | .auto | .expand => .identifier
  | .pixels _ => .integer
  | .percentage _ => .percentage

theorem SizeToken.kind_eq {item : SizeItem} {t : Token} (h : SizeToken item t) :
    t.kind = sizeTokenKind item := by
  cases h with
  | auto hkind _ | expand hkind _ | percentage hkind _ => exact hkind
  | pixels ht => exact ht.1

/-- More items, each after a comma. -/
inductive More {α : Type} (R : α → Token → Prop) : List α → List Token → Prop
  | nil : More R [] []
  | cons {a : α} {as : List α} {comma t : Token} {l : List Token} (hcomma : comma.kind = .comma)
      (ha : R a t) (hrest : More R as l) : More R (a :: as) (comma :: t :: l)

/-- The tokens of a literal of a type, with the value that they stand for. -/
inductive Spelled (symbols : SymbolTables) (resources : BindingTable) :
    ValueType → Value → List Token → Prop
  | integer {n : UInt32} {t semi : Token} (ht : IntegerToken n t) (hsemi : semi.kind = .semicolon) :
      Spelled symbols resources .integer (.integer n) [t, semi]
  | number {x : Single} {t semi : Token} (hkind : t.kind = .integer ∨ t.kind = .number)
      (hx : Single.read t.text.toList = .ok x) (hsemi : semi.kind = .semicolon) :
      Spelled symbols resources .number (.number x) [t, semi]
  | enumeration {entry : EnumerationEntry} {t semi : Token} (hkind : t.kind = .identifier)
      (hentry : symbols.enumeration? t.text = some entry) (hsemi : semi.kind = .semicolon) :
      Spelled symbols resources .enumeration (.enumeration entry.value) [t, semi]
  | string {t semi : Token} (hkind : t.kind = .string) (hsemi : semi.kind = .semicolon) :
      Spelled symbols resources .string (.string t.text) [t, semi]
  | boolean {b : Bool} {t semi : Token} (hkind : t.kind = .identifier)
      (hb : boolean? t.text = some b) (hsemi : semi.kind = .semicolon) :
      Spelled symbols resources .boolean (.boolean b) [t, semi]
  | margins {m : Margins} {n : UInt32} {ns : List UInt32} {t semi : Token} {l : List Token}
      (ht : IntegerToken n t) (hmore : More IntegerToken ns l)
      (hm : Margins.broadcast? (n :: ns) = some m) (hsemi : semi.kind = .semicolon) :
      Spelled symbols resources .margins (.margins m) (t :: l ++ [semi])
  | sizeList {item : SizeItem} {items : List SizeItem} {t semi : Token} {l : List Token}
      (ht : SizeToken item t) (hmore : More SizeToken items l) (hsemi : semi.kind = .semicolon) :
      Spelled symbols resources .sizeList (.sizeList (item :: items)) (t :: l ++ [semi])
  | resource {id : UInt32} {word opening name closing semi : Token}
      (hkind : word.kind = .identifier)
      (hword : word.text = "resource") (hopening : opening.kind = .openParens)
      (hname : name.kind = .string) (hclosing : closing.kind = .closeParens)
      (hsemi : semi.kind = .semicolon) (hid : resources.get? name.text = some id) :
      Spelled symbols resources .resource (.resource id) [word, opening, name, closing, semi]

variable {σ : Type} [TokenSource σ]

/-! ### Literals of one token -/

theorem does_integerOf (t : Token) :
    Does (integerOf t : Compile σ UInt32) fun n e =>
      Text.readUInt32 t.text.toList = .ok n ∧ e = .nothing := by
  unfold integerOf
  refine (Takes.of_except (o := Text.readUInt32 t.text.toList)
    (fun fault herror => by rw [herror]; exact Takes.throw _)
    (fun n hok => by rw [hok]; exact Takes.pure n)).congr fun n e => ?_
  grind [tape_nil]

theorem does_singleOf (t : Token) (digits : List Char) :
    Does (singleOf t digits : Compile σ Single) fun x e =>
      Single.read digits = .ok x ∧ e = .nothing := by
  unfold singleOf
  refine (Takes.of_except (o := Single.read digits)
    (fun fault herror => by rw [herror]; exact Takes.throw _)
    (fun x hok => by rw [hok]; exact Takes.pure x)).congr fun x e => ?_
  grind [tape_nil]

theorem does_integer :
    Does (integer : Compile σ UInt32) fun n e => ∃ t, IntegerToken n t ∧ e = .take [t] := by
  refine ((does_accept .integer).bind does_integerOf).congr fun n e => ?_
  constructor
  · intro h
    obtain ⟨t, _, _, ⟨hkind, rfl⟩, ⟨hn, rfl⟩, rfl⟩ := h
    exact ⟨t, ⟨hkind, hn⟩, by simp⟩
  · intro h
    obtain ⟨t, ⟨hkind, hn⟩, rfl⟩ := h
    exact ⟨t, _, _, ⟨hkind, rfl⟩, ⟨hn, rfl⟩, by simp⟩

theorem does_number :
    Does (number : Compile σ Single) fun x e =>
      ∃ t, (t.kind = .integer ∨ t.kind = .number) ∧ Single.read t.text.toList = .ok x ∧
        e = .take [t] := by
  refine (does_expect.bind fun t =>
    Takes.ite (does_singleOf t _) (Takes.throw _)).congr fun x e => ?_
  constructor
  · intro h
    obtain ⟨t, _, _, rfl, h, rfl⟩ := h
    by_cases hkind : t.kind = .integer ∨ t.kind = .number
    · rw [if_pos hkind] at h
      obtain ⟨hx, rfl⟩ := h
      exact ⟨t, hkind, hx, by simp⟩
    · rw [if_neg hkind] at h
      exact h.elim
  · intro h
    obtain ⟨t, hkind, hx, rfl⟩ := h
    refine ⟨t, _, .nothing, rfl, ?_, by simp⟩
    rw [if_pos hkind]
    exact ⟨hx, rfl⟩

theorem does_enumeration (symbols : SymbolTables) :
    Does (enumeration symbols : Compile σ UInt8) fun value e =>
      ∃ t entry, t.kind = .identifier ∧ symbols.enumeration? t.text = some entry ∧
        entry.value = value ∧ e = .take [t] := by
  refine ((does_accept (σ := σ) .identifier).bind fun t =>
    Takes.of_option (o := symbols.enumeration? t.text)
      (fun hnone => by rw [hnone]; exact Takes.throw _)
      (fun entry hsome => by rw [hsome]; exact Takes.pure entry.value)).congr fun value e => ?_
  constructor
  · intro h
    obtain ⟨t, _, _, ⟨hkind, rfl⟩, ⟨entry, hentry, rfl, rfl⟩, rfl⟩ := h
    exact ⟨t, entry, hkind, hentry, rfl, by simp⟩
  · intro h
    obtain ⟨t, entry, hkind, hentry, rfl, rfl⟩ := h
    exact ⟨t, _, _, ⟨hkind, rfl⟩, ⟨entry, hentry, rfl, rfl⟩, by simp⟩

theorem does_boolean :
    Does (boolean : Compile σ Bool) fun b e =>
      ∃ t, t.kind = .identifier ∧ boolean? t.text = some b ∧ e = .take [t] := by
  refine ((does_accept (σ := σ) .identifier).bind fun t =>
    Takes.of_option (o := boolean? t.text)
      (fun hnone => by rw [hnone]; exact Takes.throw _)
      (fun b hsome => by rw [hsome]; exact Takes.pure b)).congr fun b e => ?_
  constructor
  · intro h
    obtain ⟨t, _, _, ⟨hkind, rfl⟩, ⟨b', hb, rfl, rfl⟩, rfl⟩ := h
    exact ⟨t, hkind, hb, by simp⟩
  · intro h
    obtain ⟨t, hkind, hb, rfl⟩ := h
    exact ⟨t, _, _, ⟨hkind, rfl⟩, ⟨b, hb, rfl, rfl⟩, by simp⟩

/-- A form without its semicolon is read with the semicolon after it. -/
theorem does_ended {α : Type} {form : Compile σ α} {F : α → Effect → Prop} (h : Does form F) :
    Does (ended form) fun a e => ∃ e' semi, F a e' ∧ semi.kind = .semicolon ∧
      e = e' ++ .take [semi] := by
  refine (h.bind fun a => (does_accept .semicolon).bind_pure fun _ => a).congr fun a e => ?_
  constructor
  · intro h
    obtain ⟨a', e', _, hF, ⟨semi, ⟨hsemi, rfl⟩, rfl⟩, rfl⟩ := h
    exact ⟨e', semi, hF, hsemi, rfl⟩
  · intro h
    obtain ⟨e', semi, hF, hsemi, rfl⟩ := h
    exact ⟨a, e', _, hF, ⟨semi, ⟨hsemi, rfl⟩, rfl⟩, rfl⟩

/-! ### Margins

At most three values follow the first, and no other count than one, two or four stands for margins;
so the bound on the values that are read never refuses what could still have become margins. -/

theorem does_broadcast (values : List UInt32) (t : Token) :
    Does (broadcast values t : Compile σ Margins) fun m e =>
      Margins.broadcast? values = some m ∧ e = .nothing := by
  unfold broadcast
  refine (Takes.of_option (o := Margins.broadcast? values)
    (fun hnone => by rw [hnone]; exact Takes.throw _)
    (fun m hsome => by rw [hsome]; exact Takes.pure m)).congr fun m e => ?_
  grind [tape_nil]

theorem length_le_of_broadcast {values : List UInt32} {m : Margins}
    (h : Margins.broadcast? values = some m) : values.length ≤ 4 := by
  unfold Margins.broadcast? at h
  split at h
  · exact (by decide : 1 ≤ 4)
  · exact (by decide : 2 ≤ 4)
  · exact Nat.le_refl 4
  · cases h

variable [LawfulTokenSource σ]

theorem does_moreMargins (n : Nat) : ∀ values : List UInt32,
    Does (moreMargins values n : Compile σ Margins) fun m e =>
      ∃ vs l semi, vs.length ≤ n ∧ More IntegerToken vs l ∧ semi.kind = .semicolon ∧
        Margins.broadcast? (values ++ vs) = some m ∧ e = .take (l ++ [semi]) := by
  induction n with
  | zero =>
      intro values
      have hend : Does (accept .semicolon >>= broadcast values : Compile σ Margins) fun m e =>
          ∃ semi, semi.kind = .semicolon ∧ Margins.broadcast? values = some m ∧
            e = .take [semi] := by
        refine ((does_accept .semicolon).bind (does_broadcast values)).congr fun m e => ?_
        constructor
        · intro h
          obtain ⟨semi, _, _, ⟨hsemi, rfl⟩, ⟨hm, rfl⟩, rfl⟩ := h
          exact ⟨semi, hsemi, hm, by simp⟩
        · intro h
          obtain ⟨semi, hsemi, hm, rfl⟩ := h
          exact ⟨semi, _, _, ⟨hsemi, rfl⟩, ⟨hm, rfl⟩, by simp⟩
      refine (does_peek_unless .comma hend ?_ ?_ ?_).congr fun m e => ?_
      · rfl
      · intro t
        exact ⟨_, rfl⟩
      · intro m e h
        obtain ⟨semi, hsemi, -, rfl⟩ := h
        exact ⟨semi, [], rfl, by rw [hsemi]; decide⟩
      · constructor
        · intro h
          obtain ⟨semi, hsemi, hm, rfl⟩ := h
          exact ⟨[], [], semi, Nat.le_refl _, .nil, hsemi, by rwa [List.append_nil], rfl⟩
        · intro h
          obtain ⟨vs, l, semi, hlen, hmore, hsemi, hm, rfl⟩ := h
          obtain rfl := List.length_eq_zero_iff.mp (Nat.le_zero.mp hlen)
          cases hmore
          rw [List.append_nil] at hm
          exact ⟨semi, hsemi, hm, rfl⟩
  | succ n ih =>
      intro values
      refine (does_expect.bind fun t => Takes.ite (does_broadcast values t)
        (Takes.ite (does_integer.bind fun v => ih (values ++ [v])) (Takes.throw _))).congr
        fun m e => ?_
      constructor
      · intro h
        obtain ⟨t, _, e, rfl, h, rfl⟩ := h
        by_cases hsemi : t.kind = .semicolon
        · rw [if_pos hsemi] at h
          obtain ⟨hm, rfl⟩ := h
          exact ⟨[], [], t, Nat.zero_le _, .nil, hsemi, by rwa [List.append_nil], by simp⟩
        · rw [if_neg hsemi] at h
          by_cases hcomma : t.kind = .comma
          · rw [if_pos hcomma] at h
            obtain ⟨v, _, _, ⟨t', hv, rfl⟩, ⟨vs, l, semi, hlen, hmore, hsemi, hm, rfl⟩, rfl⟩ := h
            rw [List.append_assoc] at hm
            exact ⟨v :: vs, t :: t' :: l, semi, Nat.succ_le_succ hlen,
              .cons hcomma hv hmore, hsemi, hm, by simp⟩
          · rw [if_neg hcomma] at h
            exact h.elim
      · intro h
        obtain ⟨vs, l, semi, hlen, hmore, hsemi, hm, rfl⟩ := h
        cases hmore with
        | nil =>
            rw [List.append_nil] at hm
            refine ⟨semi, _, .nothing, rfl, ?_, by simp⟩
            rw [if_pos hsemi]
            exact ⟨hm, rfl⟩
        | @cons v vs comma t l hcomma hv hmore =>
            refine ⟨comma, _, .take (t :: l ++ [semi]), rfl, ?_, by simp⟩
            rw [if_neg (by rw [hcomma]; decide), if_pos hcomma]
            refine ⟨v, _, .take (l ++ [semi]), ⟨t, hv, rfl⟩, ?_, by simp⟩
            exact ⟨vs, l, semi, Nat.le_of_succ_le_succ hlen, hmore, hsemi,
              by rwa [List.append_assoc], rfl⟩

theorem does_margins :
    Does (margins : Compile σ Margins) fun m e =>
      ∃ n ns t l semi, IntegerToken n t ∧ More IntegerToken ns l ∧
        Margins.broadcast? (n :: ns) = some m ∧ semi.kind = .semicolon ∧
          e = .take (t :: l ++ [semi]) := by
  refine does_peek_unless .semicolon ((does_integer.bind fun v => does_moreMargins 3 [v]).congr
    fun m e => ?_) ?_ ?_ ?_
  · constructor
    · intro h
      obtain ⟨n, _, _, ⟨t, ht, rfl⟩, ⟨ns, l, semi, -, hmore, hsemi, hm, rfl⟩, rfl⟩ := h
      exact ⟨n, ns, t, l, semi, ht, hmore, hm, hsemi, by simp⟩
    · intro h
      obtain ⟨n, ns, t, l, semi, ht, hmore, hm, hsemi, rfl⟩ := h
      have hlen := length_le_of_broadcast hm
      rw [List.length_cons] at hlen
      exact ⟨n, _, _, ⟨t, ht, rfl⟩, ⟨ns, l, semi, by omega, hmore, hsemi, hm, rfl⟩, by simp⟩
  · rfl
  · intro t
    exact ⟨_, rfl⟩
  · intro m e h
    obtain ⟨n, ns, t, l, semi, ht, -, -, -, rfl⟩ := h
    exact ⟨t, l ++ [semi], rfl, by rw [ht.1]; decide⟩

/-! ### Size lists

Every round of the loop but the last takes a comma and an item, and the last one takes the
semicolon. -/

omit [LawfulTokenSource σ]

theorem does_sizeItem :
    Does (sizeItem : Compile σ SizeItem) fun item e => ∃ t, SizeToken item t ∧ e = .take [t] := by
  refine (does_expect.bind (H := fun t item e => SizeToken item t ∧ e = .nothing)
    fun t => ?_).congr fun item e => ?_
  · split
    · rename_i hkind
      refine (Takes.ite (Takes.pure _) (Takes.ite (Takes.pure _) (Takes.throw _))).congr
        fun item e => ?_
      constructor
      · intro h
        by_cases hauto : t.text = "auto"
        · rw [if_pos hauto] at h
          obtain ⟨rfl, rfl⟩ := h
          exact ⟨.auto hkind hauto, rfl⟩
        · rw [if_neg hauto] at h
          by_cases hexpand : t.text = "expand"
          · rw [if_pos hexpand] at h
            obtain ⟨rfl, rfl⟩ := h
            exact ⟨.expand hkind hexpand, rfl⟩
          · rw [if_neg hexpand] at h
            exact h.elim
      · intro h
        obtain ⟨ht, rfl⟩ := h
        have hitem := hkind.symm.trans ht.kind_eq
        cases ht with
        | auto _ htext =>
            rw [if_pos htext]
            exact ⟨rfl, rfl⟩
        | expand _ htext =>
            rw [if_neg (by rw [htext]; decide), if_pos htext]
            exact ⟨rfl, rfl⟩
        | pixels | percentage => cases hitem
    · rename_i hkind
      refine ((does_integerOf t).bind_pure _).congr fun item e => ?_
      constructor
      · intro h
        obtain ⟨n, ⟨hn, rfl⟩, rfl⟩ := h
        exact ⟨.pixels ⟨hkind, hn⟩, rfl⟩
      · intro h
        obtain ⟨ht, rfl⟩ := h
        have hitem := hkind.symm.trans ht.kind_eq
        cases ht with
        | @pixels _ n ht => exact ⟨n, ⟨ht.2, rfl⟩, rfl⟩
        | auto | expand | percentage => cases hitem
    · rename_i hkind
      refine ((does_singleOf t _).bind_pure _).congr fun item e => ?_
      constructor
      · intro h
        obtain ⟨x, ⟨hx, rfl⟩, rfl⟩ := h
        exact ⟨.percentage hkind hx, rfl⟩
      · intro h
        obtain ⟨ht, rfl⟩ := h
        have hitem := hkind.symm.trans ht.kind_eq
        cases ht with
        | @percentage _ x _ hx => exact ⟨x, ⟨hx, rfl⟩, rfl⟩
        | auto | expand | pixels => cases hitem
    · rename_i hidentifier hinteger hpercentage
      refine (Takes.throw _).congr fun item e => ⟨False.elim, fun h => ?_⟩
      have hitem := h.1.kind_eq
      cases item with
      | auto | expand => exact hidentifier hitem
      | pixels => exact hinteger hitem
      | percentage => exact hpercentage hitem
  · constructor
    · intro h
      obtain ⟨t, _, _, rfl, ⟨ht, rfl⟩, rfl⟩ := h
      exact ⟨t, ht, by simp⟩
    · intro h
      obtain ⟨t, ht, rfl⟩ := h
      exact ⟨t, _, _, rfl, ⟨ht, rfl⟩, by simp⟩

/-- What may follow an item: the end of the list, or a comma and one more item. -/
inductive SizeStep (items : Array SizeItem) : Array SizeItem ⊕ List SizeItem → Effect → Prop
  | done {semi : Token} (hsemi : semi.kind = .semicolon) :
      SizeStep items (.inr items.toList) (.take [semi])
  | more {item : SizeItem} {comma t : Token} (hcomma : comma.kind = .comma)
      (ht : SizeToken item t) :
      SizeStep items (.inl (items.push item)) (.take [comma, t])

theorem does_sizeStep (items : Array SizeItem) :
    Does (sizeStep items : Compile σ (Array SizeItem ⊕ List SizeItem)) (SizeStep items) := by
  refine (does_expect.bind fun t => Takes.ite (Takes.pure _)
    (Takes.ite (does_sizeItem.bind_pure _) (Takes.throw _))).congr fun r e => ?_
  constructor
  · intro h
    obtain ⟨t, _, e, rfl, h, rfl⟩ := h
    by_cases hsemi : t.kind = .semicolon
    · rw [if_pos hsemi] at h
      obtain ⟨rfl, rfl⟩ := h
      rw [tape_append, tape_nil, Effect.append_nothing]
      exact .done hsemi
    · rw [if_neg hsemi] at h
      by_cases hcomma : t.kind = .comma
      · rw [if_pos hcomma] at h
        obtain ⟨item, ⟨t', ht, rfl⟩, rfl⟩ := h
        rw [tape_append, Effect.take_append_take]
        exact .more hcomma ht
      · rw [if_neg hcomma] at h
        exact h.elim
  · intro h
    cases h with
    | @done semi hsemi =>
        refine ⟨semi, _, .nothing, rfl, ?_, by simp⟩
        rw [if_pos hsemi]
        exact ⟨rfl, rfl⟩
    | @more item comma t hcomma ht =>
        refine ⟨comma, _, .take [t], rfl, ?_, by simp⟩
        rw [if_neg (by rw [hcomma]; decide), if_pos hcomma]
        exact ⟨item, ⟨t, ht, rfl⟩, rfl⟩

/-- Going on through a size list takes items after commas, one by one. -/
theorem chain_sizeStep_iff {items items' : Array SizeItem} {e : Effect} :
    Chain (tape σ) SizeStep items e items' ↔
      ∃ more l, More SizeToken more l ∧ items' = items ++ more ∧ e = .take l := by
  constructor
  · intro h
    induction h with
    | refl items => exact ⟨[], [], .nil, by simp, rfl⟩
    | head hround _ ih =>
        obtain ⟨more, l, hmore, rfl, rfl⟩ := ih
        cases hround with
        | @more item comma t hcomma ht =>
            exact ⟨item :: more, comma :: t :: l, .cons hcomma ht hmore, by simp, by simp⟩
  · intro h
    obtain ⟨more, l, hmore, rfl, rfl⟩ := h
    induction hmore generalizing items with
    | nil =>
        rw [Array.appendList_nil]
        exact .refl items
    | @cons item more comma t l hcomma ht _ ih =>
        have hpush : items ++ (item :: more) = items.push item ++ more := by simp
        have htake :
            Effect.take (comma :: t :: l) = (tape σ).append (.take [comma, t]) (.take l) := by
          simp
        rw [hpush, htake]
        exact .head (.more hcomma ht) ih

theorem does_sizeList :
    Does (sizeList : Compile σ (List SizeItem)) fun items e =>
      ∃ item more t l semi, SizeToken item t ∧ More SizeToken more l ∧ semi.kind = .semicolon ∧
        items = item :: more ∧ e = .take (t :: l ++ [semi]) := by
  refine (does_sizeItem.bind fun item => Takes.iterate does_sizeStep #[item]).congr
    fun items e => ?_
  constructor
  · intro h
    obtain ⟨item, _, _, ⟨t, ht, rfl⟩, ⟨last, _, _, hchain, hlast, rfl⟩, rfl⟩ := h
    obtain ⟨more, l, hmore, rfl, rfl⟩ := chain_sizeStep_iff.mp hchain
    cases hlast with
    | @done semi hsemi => exact ⟨item, more, t, l, semi, ht, hmore, hsemi, by simp, by simp⟩
  · intro h
    obtain ⟨item, more, t, l, semi, ht, hmore, hsemi, rfl, rfl⟩ := h
    have hend : SizeStep (#[item] ++ more) (.inr (#[item] ++ more).toList) (.take [semi]) :=
      .done hsemi
    have hitems : (#[item] ++ more).toList = item :: more := by simp
    rw [hitems] at hend
    exact ⟨item, _, .take (l ++ [semi]), ⟨t, ht, rfl⟩,
      ⟨_, .take l, .take [semi], chain_sizeStep_iff.mpr ⟨more, l, hmore, rfl, rfl⟩, hend, by simp⟩,
      by simp⟩

/-! ### Resources -/

theorem does_resource (resources : BindingTable) :
    Does (resource resources : Compile σ UInt32) fun id e =>
      ∃ word opening name closing semi, word.kind = .identifier ∧ word.text = "resource" ∧
        opening.kind = .openParens ∧ name.kind = .string ∧ closing.kind = .closeParens ∧
          semi.kind = .semicolon ∧ resources.get? name.text = some id ∧
            e = .take [word, opening, name, closing, semi] := by
  refine ((does_accept .identifier).bind fun word => Takes.ite
    ((does_accept .openParens).bind fun _ => (does_accept .string).bind fun name =>
      (does_accept .closeParens).bind fun _ => (does_accept .semicolon).bind fun _ =>
        Takes.of_option (o := resources.get? name.text)
          (fun hnone => by rw [hnone]; exact Takes.throw _)
          (fun id hsome => by rw [hsome]; exact Takes.pure id))
    (Takes.throw _)).congr fun id e => ?_
  constructor
  · intro h
    obtain ⟨word, _, _, ⟨hkind, rfl⟩, h, rfl⟩ := h
    by_cases hword : word.text = "resource"
    · rw [if_pos hword] at h
      obtain ⟨opening, _, _, ⟨hopening, rfl⟩,
        ⟨name, _, _, ⟨hname, rfl⟩, ⟨closing, _, _, ⟨hclosing, rfl⟩,
        ⟨semi, _, _, ⟨hsemi, rfl⟩, ⟨_, hid, rfl, rfl⟩, rfl⟩, rfl⟩, rfl⟩, rfl⟩ := h
      exact ⟨word, opening, name, closing, semi, hkind, hword, hopening, hname,
        hclosing, hsemi, hid, by simp⟩
    · rw [if_neg hword] at h
      exact h.elim
  · intro h
    obtain ⟨word, opening, name, closing, semi, hkind, hword, hopening, hname, hclosing, hsemi, hid,
      rfl⟩ := h
    refine ⟨word, _, .take [opening, name, closing, semi], ⟨hkind, rfl⟩, ?_, by simp⟩
    rw [if_pos hword]
    exact ⟨opening, _, .take [name, closing, semi], ⟨hopening, rfl⟩,
      ⟨name, _, .take [closing, semi], ⟨hname, rfl⟩, ⟨closing, _, .take [semi], ⟨hclosing, rfl⟩,
        ⟨semi, _, .nothing, ⟨hsemi, rfl⟩, ⟨id, hid, rfl, rfl⟩, by simp⟩, by simp⟩, by simp⟩,
      by simp⟩

/-! ### All forms -/

theorem does_writeValue (v : Value) :
    Does (writeValue v : Compile σ Unit) fun _ e => v.Fits ∧ e = .write v.encode := by
  unfold writeValue
  refine (Takes.ite (does_write _) (Takes.throw _)).congr fun _ e => ?_
  by_cases hfits : v.Fits
  · simp [hfits]
  · simp [hfits]

variable [LawfulTokenSource σ]

/-- **Reading a literal takes its spellings, and nothing else.** -/
theorem does_parse (symbols : SymbolTables) (resources : BindingTable) (type : ValueType) :
    Does (parse symbols resources type : Compile σ Value) fun v e =>
      ∃ l, Spelled symbols resources type v l ∧ e = .take l := by
  cases type with
  | integer =>
      refine ((does_ended does_integer).map _).congr fun v e => ?_
      constructor
      · intro h
        obtain ⟨n, ⟨_, semi, ⟨t, ht, rfl⟩, hsemi, rfl⟩, rfl⟩ := h
        exact ⟨_, .integer ht hsemi, by simp⟩
      · intro h
        obtain ⟨_, hl, rfl⟩ := h
        cases hl with
        | integer ht hsemi =>
            exact ⟨_, ⟨_, _, ⟨_, ht, rfl⟩, hsemi, by simp⟩, rfl⟩
  | number =>
      refine ((does_ended does_number).map _).congr fun v e => ?_
      constructor
      · intro h
        obtain ⟨x, ⟨_, semi, ⟨t, hkind, hx, rfl⟩, hsemi, rfl⟩, rfl⟩ := h
        exact ⟨_, .number hkind hx hsemi, by simp⟩
      · intro h
        obtain ⟨_, hl, rfl⟩ := h
        cases hl with
        | number hkind hx hsemi =>
            exact ⟨_, ⟨_, _, ⟨_, hkind, hx, rfl⟩, hsemi, by simp⟩, rfl⟩
  | enumeration =>
      refine ((does_ended (does_enumeration symbols)).map _).congr fun v e => ?_
      constructor
      · intro h
        obtain ⟨_, ⟨_, semi, ⟨t, entry, hkind, hentry, rfl, rfl⟩, hsemi, rfl⟩, rfl⟩ := h
        exact ⟨_, .enumeration hkind hentry hsemi, by simp⟩
      · intro h
        obtain ⟨_, hl, rfl⟩ := h
        cases hl with
        | enumeration hkind hentry hsemi =>
            exact ⟨_, ⟨_, _, ⟨_, _, hkind, hentry, rfl, rfl⟩, hsemi, by simp⟩, rfl⟩
  | string =>
      refine ((does_ended (does_accept .string)).map _).congr fun v e => ?_
      constructor
      · intro h
        obtain ⟨t, ⟨_, semi, ⟨hkind, rfl⟩, hsemi, rfl⟩, rfl⟩ := h
        exact ⟨_, .string hkind hsemi, by simp⟩
      · intro h
        obtain ⟨_, hl, rfl⟩ := h
        cases hl with
        | string hkind hsemi =>
            exact ⟨_, ⟨_, _, ⟨hkind, rfl⟩, hsemi, by simp⟩, rfl⟩
  | boolean =>
      refine ((does_ended does_boolean).map _).congr fun v e => ?_
      constructor
      · intro h
        obtain ⟨b, ⟨_, semi, ⟨t, hkind, hb, rfl⟩, hsemi, rfl⟩, rfl⟩ := h
        exact ⟨_, .boolean hkind hb hsemi, by simp⟩
      · intro h
        obtain ⟨_, hl, rfl⟩ := h
        cases hl with
        | boolean hkind hb hsemi =>
            exact ⟨_, ⟨_, _, ⟨_, hkind, hb, rfl⟩, hsemi, by simp⟩, rfl⟩
  | margins =>
      refine (does_margins.map _).congr fun v e => ?_
      constructor
      · intro h
        obtain ⟨m, ⟨n, ns, t, l, semi, ht, hmore, hm, hsemi, rfl⟩, rfl⟩ := h
        exact ⟨_, .margins ht hmore hm hsemi, rfl⟩
      · intro h
        obtain ⟨_, hl, rfl⟩ := h
        cases hl with
        | margins ht hmore hm hsemi =>
            exact ⟨_, ⟨_, _, _, _, _, ht, hmore, hm, hsemi, rfl⟩, rfl⟩
  | sizeList =>
      refine (does_sizeList.map _).congr fun v e => ?_
      constructor
      · intro h
        obtain ⟨_, ⟨item, more, t, l, semi, ht, hmore, hsemi, rfl, rfl⟩, rfl⟩ := h
        exact ⟨_, .sizeList ht hmore hsemi, rfl⟩
      · intro h
        obtain ⟨_, hl, rfl⟩ := h
        cases hl with
        | sizeList ht hmore hsemi =>
            exact ⟨_, ⟨_, _, _, _, _, ht, hmore, hsemi, rfl, rfl⟩, rfl⟩
  | resource =>
      refine ((does_resource resources).map _).congr fun v e => ?_
      constructor
      · intro h
        obtain ⟨id,
          ⟨word, opening, name, closing, semi, hkind, hword, hopening, hname, hclosing, hsemi,
          hid, rfl⟩, rfl⟩ := h
        exact ⟨_, .resource hkind hword hopening hname hclosing hsemi hid, rfl⟩
      · intro h
        obtain ⟨_, hl, rfl⟩ := h
        cases hl with
        | resource hkind hword hopening hname hclosing hsemi hid =>
            exact ⟨_,
              ⟨_, _, _, _, _, hkind, hword, hopening, hname, hclosing, hsemi, hid, rfl⟩, rfl⟩

/-- The spellings of a value are the lists of tokens that reading it uses up. -/
theorem spelled_iff_parse {symbols : SymbolTables} {resources : BindingTable} {type : ValueType}
    {v : Value} {l : List Token} :
    Spelled symbols resources type v l ↔
      ∃ run, parse symbols resources type (.start l .unbounded) = .ok v run ∧ run.source = [] := by
  have hparse := does_parse (σ := List Token) symbols resources type
  have hsink : (Run.start l .unbounded).sink.capacity = none := rfl
  constructor
  · intro h
    obtain ⟨run, hrun, hsource, -⟩ := hparse.ok_of_append ⟨l, h, rfl⟩ hsink (List.append_nil l).symm
    exact ⟨run, hrun, hsource⟩
  · intro h
    obtain ⟨run, hrun, hsource⟩ := h
    obtain ⟨l', hl', htokens⟩ := hparse.append_of_ok hsink hrun
    rw [hsource, List.append_nil] at htokens
    obtain rfl : l = l' := htokens
    exact hl'

/-- Compiling a literal takes its spelling and writes its value, which has to fit. -/
theorem does_encode (symbols : SymbolTables) (resources : BindingTable) (type : ValueType) :
    Does (encode symbols resources type : Compile σ Value) fun v e =>
      ∃ l, Spelled symbols resources type v l ∧ v.Fits ∧ e = ⟨l, v.encode, .zero⟩ := by
  refine ((does_parse symbols resources type).bind fun v =>
    (does_writeValue v).bind_pure fun _ => v).congr fun v e => ?_
  constructor
  · intro h
    obtain ⟨v, _, _, ⟨l, hl, rfl⟩, ⟨_, ⟨hfits, rfl⟩, rfl⟩, rfl⟩ := h
    exact ⟨l, hl, hfits, by simp [Effect.append_eq, Effect.take, Effect.write]⟩
  · intro h
    obtain ⟨l, hl, hfits, rfl⟩ := h
    exact ⟨v, _, _, ⟨l, hl, rfl⟩, ⟨(), ⟨hfits, rfl⟩, rfl⟩,
      by simp [Effect.append_eq, Effect.take, Effect.write]⟩

end WidgetLayout.Literal
