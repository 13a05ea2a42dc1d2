/-
Reading takes exactly the byte forms of values and properties.

For every type the reader of its values succeeds on the forms of values that suit the type and on
nothing else (`reads_value`).  A property is known by the byte it begins with: its id, with the high
bit as the mark of a binding; `reads_property` says that whatever is read after that byte makes up,
with it, a form of the property.
-/
import Mathlib.Tactic.MkIffOfInductiveProp
import WidgetLayout.Proofs.Form
import WidgetLayout.Proofs.Utf8

namespace WidgetLayout

open WidgetLayout.Progress WidgetLayout.Wire

/-- A value that a property of a type can have in bytes. -/
@[mk_iff]
structure Value.Suits (v : Value) (type : ValueType) : Prop where
  type_eq : v.type = type
  fits : v.Fits
  nonempty : v ≠ .sizeList []

namespace Decode

theorem reads_varint : Reads varint Padded := reads_read Wire.reads_varint

theorem reads_single : Reads single fun x bs => bs = Wire.single x := reads_read Wire.reads_single

/-- A refusal says where it happened, so it looks at the cursor before it fails. -/
theorem reads_refuse {α : Type} (f : Nat → DecodeFault) :
    Reads (do refuse (f (← offset)) : Reader α) fun _ _ => False where
  valid _ h := nomatch h
  sound _ h := nomatch h
  complete _ h := h.elim

/-! ### Texts, truth values and margins -/

theorem reads_text :
    Reads text fun s bs => (Text.Utf8.encode s.toList).length < 0x100000000 ∧
      Value.Form (.string s) bs := by
  refine ((reads_read reads_string).bind fun xs => Takes.of_except (o := Text.Utf8.decode xs)
    (fun fault herror => by rw [herror]; exact reads_refuse fun o => .notText o fault)
    (fun cs hok => by rw [hok]; exact Takes.pure (String.ofList cs))).congr fun s bs => ?_
  constructor
  · rintro ⟨xs, bs₁, bs₂, ⟨x, head, hhead, hlen, rfl⟩, ⟨cs, hok, rfl, rfl⟩, rfl⟩
    obtain ⟨s, rfl⟩ : ∃ s : String, s.toList = cs := ⟨_, String.toList_ofList⟩
    obtain rfl := Text.Utf8.decode_eq_ok_iff.mp hok
    rw [String.ofList_toList]
    have hlt := x.toNat_lt
    refine ⟨by omega, head, ?_, List.append_nil _⟩
    rw [← hlen, UInt32.ofNat_toNat]
    exact hhead
  · rintro ⟨hlt, head, hhead, rfl⟩
    refine ⟨_, _, [], ⟨_, head, hhead, ?_, rfl⟩,
      ⟨s.toList, Text.Utf8.decode_eq_ok_iff.mpr rfl, ?_, rfl⟩, (List.append_nil _).symm⟩
    · rw [UInt32.toNat_ofNat_of_lt' hlt]
    · rw [String.ofList_toList]

theorem reads_boolean : Reads boolean fun b bs => bs = [if b then 1 else 0] := by
  refine (reads_tag.bind fun x => Takes.ite (Takes.pure _) (Takes.ite (Takes.pure _)
    (reads_refuse fun o => .badBoolean x (o - 1)))).congr fun b bs => ?_
  constructor
  · rintro ⟨x, bs₁, bs₂, rfl, h, rfl⟩
    by_cases h₀ : x = 0
    · rw [if_pos h₀] at h
      obtain ⟨rfl, rfl⟩ := h
      rw [h₀]
      rfl
    · rw [if_neg h₀] at h
      by_cases h₁ : x = 1
      · rw [if_pos h₁] at h
        obtain ⟨rfl, rfl⟩ := h
        rw [h₁]
        rfl
      · rw [if_neg h₁] at h
        exact h.elim
  · rintro rfl
    cases b with
    | false => exact ⟨0, [0], [], rfl, ⟨rfl, rfl⟩, rfl⟩
    | true => exact ⟨1, [1], [], rfl, ⟨rfl, rfl⟩, rfl⟩

theorem reads_margins : Reads margins fun m bs => Joined Padded m.toList bs := by
  refine (reads_varint.bind fun a => reads_varint.bind fun b => reads_varint.bind fun c =>
    reads_varint.bind fun d => Takes.pure _).congr fun m bs => ?_
  constructor
  · rintro ⟨a, bs₁, _, ha,
      ⟨b, bs₂, _, hb, ⟨c, bs₃, _, hc, ⟨d, bs₄, _, hd, ⟨rfl, rfl⟩, rfl⟩, rfl⟩, rfl⟩, rfl⟩
    exact ⟨bs₁, _, ha, ⟨bs₂, _, hb, ⟨bs₃, _, hc, ⟨bs₄, _, hd, rfl, rfl⟩, rfl⟩, rfl⟩, rfl⟩
  · rintro ⟨bs₁, _, ha, ⟨bs₂, _, hb, ⟨bs₃, _, hc, ⟨bs₄, _, hd, rfl, rfl⟩, rfl⟩, rfl⟩, rfl⟩
    exact ⟨_, bs₁, _, ha,
      ⟨_, bs₂, _, hb, ⟨_, bs₃, _, hc, ⟨_, bs₄, _, hd, ⟨rfl, rfl⟩, rfl⟩, rfl⟩, rfl⟩, rfl⟩

/-! ### Size lists

The tags in front say what is read of each item. -/

theorem reads_sizeItem {t : UInt8} (ht : t.toNat < 4) :
    Reads (sizeItem t) fun item bs => item.tag = t ∧ item.PayloadForm bs := by
  unfold sizeItem
  by_cases h₀ : t = 0
  · rw [if_pos h₀]
    refine (Takes.pure _).congr fun item bs => ?_
    cases item <;> simp [SizeItem.tag, SizeItem.PayloadForm, h₀, tape]
  rw [if_neg h₀]
  by_cases h₁ : t = 1
  · rw [if_pos h₁]
    refine (Takes.pure _).congr fun item bs => ?_
    cases item <;> simp [SizeItem.tag, SizeItem.PayloadForm, h₁, tape]
  rw [if_neg h₁]
  by_cases h₂ : t = 2
  · rw [if_pos h₂]
    refine (reads_varint.bind fun n => Takes.pure _).congr fun item bs => ?_
    cases item <;> simp [SizeItem.tag, SizeItem.PayloadForm, h₂, tape]
  · have h₃ : t = 3 := by
      rw [← UInt8.toNat_inj] at h₀ h₁ h₂ ⊢
      simp only [UInt8.reduceToNat] at h₀ h₁ h₂ ⊢
      omega
    rw [if_neg h₂]
    refine (reads_single.bind fun x => Takes.pure _).congr fun item bs => ?_
    cases item <;> simp [SizeItem.tag, SizeItem.PayloadForm, h₃, tape]

theorem reads_sizeItems (ts : List UInt8) (hts : ∀ t ∈ ts, t.toNat < 4) :
    Reads (sizeItems ts) fun items bs => items.map SizeItem.tag = ts ∧
      Joined SizeItem.PayloadForm items bs := by
  induction ts with
  | nil =>
      refine (Takes.pure _).congr fun items bs => ?_
      constructor
      · rintro ⟨rfl, rfl⟩
        exact ⟨rfl, rfl⟩
      · rintro ⟨hmap, hjoined⟩
        obtain rfl := List.map_eq_nil_iff.mp hmap
        exact ⟨rfl, hjoined⟩
  | cons t ts ih =>
      refine ((reads_sizeItem (hts t (by simp))).bind fun item =>
        (ih fun x hx => hts x (by simp [hx])).bind fun items => Takes.pure _).congr
          fun items bs => ?_
      constructor
      · rintro ⟨item, bs₁, _, ⟨htag, hitem⟩, ⟨items, bs₂, _, ⟨hmap, hitems⟩, ⟨rfl, rfl⟩, rfl⟩, rfl⟩
        refine ⟨by rw [List.map_cons, htag, hmap], bs₁, bs₂, hitem, hitems, ?_⟩
        exact congrArg (bs₁ ++ ·) (List.append_nil bs₂)
      · rintro ⟨hmap, hjoined⟩
        cases items with
        | nil => cases hmap
        | cons item items =>
            obtain ⟨htag, hmap⟩ := List.cons.inj hmap
            obtain ⟨bs₁, bs₂, hitem, hitems, rfl⟩ := hjoined
            exact ⟨item, bs₁, bs₂, ⟨htag, hitem⟩,
              ⟨items, bs₂, [], ⟨hmap, hitems⟩, ⟨rfl, rfl⟩, (List.append_nil bs₂).symm⟩, rfl⟩

theorem length_of_unpacks {n : Nat} {tags bs : List UInt8} (h : SizeItem.Unpacks n tags bs) :
    tags.length = n := by
  obtain ⟨hlen, rfl⟩ := h
  have hflat : (bs.flatMap unpackGroup).length = bs.length * 4 := by
    rw [List.length_flatMap]
    show (bs.map fun _ => 4).sum = _
    rw [List.map_const', List.sum_replicate_nat]
  rw [List.length_take, hflat]
  omega

theorem lt_of_unpacks {n : Nat} {tags bs : List UInt8} (h : SizeItem.Unpacks n tags bs) :
    ∀ t ∈ tags, t.toNat < 4 := by
  obtain ⟨-, rfl⟩ := h
  intro t ht
  obtain ⟨x, -, hx⟩ := List.mem_flatMap.mp (List.mem_of_mem_take ht)
  obtain ⟨h₀, h₁, h₂, h₃⟩ := SizeItem.toNat_unpack x
  simp only [unpackGroup, List.mem_cons, List.not_mem_nil, or_false] at hx
  rcases hx with rfl | rfl | rfl | rfl <;> omega

theorem reads_sizeList :
    Reads sizeList fun items bs => items.length < 0x100000000 ∧ items ≠ [] ∧
      Value.Form (.sizeList items) bs := by
  have hitems :
      ∀ n : UInt32, Reads (do let tags ← sizeTags n.toNat; sizeItems tags : Reader (List SizeItem))
      fun items bs => ∃ tags tb payload, SizeItem.Unpacks n.toNat tags tb ∧
        (items.map SizeItem.tag = tags ∧ Joined SizeItem.PayloadForm items payload) ∧
        bs = tb ++ payload :=
    fun n => (reads_sizeTags n.toNat).bind_of fun tags bs h =>
      reads_sizeItems tags (lt_of_unpacks h)
  refine (reads_varint.bind fun n => Takes.ite (reads_refuse fun o => .emptySizeList o)
    (hitems n)).congr fun items bs => ?_
  constructor
  · rintro ⟨n, head, _, hhead, h, rfl⟩
    by_cases hn : n = 0
    · rw [if_pos hn] at h
      exact h.elim
    · rw [if_neg hn] at h
      obtain ⟨tags, tb, payload, htags, ⟨rfl, hpayload⟩, rfl⟩ := h
      have hlen : items.length = n.toNat := by
        rw [← length_of_unpacks htags, List.length_map]
      have hpos : n.toNat ≠ 0 := fun hzero => hn (UInt32.toNat_inj.mp hzero)
      have hlt := n.toNat_lt
      have hne : items ≠ [] := by
        rintro rfl
        exact hpos hlen.symm
      rw [← hlen] at htags
      refine ⟨by omega, hne, head, tb, payload, ?_, (SizeItem.unpacks_iff items hne tb).mp htags,
        hpayload, (List.append_assoc _ _ _).symm⟩
      rw [hlen, UInt32.ofNat_toNat]
      exact hhead
  · rintro ⟨hlt, hne, head, tb, payload, hhead, htags, hpayload, rfl⟩
    have hn : (UInt32.ofNat items.length).toNat = items.length := UInt32.toNat_ofNat_of_lt' hlt
    have hpos := List.length_pos_iff.mpr hne
    refine ⟨_, head, tb ++ payload, hhead, ?_, List.append_assoc _ _ _⟩
    rw [if_neg fun hzero => by rw [hzero] at hn; simp at hn; omega, hn]
    exact ⟨_, tb, payload, (SizeItem.unpacks_iff items hne tb).mpr htags, ⟨rfl, hpayload⟩, rfl⟩

/-! ### Values of a type -/

/-- **Reading a value takes the forms of the values that suit its type, and nothing else.** -/
theorem reads_value (type : ValueType) :
    Reads (value type) fun v bs => v.Suits type ∧ v.Form bs := by
  cases type with
  | integer =>
      refine (reads_varint.map _).congr fun v bs => ?_
      cases v <;> simp [Value.suits_iff, Value.type, Value.Fits, Value.Form]
  | number =>
      refine (reads_single.map _).congr fun v bs => ?_
      cases v <;> simp [Value.suits_iff, Value.type, Value.Fits, Value.Form]
  | enumeration =>
      refine (reads_tag.map _).congr fun v bs => ?_
      cases v <;> simp [Value.suits_iff, Value.type, Value.Fits, Value.Form]
  | string =>
      refine (reads_text.map _).congr fun v bs => ?_
      cases v <;> simp [Value.suits_iff, Value.type, Value.Fits, Value.Form]
  | boolean =>
      refine (reads_boolean.map _).congr fun v bs => ?_
      cases v <;> simp [Value.suits_iff, Value.type, Value.Fits, Value.Form]
  | margins =>
      refine (reads_margins.map _).congr fun v bs => ?_
      cases v <;> simp [Value.suits_iff, Value.type, Value.Fits, Value.Form]
  | sizeList =>
      refine (reads_sizeList.map _).congr fun v bs => ?_
      cases v <;> simp [Value.suits_iff, Value.type, Value.Fits, Value.Form, and_assoc]
  | resource =>
      refine (reads_varint.map _).congr fun v bs => ?_
      cases v <;> simp [Value.suits_iff, Value.type, Value.Fits, Value.Form]

end Decode

/-! ### Properties

The first byte of a property is its id, with the high bit set for a binding.  The two can be told
apart because an id has its high bit clear, and a literal is not taken for the end of the properties
because its id is not zero. -/

/-- The tables have the id of a property, under its name, and its value is one that can be read
back. -/
structure Property.Known (symbols : SymbolTables) (p : Property) : Prop where
  id_lt : p.id.toNat < 128
  entry : ∃ entry, symbols.propertyById? p.id = some entry ∧ entry.name = p.name ∧
    ∀ v, p.value = .literal v → p.id ≠ terminator ∧ v.Suits entry.type

namespace Property

/-- A byte is the head of a literal or of a binding, by its high bit. -/
theorem head_cases (raw : UInt8) :
    (raw &&& 0x7f).toNat < 128 ∧
      if raw &&& bindingFlag = 0 then raw &&& 0x7f = raw
        else raw &&& 0x7f ||| bindingFlag = raw := by
  have h : ∀ n : Fin 256, let raw := UInt8.ofNat n
      (raw &&& 0x7f).toNat < 128 ∧
        if raw &&& bindingFlag = 0 then raw &&& 0x7f = raw
        else raw &&& 0x7f ||| bindingFlag = raw := by
    decide +kernel
  have := h ⟨raw.toNat, raw.toNat_lt⟩
  simpa only [UInt8.ofNat_toNat] using this

/-- The two heads of an id give the id back and tell a literal from a binding. -/
theorem heads_of_id {id : UInt8} (hid : id.toNat < 128) :
    (id &&& bindingFlag = 0 ∧ id &&& 0x7f = id) ∧
      (id ||| bindingFlag) &&& bindingFlag ≠ 0 ∧ (id ||| bindingFlag) &&& 0x7f = id := by
  have h : ∀ n : Fin 128, let id := UInt8.ofNat n
      (id &&& bindingFlag = 0 ∧ id &&& 0x7f = id) ∧
        (id ||| bindingFlag) &&& bindingFlag ≠ 0 ∧ (id ||| bindingFlag) &&& 0x7f = id := by
    decide +kernel
  have := h ⟨id.toNat, hid⟩
  simpa only [UInt8.ofNat_toNat] using this

theorem form_cons_iff {p : Property} {raw : UInt8} {bs : List UInt8} (hid : p.id.toNat < 128) :
    p.Form (raw :: bs) ↔ raw &&& 0x7f = p.id ∧
      if raw &&& bindingFlag = 0 then ∃ v, p.value = .literal v ∧ v.Form bs
      else ∃ n, p.value = .binding n ∧ Padded n bs := by
  obtain ⟨⟨hflag, hlow⟩, hflag', hlow'⟩ := heads_of_id hid
  obtain ⟨-, hhead⟩ := head_cases raw
  obtain ⟨name, id, value⟩ := p
  by_cases hraw : raw &&& bindingFlag = 0
  · rw [if_pos hraw] at hhead ⊢
    cases value with
    | literal v =>
        constructor
        · rintro ⟨payload, hv, heq⟩
          obtain ⟨rfl, rfl⟩ := List.cons.inj heq
          exact ⟨hlow, v, rfl, hv⟩
        · rintro ⟨hid', v', heq, hv⟩
          obtain rfl := PropertyValue.literal.inj heq
          exact ⟨bs, hv, by rw [← hhead, hid']⟩
    | binding n =>
        constructor
        · rintro ⟨payload, -, heq⟩
          obtain ⟨rfl, rfl⟩ := List.cons.inj heq
          exact absurd hraw hflag'
        · rintro ⟨-, v, heq, -⟩
          cases heq
  · rw [if_neg hraw] at hhead ⊢
    cases value with
    | literal v =>
        constructor
        · rintro ⟨payload, -, heq⟩
          obtain ⟨rfl, rfl⟩ := List.cons.inj heq
          exact absurd hflag hraw
        · rintro ⟨-, n, heq, -⟩
          cases heq
    | binding n =>
        constructor
        · rintro ⟨payload, hn, heq⟩
          obtain ⟨rfl, rfl⟩ := List.cons.inj heq
          exact ⟨hlow', n, rfl, hn⟩
        · rintro ⟨hid', n', heq, hn⟩
          obtain rfl := PropertyValue.binding.inj heq
          exact ⟨bs, hn, by rw [← hhead, hid']⟩

end Property

/-- **Reading a property after its first byte takes what completes that byte to a form of it.** -/
theorem Decode.reads_property (symbols : SymbolTables) {raw : UInt8} (hraw : raw ≠ terminator) :
    Reads (property symbols raw) fun p bs => p.Known symbols ∧ p.Form (raw :: bs) := by
  obtain ⟨hid, hhead⟩ := Property.head_cases raw
  unfold property
  dsimp only
  cases hentry : symbols.propertyById? (raw &&& 0x7f) with
  | none =>
      refine (reads_refuse fun o => .unknownProperty _ (o - 1)).congr fun p bs => ?_
      refine ⟨False.elim, ?_⟩
      rintro ⟨⟨hlt, entry, hsome, -⟩, hform⟩
      obtain ⟨heq, -⟩ := (Property.form_cons_iff hlt).mp hform
      rw [heq, hsome] at hentry
      cases hentry
  | some entry =>
      refine (Takes.ite ((reads_value entry.type).bind_pure _)
        (reads_varint.bind_pure _)).congr fun p bs => ?_
      by_cases hflag : raw &&& bindingFlag = 0
      · rw [if_pos hflag] at hhead ⊢
        constructor
        · rintro ⟨v, ⟨hsuits, hv⟩, rfl⟩
          refine ⟨⟨hid, entry, hentry, rfl, ?_⟩, (Property.form_cons_iff hid).mpr ⟨rfl, ?_⟩⟩
          · intro v' heq
            obtain rfl := PropertyValue.literal.inj heq
            exact ⟨by rw [hhead]; exact hraw, hsuits⟩
          · rw [if_pos hflag]
            exact ⟨v, rfl, hv⟩
        · rintro ⟨⟨hlt, entry', hentry', hname, hvalue⟩, hform⟩
          obtain ⟨name, id, value⟩ := p
          obtain ⟨rfl, hform⟩ := (Property.form_cons_iff hlt).mp hform
          rw [if_pos hflag] at hform
          obtain ⟨v, rfl, hv⟩ := hform
          obtain rfl := Option.some.inj (hentry.symm.trans hentry')
          obtain rfl : entry.name = name := hname
          exact ⟨v, ⟨(hvalue v rfl).2, hv⟩, rfl⟩
      · rw [if_neg hflag] at hhead ⊢
        constructor
        · rintro ⟨n, hn, rfl⟩
          refine ⟨⟨hid, entry, hentry, rfl, ?_⟩, (Property.form_cons_iff hid).mpr ⟨rfl, ?_⟩⟩
          · intro v heq
            cases heq
          · rw [if_neg hflag]
            exact ⟨n, rfl, hn⟩
        · rintro ⟨⟨hlt, entry', hentry', hname, hvalue⟩, hform⟩
          obtain ⟨name, id, value⟩ := p
          obtain ⟨rfl, hform⟩ := (Property.form_cons_iff hlt).mp hform
          rw [if_neg hflag] at hform
          obtain ⟨n, rfl, hn⟩ := hform
          obtain rfl := Option.some.inj (hentry.symm.trans hentry')
          obtain rfl : entry.name = name := hname
          exact ⟨n, hn, rfl⟩

end WidgetLayout
