/-
The tags of a size list, packed and unpacked.

Four tags share a byte, so a byte is a number in base four whose digits are tags, the first one the
lowest: `toNat_packGroup` and `toNat_unpack` say so, and the rest is arithmetic.  Unpacking looks at
no more digits than there are items.  What stands above the last item in the last byte is therefore
never seen: `TagForm` lists the bytes that differ from the packed ones only there, and those are
exactly the bytes from which the tags are read back.
-/
import WidgetLayout.Proofs.Wire
import WidgetLayout.Widget.Decode

namespace WidgetLayout

open WidgetLayout.Progress

namespace SizeItem

/-! ### Four tags in a byte -/

theorem tag_lt (item : SizeItem) : item.tag.toNat < 4 := by
  cases item with
  | auto => decide
  | expand => decide
  | pixels count => exact (by decide : (2 : UInt8).toNat < 4)
  | percentage fraction => exact (by decide : (3 : UInt8).toNat < 4)

theorem toNat_packGroup {a b c d : UInt8} (ha : a.toNat < 4) (hb : b.toNat < 4) (hc : c.toNat < 4)
    (hd : d.toNat < 4) :
    (packGroup a b c d).toNat = a.toNat + 4 * b.toNat + 16 * c.toNat + 64 * d.toNat := by
  have h : ∀ a b c d : Fin 4,
      (packGroup (UInt8.ofNat a) (UInt8.ofNat b) (UInt8.ofNat c) (UInt8.ofNat d)).toNat =
        a.val + 4 * b.val + 16 * c.val + 64 * d.val := by
    decide +kernel
  have := h ⟨a.toNat, ha⟩ ⟨b.toNat, hb⟩ ⟨c.toNat, hc⟩ ⟨d.toNat, hd⟩
  simpa only [UInt8.ofNat_toNat] using this

theorem toNat_unpack (x : UInt8) :
    (x &&& 3).toNat = x.toNat % 4 ∧ (x >>> 2 &&& 3).toNat = x.toNat / 4 % 4 ∧
      (x >>> 4 &&& 3).toNat = x.toNat / 16 % 4 ∧ (x >>> 6 &&& 3).toNat = x.toNat / 64 % 4 := by
  have h : ∀ x : Fin 256, let x := UInt8.ofNat x
      (x &&& 3).toNat = x.toNat % 4 ∧ (x >>> 2 &&& 3).toNat = x.toNat / 4 % 4 ∧
        (x >>> 4 &&& 3).toNat = x.toNat / 16 % 4 ∧ (x >>> 6 &&& 3).toNat = x.toNat / 64 % 4 := by
    decide +kernel
  have := h ⟨x.toNat, x.toNat_lt⟩
  simpa only [UInt8.ofNat_toNat] using this

/-! ### Bytes that name the kinds of items -/

/-- What the last byte of tags is read modulo when there are `n` items: two bits for each that it
names. -/
def lastModulus (n : Nat) : Nat :=
  if n % 4 = 1 then 4 else if n % 4 = 2 then 16 else if n % 4 = 3 then 64 else 256

theorem lastModulus_four {a b c d : SizeItem} : lastModulus [a, b, c, d].length = 256 := by
  simp [lastModulus]

/-- The packed tags of some items, but for the bits of the last byte that name none of them. -/
def TagForm (items : List SizeItem) (bs : List UInt8) : Prop :=
  ∃ init last x, packTags items = init ++ [last] ∧ bs = init ++ [x] ∧
    x.toNat % lastModulus items.length = last.toNat

theorem TagForm.length_eq {items : List SizeItem} {bs : List UInt8} (h : TagForm items bs) :
    bs.length = (packTags items).length := by
  obtain ⟨init, last, x, heq, rfl, -⟩ := h
  rw [heq, List.length_append, List.length_append]
  rfl

theorem tagForm_of_packTags_eq {items : List SizeItem} {g : UInt8} (h : packTags items = [g])
    (bs : List UInt8) :
    TagForm items bs ↔ ∃ x, bs = [x] ∧ x.toNat % lastModulus items.length = g.toNat := by
  constructor
  · rintro ⟨init, last, x, heq, rfl, hx⟩
    rw [h] at heq
    cases init with
    | nil =>
        obtain ⟨rfl, -⟩ := List.cons.inj heq
        exact ⟨x, rfl, hx⟩
    | cons b init => simp at heq
  · rintro ⟨x, rfl, hx⟩
    exact ⟨[], g, x, h, rfl, hx⟩

theorem packTags_ne_nil {items : List SizeItem} (h : items ≠ []) : packTags items ≠ [] := by
  fun_cases packTags items with
  | case1 => exact absurd rfl h
  | _ => simp

/-- One byte of packed tags is its own form if no bit above the last item is set. -/
theorem tagForm_self {items : List SizeItem} {g : UInt8} (h : packTags items = [g])
    (hg : g.toNat < lastModulus items.length) : TagForm items [g] :=
  (tagForm_of_packTags_eq h [g]).mpr ⟨g, rfl, Nat.mod_eq_of_lt hg⟩

/-- A full byte has no free bits, so freedom is only in the bytes after it. -/
theorem tagForm_cons {a b c d : SizeItem} {rest : List SizeItem} (hrest : rest ≠ [])
    (bs : List UInt8) :
    TagForm (a :: b :: c :: d :: rest) bs ↔
      ∃ bs', bs = packGroup a.tag b.tag c.tag d.tag :: bs' ∧ TagForm rest bs' := by
  have hlast : lastModulus (a :: b :: c :: d :: rest).length = lastModulus rest.length := by
    simp only [lastModulus, List.length_cons,
      show (rest.length + 1 + 1 + 1 + 1) % 4 = rest.length % 4 by omega]
  unfold TagForm
  rw [hlast, packTags]
  constructor
  · rintro ⟨init, last, x, heq, rfl, hx⟩
    cases init with
    | nil =>
        have := (List.cons.inj heq).2
        exact absurd this (packTags_ne_nil hrest)
    | cons g init =>
        obtain ⟨rfl, htail⟩ := List.cons.inj heq
        exact ⟨init ++ [x], rfl, init, last, x, htail, rfl, hx⟩
  · rintro ⟨bs', rfl, init, last, x, heq, rfl, hx⟩
    exact ⟨packGroup a.tag b.tag c.tag d.tag :: init, last, x, by rw [heq]; rfl, rfl, hx⟩

theorem tagForm_packTags (items : List SizeItem) : items ≠ [] → TagForm items (packTags items) := by
  fun_induction packTags items with
  | case1 => exact fun h => absurd rfl h
  | case2 a =>
      intro _
      refine tagForm_self rfl ?_
      have ha := a.tag_lt
      rw [toNat_packGroup ha (by decide) (by decide) (by decide)]
      exact ha
  | case3 a b =>
      intro _
      refine tagForm_self rfl ?_
      have ha := a.tag_lt
      have hb := b.tag_lt
      rw [toNat_packGroup ha hb (by decide) (by decide)]
      show a.tag.toNat + 4 * b.tag.toNat < 16
      omega
  | case4 a b c =>
      intro _
      refine tagForm_self rfl ?_
      have ha := a.tag_lt
      have hb := b.tag_lt
      have hc := c.tag_lt
      rw [toNat_packGroup ha hb hc (by decide)]
      show a.tag.toNat + 4 * b.tag.toNat + 16 * c.tag.toNat < 64
      omega
  | case5 a b c d rest ih =>
      intro _
      by_cases hrest : rest = []
      · subst hrest
        refine tagForm_self rfl ?_
        rw [lastModulus_four]
        exact UInt8.toNat_lt _
      · exact (tagForm_cons hrest _).mpr ⟨_, rfl, ih hrest⟩

/-! ### The same bytes by what is unpacked from them

`TagForm` compares bytes with the packed ones, which a reader never sees.  For a reader the same
is said of the tags that come out. -/

theorem unpackGroup_take_one {a x : UInt8} :
    [a] = (Decode.unpackGroup x).take 1 ↔ x.toNat % 4 = a.toNat := by
  obtain ⟨h₀, -, -, -⟩ := toNat_unpack x
  show [a] = [x &&& 3] ↔ _
  rw [List.cons.injEq, ← UInt8.toNat_inj, h₀]
  simp [eq_comm]

theorem unpackGroup_take_two {a b x : UInt8} (ha : a.toNat < 4) :
    [a, b] = (Decode.unpackGroup x).take 2 ↔ x.toNat % 16 = a.toNat + 4 * b.toNat := by
  obtain ⟨h₀, h₁, -, -⟩ := toNat_unpack x
  show [a, b] = [x &&& 3, x >>> 2 &&& 3] ↔ _
  rw [List.cons.injEq, List.cons.injEq, ← UInt8.toNat_inj, ← UInt8.toNat_inj, h₀, h₁]
  constructor
  · rintro ⟨ha', hb', -⟩
    omega
  · intro h
    exact ⟨by omega, by omega, rfl⟩

theorem unpackGroup_take_three {a b c x : UInt8} (ha : a.toNat < 4) (hb : b.toNat < 4) :
    [a, b, c] = (Decode.unpackGroup x).take 3 ↔
      x.toNat % 64 = a.toNat + 4 * b.toNat + 16 * c.toNat := by
  obtain ⟨h₀, h₁, h₂, -⟩ := toNat_unpack x
  show [a, b, c] = [x &&& 3, x >>> 2 &&& 3, x >>> 4 &&& 3] ↔ _
  rw [List.cons.injEq, List.cons.injEq, List.cons.injEq, ← UInt8.toNat_inj, ← UInt8.toNat_inj,
    ← UInt8.toNat_inj, h₀, h₁, h₂]
  constructor
  · rintro ⟨ha', hb', hc', -⟩
    omega
  · intro h
    exact ⟨by omega, by omega, by omega, rfl⟩

theorem unpackGroup_eq_iff {a b c d x : UInt8} (ha : a.toNat < 4) (hb : b.toNat < 4)
    (hc : c.toNat < 4) (hd : d.toNat < 4) :
    [a, b, c, d] = Decode.unpackGroup x ↔ x = packGroup a b c d := by
  obtain ⟨h₀, h₁, h₂, h₃⟩ := toNat_unpack x
  have hx := x.toNat_lt
  show [a, b, c, d] = [x &&& 3, x >>> 2 &&& 3, x >>> 4 &&& 3, x >>> 6 &&& 3] ↔ _
  rw [List.cons.injEq, List.cons.injEq, List.cons.injEq, List.cons.injEq, ← UInt8.toNat_inj,
    ← UInt8.toNat_inj, ← UInt8.toNat_inj, ← UInt8.toNat_inj, ← UInt8.toNat_inj, h₀, h₁, h₂, h₃,
    toNat_packGroup ha hb hc hd]
  constructor
  · rintro ⟨ha', hb', hc', hd', -⟩
    omega
  · intro h
    exact ⟨by omega, by omega, by omega, by omega, rfl⟩

/-- The tags that `bs` holds for `n` items, in as many bytes as `n` items need. -/
def Unpacks (n : Nat) (tags bs : List UInt8) : Prop :=
  bs.length = (n + 3) / 4 ∧ tags = (bs.flatMap Decode.unpackGroup).take n

theorem unpacks_single {n : Nat} {tags : List UInt8} {bs : List UInt8} (h₀ : 0 < n) (h₄ : n ≤ 4) :
    Unpacks n tags bs ↔ ∃ x, bs = [x] ∧ tags = (Decode.unpackGroup x).take n := by
  unfold Unpacks
  rw [show (n + 3) / 4 = 1 by omega, List.length_eq_one_iff]
  constructor
  · rintro ⟨⟨x, rfl⟩, rfl⟩
    exact ⟨x, rfl, by simp⟩
  · rintro ⟨x, rfl, rfl⟩
    exact ⟨⟨x, rfl⟩, by simp⟩

theorem unpacks_cons {n : Nat} {tags : List UInt8} {x : UInt8} {bs : List UInt8} (h : 4 ≤ n)
    (hlen : tags.length = 4) {tags' : List UInt8} :
    Unpacks n (tags ++ tags') (x :: bs) ↔
      tags = Decode.unpackGroup x ∧ Unpacks (n - 4) tags' bs := by
  unfold Unpacks
  have hx : (Decode.unpackGroup x).length = 4 := rfl
  have htake : ((x :: bs).flatMap Decode.unpackGroup).take n =
      Decode.unpackGroup x ++ (bs.flatMap Decode.unpackGroup).take (n - 4) := by
    rw [List.flatMap_cons, List.take_append, List.take_of_length_le (by omega), hx]
  rw [htake, List.length_cons, show (n + 3) / 4 = (n - 4 + 3) / 4 + 1 by omega]
  constructor
  · rintro ⟨hbs, heq⟩
    obtain ⟨h₁, h₂⟩ := List.append_inj heq (by rw [hlen, hx])
    exact ⟨h₁, by omega, h₂⟩
  · rintro ⟨rfl, hbs, rfl⟩
    exact ⟨by omega, rfl⟩

/-- Bytes name the kinds of the items exactly if the tags of the items are unpacked from them. -/
theorem unpacks_iff (items : List SizeItem) :
    items ≠ [] → ∀ bs, Unpacks items.length (items.map tag) bs ↔ TagForm items bs := by
  fun_induction packTags items with
  | case1 => exact fun h => absurd rfl h
  | case2 a =>
      intro _ bs
      rw [unpacks_single (by simp) (by simp), tagForm_of_packTags_eq rfl]
      refine exists_congr fun x => and_congr_right fun _ => ?_
      rw [toNat_packGroup a.tag_lt (by decide) (by decide) (by decide)]
      exact unpackGroup_take_one
  | case3 a b =>
      intro _ bs
      rw [unpacks_single (by simp) (by simp), tagForm_of_packTags_eq rfl]
      refine exists_congr fun x => and_congr_right fun _ => ?_
      rw [toNat_packGroup a.tag_lt b.tag_lt (by decide) (by decide)]
      exact unpackGroup_take_two a.tag_lt
  | case4 a b c =>
      intro _ bs
      rw [unpacks_single (by simp) (by simp), tagForm_of_packTags_eq rfl]
      refine exists_congr fun x => and_congr_right fun _ => ?_
      rw [toNat_packGroup a.tag_lt b.tag_lt c.tag_lt (by decide)]
      exact unpackGroup_take_three a.tag_lt b.tag_lt
  | case5 a b c d rest ih =>
      intro _ bs
      have hgroup := @unpackGroup_eq_iff a.tag b.tag c.tag d.tag
      by_cases hrest : rest = []
      · subst hrest
        rw [unpacks_single (by simp) (by simp), tagForm_of_packTags_eq rfl]
        refine exists_congr fun x => and_congr_right fun _ => ?_
        rw [lastModulus_four, Nat.mod_eq_of_lt x.toNat_lt, UInt8.toNat_inj]
        exact hgroup a.tag_lt b.tag_lt c.tag_lt d.tag_lt
      · rw [tagForm_cons hrest]
        cases bs with
        | nil => simp [Unpacks]
        | cons x bs =>
            have hunpacks : Unpacks (a :: b :: c :: d :: rest).length
                ([a.tag, b.tag, c.tag, d.tag] ++ rest.map tag) (x :: bs) ↔ _ :=
              unpacks_cons (by simp) rfl
            refine hunpacks.trans ?_
            rw [hgroup a.tag_lt b.tag_lt c.tag_lt d.tag_lt,
              show (a :: b :: c :: d :: rest).length - 4 = rest.length by simp, ih hrest]
            constructor
            · rintro ⟨rfl, hform⟩
              exact ⟨bs, rfl, hform⟩
            · rintro ⟨bs', heq, hform⟩
              obtain ⟨rfl, rfl⟩ := List.cons.inj heq
              exact ⟨rfl, hform⟩

end SizeItem

/-! ### Reading tags -/

namespace Decode

theorem reads_read {α : Type} {part : WirePart} {m : Wire.Reader Wire.ReadFault α}
    {F : α → List UInt8 → Prop} (h : Wire.Reads m F) : Wire.Reads (read part m) F := by
  have hread : ∀ c a c', read part m c = .ok a c' ↔ m c = .ok a c' := by
    intro c a c'
    unfold read
    cases m c <;> simp
  exact
    { valid := fun _ _ => trivial
      sound := fun hc hm => h.sound hc ((hread _ _ _).mp hm)
      complete := fun hc hF hq => by
        obtain ⟨c', hm, hc'⟩ := h.complete hc hF hq
        exact ⟨c', (hread _ _ _).mpr hm, hc'⟩ }

theorem reads_tag : Wire.Reads tag fun b bs => bs = [b] := reads_read Wire.reads_byte

/-- The tags of `n` items are read from as many bytes as they need, and from any such bytes. -/
theorem reads_sizeTags (n : Nat) : Wire.Reads (sizeTags n) (SizeItem.Unpacks n) := by
  induction n using Nat.strongRecOn with
  | ind n ih =>
      unfold sizeTags
      split
      · rename_i hn
        refine (Takes.pure _).congr fun tags bs => ?_
        subst hn
        constructor
        · rintro ⟨rfl, rfl⟩
          exact ⟨rfl, rfl⟩
        · rintro ⟨hlen, rfl⟩
          exact ⟨rfl, List.length_eq_zero_iff.mp hlen⟩
      · rename_i hn
        refine (reads_tag.bind fun b => (ih (n - 4) (by omega)).bind fun rest => Takes.pure _).congr
          fun tags bs => ?_
        constructor
        · rintro ⟨b, bs₁, bs₂, rfl, ⟨rest, bs₃, bs₄, ⟨hlen, rfl⟩, ⟨rfl, rfl⟩, rfl⟩, rfl⟩
          refine ⟨?_, ?_⟩
          · show (b :: (bs₃ ++ [])).length = _
            rw [List.append_nil, List.length_cons, hlen]
            omega
          · show _ = ((b :: (bs₃ ++ [])).flatMap unpackGroup).take n
            rw [List.append_nil, List.flatMap_cons, List.take_append]
            rfl
        · rintro ⟨hlen, rfl⟩
          cases bs with
          | nil =>
              simp only [List.length_nil] at hlen
              omega
          | cons b bs =>
              rw [List.length_cons] at hlen
              refine ⟨b, [b], bs, rfl, ⟨_, bs, [], ⟨by omega, rfl⟩, ⟨?_, rfl⟩, ?_⟩, rfl⟩
              · rw [List.flatMap_cons, List.take_append]
                rfl
              · exact (List.append_nil bs).symm

end Decode

end WidgetLayout
