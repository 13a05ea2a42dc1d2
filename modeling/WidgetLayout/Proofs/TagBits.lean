/-
Where the tags of a size list stand in their bytes.

Packed tags are slots of two bits, four to a byte, the first slot in the low bits.  `tagAt` looks a
slot up by the number of its item alone, so it knows nothing of groups, of partial groups or of how
bytes are read.  All bytes together are all slots (`getElem?_flatMap_unpackGroup`).  Packing fills
them with the tags of the items and then with zeros (`flatMap_unpackGroup_packTags`), and reading
gives those of the first items back.
-/
import WidgetLayout.Proofs.BoundedDecoding

namespace WidgetLayout

open WidgetLayout.Progress

namespace SizeItem

/-- The two bits that stand for an item in bytes of packed tags. -/
def tagAt (bs : List UInt8) (i : Nat) : Option UInt8 :=
  bs[i / 4]?.map fun b => b >>> UInt8.ofNat (2 * (i % 4)) &&& 3

/-- Unpacking all bytes gives all slots in their order. -/
theorem getElem?_flatMap_unpackGroup (bs : List UInt8) (i : Nat) :
    (bs.flatMap Decode.unpackGroup)[i]? = tagAt bs i := by
  induction bs generalizing i with
  | nil => simp [tagAt]
  | cons b bs ih =>
      match i with
      | 0 => simp [tagAt, Decode.unpackGroup]
      | 1 => rfl
      | 2 => rfl
      | 3 => rfl
      | i + 4 =>
          have hslot : tagAt (b :: bs) (i + 4) = tagAt bs i := by
            rw [tagAt, tagAt, Nat.add_div_right i (by decide), Nat.add_mod_right,
              List.getElem?_cons_succ]
          rw [hslot, ← ih i]
          rfl

theorem length_flatMap_unpackGroup (bs : List UInt8) :
    (bs.flatMap Decode.unpackGroup).length = 4 * bs.length := by
  simp [List.length_flatMap, Decode.unpackGroup, Nat.mul_comm]

theorem unpackGroup_packGroup {a b c d : UInt8} (ha : a.toNat < 4) (hb : b.toNat < 4)
    (hc : c.toNat < 4) (hd : d.toNat < 4) : Decode.unpackGroup (packGroup a b c d) = [a, b, c, d] :=
  ((unpackGroup_eq_iff ha hb hc hd).mpr rfl).symm

/-- The slots of packed tags are the tags, and zeros up to the end of the last byte. -/
theorem flatMap_unpackGroup_packTags (items : List SizeItem) :
    ∃ free, (packTags items).flatMap Decode.unpackGroup =
      items.map tag ++ List.replicate free 0 := by
  have hzero : (0 : UInt8).toNat < 4 := by decide
  fun_induction packTags items with
  | case1 => exact ⟨0, rfl⟩
  | case2 a => exact ⟨3, by simp [unpackGroup_packGroup a.tag_lt hzero hzero hzero]⟩
  | case3 a b => exact ⟨2, by simp [unpackGroup_packGroup a.tag_lt b.tag_lt hzero hzero]⟩
  | case4 a b c => exact ⟨1, by simp [unpackGroup_packGroup a.tag_lt b.tag_lt c.tag_lt hzero]⟩
  | case5 a b c d rest ih =>
      obtain ⟨free, hfree⟩ := ih
      refine ⟨free, ?_⟩
      rw [List.flatMap_cons, hfree, unpackGroup_packGroup a.tag_lt b.tag_lt c.tag_lt d.tag_lt]
      rfl

/-- In packed tags the slot of an item holds its tag, and a slot without an item holds zero. -/
theorem tagAt_packTags (items : List SizeItem) {i : Nat} (hi : i < 4 * (packTags items).length) :
    tagAt (packTags items) i = some ((items[i]?.map tag).getD 0) := by
  obtain ⟨free, hfree⟩ := flatMap_unpackGroup_packTags items
  have hslots := length_flatMap_unpackGroup (packTags items)
  rw [hfree, List.length_append, List.length_map, List.length_replicate] at hslots
  rw [← getElem?_flatMap_unpackGroup, hfree]
  by_cases hitem : i < items.length
  · rw [List.getElem?_append_left (by simpa using hitem), List.getElem?_map,
      List.getElem?_eq_getElem hitem]
    rfl
  · rw [List.getElem?_append_right (by simpa using hitem), List.length_map,
      List.getElem?_replicate_of_lt (by omega), List.getElem?_eq_none (by omega)]
    rfl

/-- What is unpacked are the slots of the first items. -/
theorem Unpacks.slots {n : Nat} {tags bs : List UInt8} (h : Unpacks n tags bs) :
    tags.length = n ∧ ∀ i < n, tags[i]? = tagAt bs i := by
  obtain ⟨hlength, rfl⟩ := h
  constructor
  · rw [List.length_take, length_flatMap_unpackGroup]
    omega
  · intro i hi
    rw [List.getElem?_take_of_lt hi, getElem?_flatMap_unpackGroup]

end SizeItem

/-! ### Reading a size list -/

namespace Decode

open WidgetLayout.Wire (Padded)

/-- Once the count and the tags are read, what is left of a size list is what its items carry. -/
theorem sizeList_of_tags {count : UInt32} {head tail tags : List UInt8} (hcount : count ≠ 0)
    (hhead : Padded count head) (htail : SizeItem.Unpacks count.toNat tags tail) (offset : Nat)
    (rest : List UInt8) :
    sizeList ⟨offset, head ++ (tail ++ rest)⟩ =
      sizeItems tags ⟨offset + head.length + tail.length, rest⟩ := by
  have hvarint := reads_varint.ok_of_append hhead offset (tail ++ rest)
  have htags := (reads_sizeTags count.toNat).ok_of_append htail (offset + head.length) rest
  rw [sizeList, bind_of_ok hvarint, if_neg hcount, bind_of_ok htags]

end Decode

namespace SizeItem

open WidgetLayout.Wire (Padded)

/-- **Every tag stands in the slot of its item, and is read from there.**  Packing needs a byte for
every four items; the slots of the last byte that are not needed hold zero.  Reading takes just
these bytes, whatever they are, and gives what stands in the slots of the items; then the size list
goes on with what its items carry. -/
theorem packTags_sizeTags_slots :
    (∀ items : List SizeItem,
        (packTags items).length = (items.length + 3) / 4 ∧
          ∀ i < 4 * (packTags items).length,
            tagAt (packTags items) i = some ((items[i]?.map tag).getD 0)) ∧
      ∀ (n : Nat) (bs : List UInt8), 1 ≤ n → bs.length = (n + 3) / 4 →
        ∃ tags : List UInt8, tags.length = n ∧ (∀ i < n, tags[i]? = tagAt bs i) ∧
          (∀ offset rest, Decode.sizeTags n ⟨offset, bs ++ rest⟩ =
            .ok tags ⟨offset + bs.length, rest⟩) ∧
          ∀ (count : UInt32) (head : List UInt8), count.toNat = n → Padded count head →
            ∀ offset rest, Decode.sizeList ⟨offset, head ++ (bs ++ rest)⟩ =
              Decode.sizeItems tags ⟨offset + head.length + bs.length, rest⟩ := by
  refine ⟨fun items => ⟨length_packTags items, fun i hi => tagAt_packTags items hi⟩, ?_⟩
  intro n bs hn hlength
  have hunpacks : Unpacks n ((bs.flatMap Decode.unpackGroup).take n) bs := ⟨hlength, rfl⟩
  obtain ⟨htags, hslots⟩ := hunpacks.slots
  refine ⟨_, htags, hslots, (Decode.reads_sizeTags n).ok_of_append hunpacks, ?_⟩
  rintro count head rfl hhead offset rest
  have hcount : count ≠ 0 := by
    rintro rfl
    exact absurd hn (by decide)
  exact Decode.sizeList_of_tags hcount hhead hunpacks offset rest

/-- Four items that fill a byte, and two more. -/
def sixItems : List SizeItem :=
  [.percentage ⟨0⟩, .percentage ⟨0⟩, .percentage ⟨0⟩, .percentage ⟨0⟩, .expand, .pixels 3]

/-- Six items need two bytes, and two slots of the second one are free.  Where the count is seven,
one of these is read, and the bits above it may be anything. -/
theorem packTags_sizeTags_slots_six :
    packTags sixItems = [0xFF, 0x09] ∧
      tagAt [0xFF, 0x09] 5 = some 2 ∧ tagAt [0xFF, 0x09] 6 = some 0 ∧
      tagAt [0xFF, 0x09] 7 = some 0 ∧
      Decode.sizeTags 7 ⟨0, [0xFF, 0xC9, 8]⟩ = .ok [3, 3, 3, 3, 1, 2, 0] ⟨2, [8]⟩ := by
  have hpacked : packTags sixItems = [0xFF, 0x09] := by decide
  obtain ⟨hpack, hread⟩ := packTags_sizeTags_slots
  obtain ⟨-, hslot⟩ := hpack sixItems
  rw [hpacked] at hslot
  obtain ⟨tags, hlength, htags, hsizeTags, -⟩ := hread 7 [0xFF, 0xC9] (by decide) (by decide)
  have hseven : tags = [3, 3, 3, 3, 1, 2, 0] := by
    have hslots : ∀ i < 7, tagAt [0xFF, 0xC9] i = [3, 3, 3, 3, 1, 2, 0][i]? := by decide
    refine List.ext_getElem? fun i => ?_
    by_cases hi : i < 7
    · rw [htags i hi, hslots i hi]
    · rw [List.getElem?_eq_none (by omega), List.getElem?_eq_none (by simpa using hi)]
  refine ⟨hpacked, hslot 5 (by decide), hslot 6 (by decide), hslot 7 (by decide), ?_⟩
  rw [← hseven]
  exact hsizeTags 0 [8]

end SizeItem

end WidgetLayout
