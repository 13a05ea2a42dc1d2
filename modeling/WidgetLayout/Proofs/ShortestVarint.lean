/-
The written form of a number is the shortest that is read as it, and the only one of its length.

What is read as a number is said without the reader here: bytes of which all but the last have bit 7
set, and whose other bits, seven to a byte and the most significant first, are the digits of the
number to the base 128 (`Spells`).  By `groups_eq` such bytes are the written form behind empty
groups, so they are never shorter.

A read that fails has either refused what it read or missed a byte that was announced.  Which of the
two it was can be seen from the bytes: only where there are fewer than five, and each announces
another one, did the data end too early (`varintGroups_error`).
-/
import Mathlib.Data.Nat.Digits.Defs
import WidgetLayout.Proofs.Locality

namespace WidgetLayout.Wire

open WidgetLayout.Progress

/-- The bytes of `head` and then `last` spell the number `v` in groups of seven bits. -/
structure Spells (head : List UInt8) (last : UInt8) (v : UInt32) : Prop where
  /-- Bit 7 announces another byte. -/
  announces : ∀ b ∈ head, b.toNat.testBit 7 = true
  ends : last.toNat.testBit 7 = false
  /-- The other bits are digits to the base 128, the least significant in the last byte. -/
  value : Nat.ofDigits 128 ((head ++ [last]).reverse.map fun b => b.toNat % 128) = v.toNat

theorem testBit_seven (b : UInt8) : b.toNat.testBit 7 = decide (128 ≤ b.toNat) := by
  have hlt := b.toNat_lt
  rw [Nat.testBit_eq_decide_div_mod_eq]
  congr 1
  exact propext ⟨fun h => by omega, fun h => by omega⟩

theorem groupsFrom_eq_ofDigits (bs : List UInt8) :
    groupsFrom 0 bs = Nat.ofDigits 128 (bs.reverse.map fun b => b.toNat % 128) := by
  induction bs using List.reverseRec with
  | nil => rfl
  | append_singleton bs b ih =>
      have hlast : ∀ n, groupsFrom n [b] = b.toNat % 128 + 128 * n := by
        intro n
        show n * 128 + b.toNat % 128 = _
        omega
      simp [groupsFrom_append, ih, hlast, Nat.ofDigits_cons]

theorem groups_iff_exists_spells {bs : List UInt8} {v : UInt32} :
    Groups bs ∧ groupsFrom 0 bs = v.toNat ↔
      ∃ head last, bs = head ++ [last] ∧ Spells head last v := by
  constructor
  · rintro ⟨⟨head, last, rfl, hhead, hlast⟩, hvalue⟩
    refine ⟨head, last, rfl, fun b hb => ?_, ?_, ?_⟩
    · simpa [testBit_seven] using hhead b hb
    · simpa [testBit_seven] using hlast
    · rw [← groupsFrom_eq_ofDigits, hvalue]
  · rintro ⟨head, last, rfl, h⟩
    refine ⟨⟨head, last, rfl, fun b hb => ?_, ?_⟩, ?_⟩
    · simpa [testBit_seven] using h.announces b hb
    · simpa [testBit_seven] using h.ends
    · rw [groupsFrom_eq_ofDigits, h.value]

/-- No spelling of a number is shorter than its written form, and no other one is as short. -/
theorem Spells.length_varint_le {head : List UInt8} {last : UInt8} {v : UInt32}
    (h : Spells head last v) :
    (varint v).length ≤ head.length + 1 ∧
      ((varint v).length = head.length + 1 → varint v = head ++ [last]) := by
  obtain ⟨hgroups, hvalue⟩ := groups_iff_exists_spells.mpr ⟨head, last, rfl, h⟩
  obtain ⟨k, hk⟩ := groups_eq hgroups hvalue
  have hlength := congrArg List.length hk
  simp only [List.length_append, List.length_replicate, List.length_singleton] at hlength
  refine ⟨by omega, fun heq => ?_⟩
  obtain rfl : k = 0 := by omega
  exact hk.symm

namespace Reader

/-- A varint is read from every spelling of at most five bytes, and from nothing else. -/
theorem varint_eq_ok_iff (c c' : Cursor) (v : UInt32) :
    varint c = .ok v c' ↔ ∃ head last, Spells head last v ∧ head.length + 1 ≤ 5 ∧
      c.rest = head ++ last :: c'.rest ∧ c'.offset = c.offset + (head.length + 1) := by
  have hreads := reads_varintGroups 5 0
  constructor
  · intro h
    obtain ⟨bs, ⟨hgroups, hlength, hvalue⟩, hrest, hoffset⟩ := hreads.sound trivial h
    obtain ⟨head, last, rfl, hspells⟩ := groups_iff_exists_spells.mp ⟨hgroups, hvalue⟩
    have hrest : c.rest = (head ++ [last]) ++ c'.rest := hrest
    have hoffset : c'.offset = c.offset + (head ++ [last]).length := hoffset
    exact ⟨head, last, hspells, by simpa using hlength, by simpa using hrest,
      by simpa using hoffset⟩
  · rintro ⟨head, last, hspells, hlength, hrest, hoffset⟩
    obtain ⟨hgroups, hvalue⟩ := groups_iff_exists_spells.mpr ⟨head, last, rfl, hspells⟩
    have hok := hreads.ok_of_append ⟨hgroups, by simpa using hlength, hvalue⟩ c.offset c'.rest
    rw [List.append_assoc, List.singleton_append, ← hrest, List.length_append,
      List.length_singleton, ← hoffset] at hok
    exact hok

/-- Where reading groups fails, the data ended exactly if it is too short and announces more to the
end. -/
theorem varintGroups_error (n : Nat) :
    ∀ {value : Nat} {c c' : Cursor} {e : ReadFault}, varintGroups value n c = .error e c' →
      (∃ k ≤ n, k ≤ c.rest.length ∧ c' = ⟨c.offset + k, c.rest.drop k⟩) ∧
        (e.isEnd = true ↔ c.rest.length < n ∧ ∀ b ∈ c.rest, 128 ≤ b.toNat) := by
  induction n with
  | zero =>
      intro value c c' e h
      cases h
      exact ⟨⟨0, Nat.le_refl 0, Nat.zero_le _, rfl⟩, by simp [ReadFault.isEnd]⟩
  | succ n ih =>
      rintro value ⟨offset, rest⟩ c' e h
      cases rest with
      | nil =>
          cases h
          exact ⟨⟨0, Nat.zero_le _, Nat.zero_le _, rfl⟩, by simp [ReadFault.isEnd]⟩
      | cons b rest =>
          have hbyte : byte ⟨offset, b :: rest⟩ = .ok b ⟨offset + 1, rest⟩ := rfl
          rw [varintGroups, bind_of_ok hbyte] at h
          by_cases hb : b.toNat < 128
          · -- the number ends here, so it was refused for its size
            rw [if_pos hb] at h
            split at h
            · cases h
            · cases h
              refine ⟨⟨1, by omega, by simp, rfl⟩, ?_⟩
              simp only [ReadFault.isEnd, Bool.false_eq_true, false_iff]
              rintro ⟨-, hall⟩
              have := hall b List.mem_cons_self
              omega
          · rw [if_neg hb] at h
            obtain ⟨⟨k, hk, hlength, rfl⟩, hend⟩ := ih h
            refine ⟨⟨k + 1, by omega, Nat.succ_le_succ hlength, ?_⟩, ?_⟩
            · rw [Nat.add_right_comm]
              rfl
            · rw [hend, List.length_cons, List.forall_mem_cons]
              dsimp only
              constructor
              · rintro ⟨hlt, hall⟩
                exact ⟨by omega, Nat.le_of_not_lt hb, hall⟩
              · rintro ⟨hlt, -, hall⟩
                exact ⟨by omega, hall⟩

end Reader

/-- **The written form of a number is the shortest there is.**  A number is read exactly from its
spellings of at most five bytes.  The written form is one of them; every spelling of the number is
at least as long, and one of the same length is the written form itself.  A read that fails has
taken at most five bytes, and it is for lack of data exactly if there are fewer than five bytes and
all of them have bit 7 set. -/
theorem varint_shortest :
    (∀ (c c' : Cursor) (v : UInt32), Reader.varint c = .ok v c' ↔
      ∃ head last, Spells head last v ∧ head.length + 1 ≤ 5 ∧
        c.rest = head ++ last :: c'.rest ∧ c'.offset = c.offset + (head.length + 1)) ∧
    (∀ (v : UInt32) (offset : Nat) (rest : List UInt8),
      Reader.varint ⟨offset, varint v ++ rest⟩ = .ok v ⟨offset + (varint v).length, rest⟩) ∧
    (∀ (head : List UInt8) (last : UInt8) (v : UInt32), Spells head last v →
      (varint v).length ≤ head.length + 1 ∧
        ((varint v).length = head.length + 1 → varint v = head ++ [last])) ∧
    ∀ (c c' : Cursor) (e : ReadFault), Reader.varint c = .error e c' →
      (∃ n ≤ 5, n ≤ c.rest.length ∧ c' = ⟨c.offset + n, c.rest.drop n⟩) ∧
        (e.isEnd = true ↔ c.rest.length < 5 ∧ ∀ b ∈ c.rest, b.toNat.testBit 7 = true) := by
  refine ⟨Reader.varint_eq_ok_iff, fun v offset rest => ?_, fun head last v h =>
    h.length_varint_le, ?_⟩
  · exact reads_varint.ok_of_append (padded_varint v) offset rest
  · intro c c' e h
    have hhigh : (∀ b ∈ c.rest, b.toNat.testBit 7 = true) ↔ ∀ b ∈ c.rest, 128 ≤ b.toNat := by
      simp [testBit_seven]
    rw [hhigh]
    exact Reader.varintGroups_error 5 h

/-- The number 300 behind an empty group, and four bytes that announce a fifth. -/
theorem varint_shortest_padded :
    Reader.varint ⟨0, [0x80, 0x82, 0x2C, 7]⟩ = .ok 300 ⟨3, [7]⟩ ∧
      Spells [0x80, 0x82] 0x2C 300 ∧ (varint 300).length ≤ 3 ∧
      Reader.varint ⟨0, [0xFF, 0x80, 0x80, 0x80]⟩ = .error .endOfData ⟨4, []⟩ ∧
      (ReadFault.endOfData.isEnd = true ↔ [0xFF, 0x80, 0x80, 0x80].length < 5 ∧
        ∀ b ∈ ([0xFF, 0x80, 0x80, 0x80] : List UInt8), b.toNat.testBit 7 = true) := by
  have hspells : Spells [0x80, 0x82] 0x2C 300 := ⟨by simp [Nat.testBit], by decide, by decide⟩
  have hread := (varint_shortest.1 ⟨0, [0x80, 0x82, 0x2C, 7]⟩ ⟨3, [7]⟩ 300).mpr
    ⟨[0x80, 0x82], 0x2C, hspells, by decide, rfl, rfl⟩
  have hfails : Reader.varint ⟨0, [0xFF, 0x80, 0x80, 0x80]⟩ = .error .endOfData ⟨4, []⟩ := by rfl
  exact ⟨hread, hspells, (varint_shortest.2.2.1 _ _ _ hspells).1, hfails,
    (varint_shortest.2.2.2 _ _ _ hfails).2⟩

end WidgetLayout.Wire
