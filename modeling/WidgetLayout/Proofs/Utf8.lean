/-
UTF-8 has one form for every text.

`decode` accepts exactly the bytes that `encode` writes, so the bytes of a text and the text of its
bytes determine each other (`decode_eq_ok_iff`).  Characters are settled first, by the number of
bytes they take: the ranges that `decodeChar` allows for the first two bytes are just those in which
the number of a character needs that many bytes, is no surrogate and is not too large.
-/
import WidgetLayout.Text.Utf8

namespace WidgetLayout.Text.Utf8

/-! ### Numbers of characters -/

theorem toNat_ofNat_of_valid {n : Nat} (h : n < 0xd800 ∨ (0xdfff < n ∧ n < 0x110000)) :
    (Char.ofNat n).val.toNat = n := by
  have hvalid : n.isValidChar := h
  unfold Char.ofNat
  rw [dif_pos hvalid]
  rfl

theorem toNat_valid (c : Char) :
    c.val.toNat < 0xd800 ∨ (0xdfff < c.val.toNat ∧ c.val.toNat < 0x110000) :=
  c.valid

theorem eq_ofNat {c : Char} {n : Nat} (h : n = c.val.toNat) : Char.ofNat n = c := by
  rw [h]
  exact Char.ofNat_toNat c

/-! ### What is decoded was encoded

There are four lengths, each with its range of second bytes.  The ranges leave out surrogates and
encodings that are longer than needed. -/

theorem isTail_iff {b : UInt8} : isTail b = true ↔ 128 ≤ b.toNat ∧ b.toNat ≤ 191 := by
  simp [isTail, UInt8.le_iff_toNat_le]

theorem isSecondOfThree_iff {b c : UInt8} :
    isSecondOfThree b c = true ↔
      (if b.toNat = 0xe0 then 0xa0 else 0x80) ≤ c.toNat ∧
        c.toNat ≤ (if b.toNat = 0xed then 0x9f else 0xbf) := by
  unfold isSecondOfThree
  simp only [← UInt8.toNat_inj, Bool.and_eq_true, decide_eq_true_eq, UInt8.le_iff_toNat_le,
    apply_ite UInt8.toNat, UInt8.reduceToNat]

theorem isSecondOfFour_iff {b c : UInt8} :
    isSecondOfFour b c = true ↔
      (if b.toNat = 0xf0 then 0x90 else 0x80) ≤ c.toNat ∧
        c.toNat ≤ (if b.toNat = 0xf4 then 0x8f else 0xbf) := by
  unfold isSecondOfFour
  simp only [← UInt8.toNat_inj, Bool.and_eq_true, decide_eq_true_eq, UInt8.le_iff_toNat_le,
    apply_ite UInt8.toNat, UInt8.reduceToNat]

theorem ofNat_eq {b : UInt8} {n : Nat} (h : n = b.toNat) : UInt8.ofNat n = b := by
  rw [h, UInt8.ofNat_toNat]

theorem encodeChar_one {a : UInt8} (h : a.toNat < 128) :
    String.utf8EncodeChar (Char.ofNat a.toNat) = [a] := by
  have hn := toNat_ofNat_of_valid (n := a.toNat) (by omega)
  simp only [String.utf8EncodeChar, hn]
  rw [if_pos (by omega), UInt8.ofNat_toNat]

theorem encodeChar_two {a b : UInt8} (ha : 0xc2 ≤ a.toNat ∧ a.toNat ≤ 0xdf)
    (hb : 128 ≤ b.toNat ∧ b.toNat ≤ 191) :
    String.utf8EncodeChar (Char.ofNat (a.toNat % 32 * 64 + tailBits b)) = [a, b] := by
  unfold tailBits
  have hn := toNat_ofNat_of_valid (n := a.toNat % 32 * 64 + b.toNat % 64) (by omega)
  simp only [String.utf8EncodeChar, hn]
  rw [if_neg (by omega), if_pos (by omega), ofNat_eq (b := a) (by omega),
    ofNat_eq (b := b) (by omega)]

theorem encodeChar_three {a b c : UInt8} (ha : 0xe0 ≤ a.toNat ∧ a.toNat ≤ 0xef)
    (hb : isSecondOfThree a b = true) (hc : 128 ≤ c.toNat ∧ c.toNat ≤ 191) :
    String.utf8EncodeChar (Char.ofNat (a.toNat % 16 * 4096 + tailBits b * 64 + tailBits c)) =
      [a, b, c] := by
  unfold tailBits
  have hb := isSecondOfThree_iff.mp hb
  have hvalid : let n := a.toNat % 16 * 4096 + b.toNat % 64 * 64 + c.toNat % 64
      0x7ff < n ∧ n ≤ 0xffff ∧ (n < 0xd800 ∨ 0xdfff < n) := by
    split at hb <;> split at hb <;> omega
  have hn := toNat_ofNat_of_valid (n := a.toNat % 16 * 4096 + b.toNat % 64 * 64 + c.toNat % 64)
    (by omega)
  have hrange : 128 ≤ b.toNat ∧ b.toNat ≤ 191 := by split at hb <;> split at hb <;> omega
  simp only [String.utf8EncodeChar, hn]
  rw [if_neg (by omega), if_neg (by omega), if_pos (by omega), ofNat_eq (b := a) (by omega),
    ofNat_eq (b := b) (by omega), ofNat_eq (b := c) (by omega)]

theorem encodeChar_four {a b c d : UInt8} (ha : 0xf0 ≤ a.toNat ∧ a.toNat ≤ 0xf4)
    (hb : isSecondOfFour a b = true) (hc : 128 ≤ c.toNat ∧ c.toNat ≤ 191)
    (hd : 128 ≤ d.toNat ∧ d.toNat ≤ 191) :
    String.utf8EncodeChar (Char.ofNat
      (a.toNat % 8 * 262144 + tailBits b * 4096 + tailBits c * 64 + tailBits d)) =
        [a, b, c, d] := by
  unfold tailBits
  have hb := isSecondOfFour_iff.mp hb
  have hvalid : let n :=
    a.toNat % 8 * 262144 + b.toNat % 64 * 4096 + c.toNat % 64 * 64 + d.toNat % 64
      0xffff < n ∧ n < 0x110000 := by
    split at hb <;> split at hb <;> omega
  have hn := toNat_ofNat_of_valid
    (n := a.toNat % 8 * 262144 + b.toNat % 64 * 4096 + c.toNat % 64 * 64 + d.toNat % 64) (by omega)
  have hrange : 128 ≤ b.toNat ∧ b.toNat ≤ 191 := by split at hb <;> split at hb <;> omega
  simp only [String.utf8EncodeChar, hn]
  rw [if_neg (by omega), if_neg (by omega), if_neg (by omega), ofNat_eq (b := a) (by omega),
    ofNat_eq (b := b) (by omega), ofNat_eq (b := c) (by omega), ofNat_eq (b := d) (by omega)]

/-- A character that is decoded has the bytes it was decoded from. -/
theorem encodeChar_of_decodeChar {b : UInt8} {rest : List UInt8} {c : Char} {k : Nat}
    (h : decodeChar b rest = .ok (c, k)) :
    String.utf8EncodeChar c = b :: rest.take k ∧ k ≤ rest.length := by
  unfold decodeChar at h
  simp only [Bool.and_eq_true, decide_eq_true_eq, UInt8.le_iff_toNat_le, UInt8.lt_iff_toNat_lt] at h
  split at h
  · rename_i hb
    cases h
    exact ⟨encodeChar_one hb, Nat.zero_le _⟩
  split at h
  · rename_i hb
    split at h
    · cases h
    · split at h
      · rename_i x _ hx
        cases h
        exact ⟨encodeChar_two hb (isTail_iff.mp hx), by simp⟩
      · cases h
  split at h
  · rename_i hb
    split at h
    · cases h
    · split at h
      · rename_i x _ hx
        split at h
        · cases h
        · split at h
          · rename_i y _ hy
            cases h
            exact ⟨encodeChar_three hb hx (isTail_iff.mp hy), by simp⟩
          · cases h
      · cases h
  split at h
  · rename_i hb
    split at h
    · cases h
    · split at h
      · rename_i x _ hx
        split at h
        · cases h
        · split at h
          · rename_i y _ hy
            split at h
            · cases h
            · split at h
              · rename_i z _ hz
                cases h
                exact ⟨encodeChar_four hb hx (isTail_iff.mp hy) (isTail_iff.mp hz), by simp⟩
              · cases h
          · cases h
      · cases h
  · cases h

/-! ### What is encoded is decoded -/

theorem decodeChar_one {a : UInt8} {rest : List UInt8} (h : a.toNat < 128) :
    decodeChar a rest = .ok (Char.ofNat a.toNat, 0) := by
  unfold decodeChar
  rw [if_pos (UInt8.lt_iff_toNat_lt.mpr h)]

theorem decodeChar_two {a b : UInt8} {rest : List UInt8} (ha : 0xc2 ≤ a.toNat ∧ a.toNat ≤ 0xdf)
    (hb : 128 ≤ b.toNat ∧ b.toNat ≤ 191) :
    decodeChar a (b :: rest) = .ok (Char.ofNat (a.toNat % 32 * 64 + tailBits b), 1) := by
  simp only [decodeChar, Bool.and_eq_true, decide_eq_true_eq, UInt8.le_iff_toNat_le,
    UInt8.lt_iff_toNat_lt, UInt8.reduceToNat, isTail_iff]
  rw [if_neg (by omega), if_pos ha, if_pos hb]

theorem decodeChar_three {a b c : UInt8} {rest : List UInt8} (ha : 0xe0 ≤ a.toNat ∧ a.toNat ≤ 0xef)
    (hb : isSecondOfThree a b = true) (hc : 128 ≤ c.toNat ∧ c.toNat ≤ 191) :
    decodeChar a (b :: c :: rest) =
      .ok (Char.ofNat (a.toNat % 16 * 4096 + tailBits b * 64 + tailBits c), 2) := by
  simp only [decodeChar, Bool.and_eq_true, decide_eq_true_eq, UInt8.le_iff_toNat_le,
    UInt8.lt_iff_toNat_lt, UInt8.reduceToNat, isTail_iff]
  rw [if_neg (by omega), if_neg (by omega), if_pos ha, if_pos hb, if_pos hc]

theorem decodeChar_four {a b c d : UInt8} {rest : List UInt8} (ha : 0xf0 ≤ a.toNat ∧ a.toNat ≤ 0xf4)
    (hb : isSecondOfFour a b = true) (hc : 128 ≤ c.toNat ∧ c.toNat ≤ 191)
    (hd : 128 ≤ d.toNat ∧ d.toNat ≤ 191) :
    decodeChar a (b :: c :: d :: rest) =
      .ok (Char.ofNat (a.toNat % 8 * 262144 + tailBits b * 4096 + tailBits c * 64 + tailBits d),
        3) := by
  simp only [decodeChar, Bool.and_eq_true, decide_eq_true_eq, UInt8.le_iff_toNat_le,
    UInt8.lt_iff_toNat_lt, UInt8.reduceToNat, isTail_iff]
  rw [if_neg (by omega), if_neg (by omega), if_neg (by omega), if_pos ha, if_pos hb, if_pos hc,
    if_pos hd]

theorem toNat_byte {n : Nat} (h : n < 256) : (UInt8.ofNat n).toNat = n := UInt8.toNat_ofNat_of_lt' h

/-- A character is decoded from its bytes, whatever follows them. -/
theorem decodeChar_of_encodeChar {c : Char} {b : UInt8} {tail : List UInt8}
    (h : String.utf8EncodeChar c = b :: tail) (rest : List UInt8) :
    decodeChar b (tail ++ rest) = .ok (c, tail.length) := by
  have hvalid := toNat_valid c
  unfold String.utf8EncodeChar at h
  dsimp only at h
  split at h
  · obtain ⟨rfl, rfl⟩ := List.cons.inj h
    have h₁ := toNat_byte (n := c.val.toNat) (by omega)
    rw [decodeChar_one (by omega), eq_ofNat (c := c) h₁]
    rfl
  split at h
  · obtain ⟨rfl, rfl⟩ := List.cons.inj h
    have h₁ := toNat_byte (n := c.val.toNat / 64 % 0x20 + 0xc0) (by omega)
    have h₂ := toNat_byte (n := c.val.toNat % 0x40 + 0x80) (by omega)
    rw [List.cons_append, decodeChar_two (by omega) (by omega), eq_ofNat (c := c)]
    · rfl
    · rw [tailBits, h₁, h₂]
      omega
  split at h
  · obtain ⟨rfl, rfl⟩ := List.cons.inj h
    have h₁ := toNat_byte (n := c.val.toNat / 4096 % 0x10 + 0xe0) (by omega)
    have h₂ := toNat_byte (n := c.val.toNat / 64 % 0x40 + 0x80) (by omega)
    have h₃ := toNat_byte (n := c.val.toNat % 0x40 + 0x80) (by omega)
    rw [List.cons_append, List.cons_append, decodeChar_three (by omega) _ (by omega),
      eq_ofNat (c := c)]
    · rfl
    · rw [tailBits, tailBits, h₁, h₂, h₃]
      omega
    · rw [isSecondOfThree_iff, h₁, h₂]
      split <;> split <;> omega
  · obtain ⟨rfl, rfl⟩ := List.cons.inj h
    have h₁ := toNat_byte (n := c.val.toNat / 262144 % 0x08 + 0xf0) (by omega)
    have h₂ := toNat_byte (n := c.val.toNat / 4096 % 0x40 + 0x80) (by omega)
    have h₃ := toNat_byte (n := c.val.toNat / 64 % 0x40 + 0x80) (by omega)
    have h₄ := toNat_byte (n := c.val.toNat % 0x40 + 0x80) (by omega)
    rw [List.cons_append, List.cons_append, List.cons_append,
      decodeChar_four (by omega) _ (by omega) (by omega), eq_ofNat (c := c)]
    · rfl
    · rw [tailBits, tailBits, tailBits, h₁, h₂, h₃, h₄]
      omega
    · rw [isSecondOfFour_iff, h₁, h₂]
      split <;> split <;> omega

/-! ### Texts -/

theorem encode_of_decodeFrom (index : Nat) (bs : List UInt8) :
    ∀ cs, decodeFrom index bs = .ok cs → encode cs = bs := by
  fun_induction decodeFrom index bs with
  | case1 index =>
      intro cs h
      cases h
      rfl
  | case2 index b rest length hchar => intro cs h; cases h
  | case3 index b rest c k hchar f hrest ih => intro cs h; cases h
  | case4 index b rest c k hchar ds hrest ih =>
      intro cs h
      cases h
      obtain ⟨henc, -⟩ := encodeChar_of_decodeChar hchar
      show String.utf8EncodeChar c ++ encode ds = b :: rest
      rw [henc, ih ds hrest, List.cons_append, List.take_append_drop]

theorem decodeFrom_encode (cs : List Char) : ∀ index, decodeFrom index (encode cs) = .ok cs := by
  induction cs with
  | nil =>
      intro index
      show decodeFrom index [] = _
      rw [decodeFrom]
  | cons c cs ih =>
      intro index
      show decodeFrom index (String.utf8EncodeChar c ++ encode cs) = _
      cases henc : String.utf8EncodeChar c with
      | nil => exact absurd henc String.utf8EncodeChar_ne_nil
      | cons b tail =>
          rw [List.cons_append, decodeFrom]
          simp only [decodeChar_of_encodeChar henc, List.drop_left, ih]

/-- **Bytes decode to a text exactly if they are its encoding.** -/
theorem decode_eq_ok_iff {bs : List UInt8} {cs : List Char} : decode bs = .ok cs ↔
    encode cs = bs := by
  constructor
  · exact encode_of_decodeFrom 0 bs cs
  · rintro rfl
    exact decodeFrom_encode cs 0

end WidgetLayout.Text.Utf8
