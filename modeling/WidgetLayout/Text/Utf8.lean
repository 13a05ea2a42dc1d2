/-
UTF-8: characters as bytes, and back.

`encode` writes each character in one to four bytes.  `decode` accepts exactly the well-formed
sequences: no overlong form, no surrogate, nothing above U+10FFFF.  A refusal names the index at
which the first ill-formed sequence begins and how many bytes of it could still have begun a
character; there is no such number when the bytes merely end too early.
-/

namespace WidgetLayout.Text.Utf8

/-- Where and how bytes stop being UTF-8. -/
structure Fault where
  /-- How many bytes before the ill-formed sequence are well-formed. -/
  index : Nat
  /-- The length of the ill-formed sequence, or `none` if the bytes end inside a character. -/
  length : Option Nat
deriving DecidableEq, Repr

/-- The wording of a fault. -/
def Fault.message (f : Fault) : String :=
  match f.length with
  | some n => s!"invalid utf-8 sequence of {n} bytes from index {f.index}"
  | none => s!"incomplete utf-8 byte sequence from index {f.index}"

/-- The bytes of a text. -/
def encode (cs : List Char) : List UInt8 := cs.flatMap String.utf8EncodeChar

/-- Whether a byte continues a character. -/
def isTail (b : UInt8) : Bool := 0x80 ≤ b && b ≤ 0xbf

/-- The six payload bits of a continuing byte. -/
def tailBits (b : UInt8) : Nat := b.toNat % 64

/-- The second byte of a three-byte character that begins with `b`: no overlong form, no
surrogate. -/
def isSecondOfThree (b c : UInt8) : Bool :=
  (if b = 0xe0 then 0xa0 else 0x80) ≤ c && c ≤ (if b = 0xed then 0x9f else 0xbf)

/-- The second byte of a four-byte character that begins with `b`: no overlong form, at most
U+10FFFF. -/
def isSecondOfFour (b c : UInt8) : Bool :=
  (if b = 0xf0 then 0x90 else 0x80) ≤ c && c ≤ (if b = 0xf4 then 0x8f else 0xbf)

/--
The character that begins with the byte `b` and goes on in `rest`, with the number of bytes of
`rest` that belong to it; or, when there is none, the length of the ill-formed sequence.
-/
def decodeChar (b : UInt8) (rest : List UInt8) : Except (Option Nat) (Char × Nat) :=
  if b < 0x80 then .ok (Char.ofNat b.toNat, 0)
  else if 0xc2 ≤ b && b ≤ 0xdf then
    match rest with
    | [] => .error none
    | c :: _ =>
      if isTail c then .ok (Char.ofNat (b.toNat % 32 * 64 + tailBits c), 1) else .error (some 1)
  else if 0xe0 ≤ b && b ≤ 0xef then
    match rest with
    | [] => .error none
    | c :: rest =>
      if isSecondOfThree b c then
        match rest with
        | [] => .error none
        | d :: _ =>
          if isTail d then
            .ok (Char.ofNat (b.toNat % 16 * 4096 + tailBits c * 64 + tailBits d), 2)
          else .error (some 2)
      else .error (some 1)
  else if 0xf0 ≤ b && b ≤ 0xf4 then
    match rest with
    | [] => .error none
    | c :: rest =>
      if isSecondOfFour b c then
        match rest with
        | [] => .error none
        | d :: rest =>
          if isTail d then
            match rest with
            | [] => .error none
            | e :: _ =>
              if isTail e then
                .ok (Char.ofNat
                  (b.toNat % 8 * 262144 + tailBits c * 4096 + tailBits d * 64 + tailBits e), 3)
              else .error (some 3)
          else .error (some 2)
      else .error (some 1)
  else .error (some 1)

/-- Decodes bytes that stand at `index` of a longer sequence. -/
def decodeFrom (index : Nat) : List UInt8 → Except Fault (List Char)
  | [] => .ok []
  | b :: rest =>
    match decodeChar b rest with
    | .error length => .error ⟨index, length⟩
    | .ok (c, k) =>
      match decodeFrom (index + 1 + k) (rest.drop k) with
      | .error f => .error f
      | .ok cs => .ok (c :: cs)
termination_by bytes => bytes.length
decreasing_by
  have := List.length_drop (i := k) (l := rest)
  simp only [List.length_cons]
  omega

/-- The text of well-formed bytes, or where they stop being well-formed. -/
def decode (bytes : List UInt8) : Except Fault (List Char) := decodeFrom 0 bytes

end WidgetLayout.Text.Utf8
