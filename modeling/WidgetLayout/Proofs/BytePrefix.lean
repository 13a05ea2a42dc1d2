/-
The bytes of trees are prefix-free, and what is cut off is noticed.

A reader takes its bytes from the front and looks at none that it does not take.  So with the
beginning of some bytes it does what it does with all of them, or it runs out (`Continues`); and
where it runs out it reports a fault of the bytes.  A tree that was read to its end is read in the
same way whatever follows, and what follows is then too much.
-/
import WidgetLayout.Proofs.Decoding
import WidgetLayout.Proofs.Truncation

namespace WidgetLayout

open WidgetLayout.Progress

/-- A cursor with more bytes at the end. -/
def Wire.Cursor.followed (more : List UInt8) (c : Cursor) : Cursor :=
  { c with rest := c.rest ++ more }

variable {more : List UInt8}

/-! ### Wire forms

Every fault of a reader of wire forms counts as running out: what becomes of it is the same
error. -/

namespace Wire.Reader

/-- A reader of wire forms does the same with more bytes, or it fails for want of them. -/
abbrev Extends (more : List UInt8) {α : Type} (m : Reader ReadFault α) : Prop :=
  Continues (Cursor.followed more) (fun _ _ => True) m

theorem extends_byte : Extends more byte := by
  intro c
  obtain ⟨offset, rest⟩ := c
  cases rest with
  | nil => exact .starved trivial _
  | cons b rest => exact .same (.ok b (Cursor.mk (offset + 1) rest))

theorem extends_varintGroups (n : Nat) : ∀ value, Extends more (varintGroups value n) := by
  induction n with
  | zero =>
      intro value
      exact continues_throw _
  | succ n ih =>
      intro value
      exact extends_byte.bind fun b => .ite (.ite (continues_pure _) (continues_throw _)) (ih _)

theorem extends_varint : Extends more varint := extends_varintGroups 5 0

theorem extends_bytes (n : Nat) (fault : ReadFault) : Extends more (bytes n fault) := by
  intro c
  unfold bytes
  by_cases hlen : (c.rest.take n).length = n
  · have hle : n ≤ c.rest.length := by
      rw [List.length_take] at hlen
      omega
    have htake : ((c.followed more).rest.take n) = c.rest.take n :=
      List.take_append_of_le_length hle
    have hskip : (c.followed more).skip n = (c.skip n).followed more := by
      simp [Cursor.followed, Cursor.skip, List.take_append_of_le_length hle,
        List.drop_append_of_le_length hle]
    simp only [htake, if_pos hlen, hskip]
    exact .same (.ok (c.rest.take n) (c.skip n))
  · simp only [if_neg hlen]
    exact .starved trivial _

theorem extends_string : Extends more string :=
  extends_varint.bind fun n => extends_bytes n.toNat _

theorem extends_single : Extends more single :=
  (extends_bytes 4 _).bind fun _ => continues_pure _

end Wire.Reader

/-! ### Values and properties

Here a refusal counts as a fault as well.  It is about bytes that were read, and more bytes behind
them do not change it. -/

namespace Decode

/-- The error that the bytes are at fault. -/
def IsFault (e : Error) : Prop := ∃ fault, e = .invalidFormat (.bytes fault)

/-- A reader does the same with more bytes, or it finds a fault in those that there are. -/
abbrev Extends (more : List UInt8) {α : Type} (m : Reader α) : Prop :=
  Continues (Wire.Cursor.followed more) (fun e _ => IsFault e) m

theorem extends_read {α : Type} {m : Wire.Reader Wire.ReadFault α} (part : WirePart)
    (h : Wire.Reader.Extends more m) : Extends more (read part m) := by
  intro c
  have hc := h c
  unfold read
  generalize m c = r at hc
  generalize m (c.followed more) = r' at hc
  cases hc with
  | same =>
      cases r with
      | ok a c' => exact .same (.ok a c')
      | error fault c' => exact .starved ⟨_, rfl⟩ _
  | starved => exact .starved ⟨_, rfl⟩ _
  | fails => exact .starved ⟨_, rfl⟩ _

theorem extends_tag : Extends more tag := extends_read _ Wire.Reader.extends_byte

theorem extends_varint : Extends more varint := extends_read _ Wire.Reader.extends_varint

theorem extends_single : Extends more single := extends_read _ Wire.Reader.extends_single

/-- A refusal only tells how many bytes were read. -/
theorem extends_refuse {α : Type} (f : Nat → DecodeFault) :
    Extends more (do refuse (f (← offset)) : Reader α) :=
  fun _ => .starved ⟨_, rfl⟩ _

theorem extends_text : Extends more text := by
  refine (extends_read _ Wire.Reader.extends_string).bind fun bytes => ?_
  cases Text.Utf8.decode bytes with
  | ok cs => exact continues_pure _
  | error fault => exact extends_refuse fun o => .notText o fault

theorem extends_boolean : Extends more boolean :=
  extends_tag.bind fun b => .ite (continues_pure _) (.ite (continues_pure _)
    (extends_refuse fun o => .badBoolean b (o - 1)))

theorem extends_margins : Extends more margins :=
  extends_varint.bind fun _ => extends_varint.bind fun _ => extends_varint.bind fun _ =>
    extends_varint.bind fun _ => continues_pure _

theorem extends_sizeTags (n : Nat) : Extends more (sizeTags n) := by
  induction n using Nat.strongRecOn with
  | ind n ih =>
      unfold sizeTags
      by_cases hn : n = 0
      · rw [if_pos hn]
        exact continues_pure _
      · rw [if_neg hn]
        exact extends_tag.bind fun _ => (ih (n - 4) (by omega)).bind fun _ => continues_pure _

theorem extends_sizeItem (t : UInt8) : Extends more (sizeItem t) :=
  .ite (continues_pure _) (.ite (continues_pure _)
    (.ite (extends_varint.bind fun _ => continues_pure _)
      (extends_single.bind fun _ => continues_pure _)))

theorem extends_sizeItems (ts : List UInt8) : Extends more (sizeItems ts) := by
  induction ts with
  | nil => exact continues_pure _
  | cons t ts ih => exact (extends_sizeItem t).bind fun _ => ih.bind fun _ => continues_pure _

theorem extends_sizeList : Extends more sizeList :=
  extends_varint.bind fun n => .ite (extends_refuse fun o => .emptySizeList o)
    ((extends_sizeTags n.toNat).bind extends_sizeItems)

theorem extends_value (type : ValueType) : Extends more (value type) := by
  cases type with
  | integer => exact extends_varint.map _
  | number => exact extends_single.map _
  | enumeration => exact extends_tag.map _
  | string => exact extends_text.map _
  | boolean => exact extends_boolean.map _
  | margins => exact extends_margins.map _
  | sizeList => exact extends_sizeList.map _
  | resource => exact extends_varint.map _

variable (symbols : SymbolTables)

theorem extends_property (raw : UInt8) : Extends more (property symbols raw) := by
  unfold property
  dsimp only
  cases symbols.propertyById? (raw &&& 0x7f) with
  | none => exact extends_refuse fun o => .unknownProperty _ (o - 1)
  | some entry =>
      exact .ite ((extends_value entry.type).bind fun _ => continues_pure _)
        (extends_varint.bind fun _ => continues_pure _)

/-! ### Trees -/

theorem extends_begin (depth : Nat) (t : UInt8) : Extends more (begin symbols depth t) := by
  refine .ite (continues_throw _) ?_
  cases symbols.widgetByTag? t with
  | none => exact extends_refuse fun o => .unknownTag t (o - 1)
  | some entry => exact continues_pure _

theorem extends_decodeStep (state : Open) : Extends more (decodeStep symbols state) :=
  extends_tag.bind fun b => .ite
    (.ite (continues_pure _) ((extends_begin symbols _ b).bind fun _ => continues_pure _))
    (.ite (continues_pure _) ((extends_property symbols b).bind fun _ => continues_pure _))

theorem extends_root (more : List UInt8) : Extends more (root symbols) :=
  extends_tag.bind fun t => (extends_begin symbols 1 t).bind fun _ =>
    continues_iterate (extends_decodeStep symbols) _

end Decode

/-- **The byte format is prefix-free, and truncation is always noticed.**  Where some bytes decode,
every beginning of them that is not all of them is refused for its format, and so are they with more
bytes after them, of which it is told how many there are. -/
theorem decode_prefix_free {symbols : SymbolTables} {bytes : List UInt8} {w : Widget}
    (h : Decode.decode symbols bytes = .ok w) :
    (∀ beginning, beginning <+: bytes → beginning ≠ bytes →
      ∃ fault, Decode.decode symbols beginning = .error (.invalidFormat fault)) ∧
    ∀ extra, extra ≠ [] → Decode.decode symbols (bytes ++ extra) =
      .error (.invalidFormat (.bytes (.trailingBytes extra.length))) := by
  obtain ⟨c, hroot, hc⟩ := Decode.decode_eq_ok_iff_root.mp h
  refine ⟨?_, ?_⟩
  · rintro beginning ⟨missing, rfl⟩ hne
    have hextends := Decode.extends_root symbols missing (.start beginning)
    have hwhole : (Wire.Cursor.start beginning).followed missing = .start (beginning ++ missing) :=
      rfl
    rw [hwhole, hroot] at hextends
    rcases hextends.to_ok with ⟨c', -, rfl⟩ | ⟨e, c', heq, fault, rfl⟩
    · -- nothing can be missing of bytes that are read to their end
      have hmissing : missing = [] := (List.append_eq_nil_iff.mp hc).2
      rw [hmissing, List.append_nil] at hne
      exact absurd rfl hne
    · refine ⟨.bytes fault, ?_⟩
      unfold Decode.decode
      rw [heq]
  · intro extra hne
    have hextends := Decode.extends_root symbols extra (.start bytes)
    rw [hroot] at hextends
    have hlong : Decode.root symbols (.start (bytes ++ extra)) = .ok w (c.followed extra) :=
      hextends.of_ok
    have hrest : (c.followed extra).rest = extra := by
      show c.rest ++ extra = extra
      rw [hc, List.nil_append]
    have hnonempty : ¬ extra.isEmpty := fun hempty => hne (List.isEmpty_iff.mp hempty)
    unfold Decode.decode
    rw [hlong]
    simp only [hrest, if_neg hnonempty]

/-- The record of a button whose text is bound is cut inside the number of the binding, then before
its last byte, and last it is followed by two bytes. -/
theorem decode_prefix_free_button :
    (∃ w, Decode.decode .shipped [1, 138, 130, 44, 0, 0] = .ok w) ∧
      (∃ fault, Decode.decode .shipped [1, 138, 130] = .error (.invalidFormat fault)) ∧
        (∃ fault, Decode.decode .shipped [1, 138, 130, 44, 0] = .error (.invalidFormat fault)) ∧
          Decode.decode .shipped [1, 138, 130, 44, 0, 0, 0, 7] =
            .error (.invalidFormat (.bytes (.trailingBytes 2))) := by
  have hok : (Decode.decode .shipped [1, 138, 130, 44, 0, 0]).isOk := by decide +kernel
  cases h : Decode.decode .shipped [1, 138, 130, 44, 0, 0] with
  | error e =>
      rw [h] at hok
      cases hok
  | ok w =>
      obtain ⟨hbeginning, hextra⟩ := decode_prefix_free h
      exact ⟨⟨w, rfl⟩, hbeginning _ ⟨[44, 0, 0], rfl⟩ (by decide),
        hbeginning _ ⟨[0], rfl⟩ (by decide), hextra [0, 7] (by decide)⟩

end WidgetLayout
