/-
Bytes from anywhere cannot blow up when they are decoded.

Five bytes can announce four thousand million items.  They are not believed: a tree never holds more
than its bytes pay for, and a reader that was promised more than there is stops where the data ends.

The first is a matter of weights.  A widget takes three bytes besides what is inside it, a property
two besides its text, and a byte names the kinds of four items.  Every form of a tree pays these
weights, so `Widget.Form.total_le` sums them along the tree, once for all.  The second is
`Local.lacks`, for the readers that follow an announced number.
-/
import Mathlib.Algebra.BigOperators.Group.List.Basic
import Mathlib.Algebra.GroupWithZero.Nat
import WidgetLayout.Proofs.Declared
import WidgetLayout.Proofs.Locality

namespace WidgetLayout

open WidgetLayout.Progress
open WidgetLayout.Wire (Padded)

/-! ### What a tree holds

Properties, bytes of texts and items of size lists are all counted by one sum over the properties
of a tree. -/

/-- The bytes of a text; other values have none. -/
def PropertyValue.textBytes : PropertyValue → Nat
  | .literal (.string text) => (Text.Utf8.encode text.toList).length
  | _ => 0

/-- The items of a size list; other values have none. -/
def PropertyValue.sizeItems : PropertyValue → Nat
  | .literal (.sizeList items) => items.length
  | _ => 0

namespace Widget

mutual

/-- What the properties of all widgets of a tree come to, counted by `f`. -/
def total (f : Property → Nat) : Widget → Nat
  | ⟨_, _, properties, children⟩ => (properties.map f).sum + totalAll f children

/-- The same for all trees of a list. -/
def totalAll (f : Property → Nat) : List Widget → Nat
  | [] => 0
  | w :: ws => total f w + totalAll f ws

end

mutual

theorem total_add (f g : Property → Nat) :
    (w : Widget) → w.total (fun p => f p + g p) = w.total f + w.total g
  | ⟨_, _, properties, children⟩ => by
      have hchildren := totalAll_add f g children
      simp only [total, List.sum_map_add]
      omega

theorem totalAll_add (f g : Property → Nat) :
    (ws : List Widget) → totalAll (fun p => f p + g p) ws = totalAll f ws + totalAll g ws
  | [] => by simp only [totalAll]
  | w :: ws => by
      have hw := total_add f g w
      have hws := totalAll_add f g ws
      simp only [totalAll]
      omega

end

/-- How many properties there are in a tree. -/
def propertyCount : Widget → Nat := total fun _ => 1

/-- How many bytes the texts in a tree have. -/
def textBytes : Widget → Nat := total fun p => p.value.textBytes

/-- How many items the size lists in a tree have. -/
def sizeItems : Widget → Nat := total fun p => p.value.sizeItems

end Widget

/-! ### What bytes pay for

A bound on a whole tree comes from a bound on each property: a property weighs no more than its
own bytes pay for, and a tree has these bytes and three more for each widget. -/

theorem Wire.Padded.length_pos {n : UInt32} {bs : List UInt8} (h : Padded n bs) :
    0 < bs.length := by
  have hvarint := h.length_le
  rw [varint, List.length_append, List.length_singleton] at hvarint
  omega

theorem SizeItem.length_packTags (items : List SizeItem) :
    (packTags items).length = (items.length + 3) / 4 := by
  fun_induction packTags items with
  | case5 a b c d rest ih =>
      simp only [List.length_cons]
      omega
  | _ => simp

theorem Joined.sum_le {α β : Type} {R : α → List β → Prop} {f : α → Nat} {k : Nat}
    {as : List α} {l : List β} (h : Joined R as l) (hf : ∀ a l, R a l → f a ≤ k * l.length) :
    (as.map f).sum ≤ k * l.length := by
  induction as generalizing l with
  | nil => exact Nat.zero_le _
  | cons a as ih =>
      obtain ⟨l₁, l₂, ha, has, rfl⟩ := h
      have h₁ := hf a l₁ ha
      have h₂ := ih has
      rw [List.map_cons, List.sum_cons, List.length_append, Nat.mul_add]
      omega

/-- The weight of a value in bytes, items of size lists apart, which share theirs. -/
theorem Value.Form.weight_le {v : Value} {bs : List UInt8} (h : v.Form bs) :
    1 + (PropertyValue.literal v).textBytes ≤ bs.length ∧
      (PropertyValue.literal v).sizeItems ≤ 4 * bs.length := by
  cases v with
  | integer n => exact ⟨Padded.length_pos h, Nat.zero_le _⟩
  | number x =>
      obtain rfl : bs = Wire.single x := h
      exact ⟨(by decide : 1 ≤ 4), Nat.zero_le _⟩
  | enumeration value =>
      obtain rfl : bs = [value] := h
      exact ⟨Nat.le_refl _, Nat.zero_le _⟩
  | string text =>
      obtain ⟨head, hhead, rfl⟩ := h
      have hpos := hhead.length_pos
      rw [List.length_append]
      exact ⟨Nat.add_le_add_right hpos _, Nat.zero_le _⟩
  | boolean b =>
      obtain rfl : bs = [if b then 1 else 0] := h
      exact ⟨Nat.le_refl _, Nat.zero_le _⟩
  | margins m =>
      obtain ⟨bs₁, bs₂, hfirst, -, rfl⟩ := h
      have hpos := Padded.length_pos hfirst
      rw [List.length_append]
      exact ⟨by show 1 ≤ _; omega, Nat.zero_le _⟩
  | sizeList items =>
      obtain ⟨head, tags, payload, hhead, htags, -, rfl⟩ := h
      have hpos := hhead.length_pos
      have htags' := htags.length_eq.trans (SizeItem.length_packTags items)
      simp only [PropertyValue.textBytes, PropertyValue.sizeItems, List.length_append]
      omega
  | resource id => exact ⟨Padded.length_pos h, Nat.zero_le _⟩

theorem Property.Form.weight_le {p : Property} {bs : List UInt8} (h : p.Form bs) :
    1 + 1 + p.value.textBytes ≤ bs.length ∧ p.value.sizeItems ≤ 4 * bs.length := by
  obtain ⟨name, id, value⟩ := p
  cases value with
  | literal v =>
      obtain ⟨payload, hpayload, rfl⟩ := h
      obtain ⟨hbytes, hitems⟩ := hpayload.weight_le
      dsimp only [List.length_cons]
      exact ⟨by omega, by omega⟩
  | binding n =>
      obtain ⟨payload, hpayload, rfl⟩ := h
      have hpos := hpayload.length_pos
      rw [List.length_cons]
      exact ⟨by show 2 ≤ _; omega, Nat.zero_le _⟩

namespace Widget

mutual

/-- If `k` for each byte pays for every property, then it pays for a tree and three bytes of each
widget. -/
theorem Form.total_le {f : Property → Nat} {k : Nat}
    (hf : ∀ p bs, p.Form bs → f p ≤ k * bs.length) :
    (w : Widget) → ∀ {bs : List UInt8}, w.Form bs → k * (3 * w.count) + w.total f ≤ k * bs.length
  | ⟨_, tag, properties, children⟩, bs, h => by
      rw [Form] at h
      obtain ⟨ps, cs, hps, hcs, rfl⟩ := h
      have hproperties := hps.sum_le hf
      have hchildren := FormAll.total_le hf children hcs
      simp only [count, total, List.length_append, List.length_cons, List.length_nil,
        Nat.mul_add] at hchildren ⊢
      omega

theorem FormAll.total_le {f : Property → Nat} {k : Nat}
    (hf : ∀ p bs, p.Form bs → f p ≤ k * bs.length) :
    (ws : List Widget) → ∀ {bs : List UInt8}, FormAll ws bs →
      k * (3 * countAll ws) + totalAll f ws ≤ k * bs.length
  | [], bs, _ => by
      simp only [countAll, totalAll]
      omega
  | w :: ws, bs, h => by
      rw [FormAll] at h
      obtain ⟨bs₁, bs₂, hw, hws, rfl⟩ := h
      have h₁ := Form.total_le hf w hw
      have h₂ := FormAll.total_le hf ws hws
      simp only [countAll, totalAll, List.length_append, Nat.mul_add] at h₁ h₂ ⊢
      omega

end

/-- A tree holds no more than its bytes pay for. -/
theorem Form.weight_le {w : Widget} {bs : List UInt8} (h : w.Form bs) :
    3 * w.count + 2 * w.propertyCount + w.textBytes ≤ bs.length ∧ w.sizeItems ≤ 4 * bs.length := by
  have hbytes := Form.total_le (f := fun p => 1 + 1 + p.value.textBytes) (k := 1)
    (fun p bs hp => by have := hp.weight_le; omega) w h
  have hitems :=
    Form.total_le (f := fun p => p.value.sizeItems) (k := 4) (fun p bs hp => hp.weight_le.2) w h
  rw [total_add, total_add] at hbytes
  unfold propertyCount textBytes sizeItems
  exact ⟨by omega, by omega⟩

end Widget

/-! ### Where the data ends

A count that promises more than there is must not be believed.  Whatever it promises, reading
fails where the data ends, and reports that place. -/

/-- However long a string was announced to be, reading it stops at the end of the data. -/
theorem Wire.Reader.string_of_short {n : UInt32} {head rest : List UInt8} (hhead : Padded n head)
    (h : rest.length < n.toNat) (offset : Nat) :
    string ⟨offset, head ++ rest⟩ =
      .error .truncatedString ⟨offset + (head ++ rest).length, []⟩ := by
  have hvarint := reads_varint.ok_of_append hhead offset rest
  rw [string, bind_of_ok hvarint, bytes_of_short h, List.length_append, Nat.add_assoc]

namespace Decode

open WidgetLayout.Wire (Local Reads)

variable {α β : Type} {m : Reader α}

/-- Reading fails because the data ended: nothing of it is left, and the failure is reported at its
end. -/
def RunsOut (m : Reader α) (c : Wire.Cursor) : Prop :=
  ∃ part fault, fault.isEnd = true ∧
    m c = .error (.invalidFormat (.bytes (.unreadable part (c.offset + c.rest.length) fault)))
      ⟨c.offset + c.rest.length, []⟩

/-- Of a form that the reader takes, something is missing. -/
theorem runsOut_of_form {F : α → List UInt8 → Prop} (hm : ∀ read, Local complaint m read)
    (hF : Reads m F) {a : α} {cut missing : List UInt8} (hform : F a (cut ++ missing))
    (hne : missing ≠ []) (offset : Nat) : RunsOut m ⟨offset, cut⟩ := by
  obtain ⟨e, ⟨part, fault, hend, rfl⟩, herror⟩ := (hm (List.replicate offset 0)).lacks hF hform hne
  rw [List.length_append, List.length_replicate] at herror
  exact ⟨part, fault, hend, herror⟩

/-- What runs out behind a varint runs out with it. -/
theorem RunsOut.varint_bind {f : UInt32 → Reader α} {n : UInt32} {head rest : List UInt8}
    {offset : Nat} (hhead : Padded n head) (h : RunsOut (f n) ⟨offset + head.length, rest⟩) :
    RunsOut (varint >>= f) ⟨offset, head ++ rest⟩ := by
  obtain ⟨part, fault, hend, herror⟩ := h
  have hvarint := reads_varint.ok_of_append hhead offset rest
  refine ⟨part, fault, hend, ?_⟩
  rw [bind_of_ok hvarint, herror, List.length_append, Nat.add_assoc]

/-- Zeros would complete the tags of any number of items, so too few bytes are missed whatever they
say. -/
theorem runsOut_sizeTags {n : Nat} {rest : List UInt8} (h : rest.length < (n + 3) / 4)
    (offset : Nat) : RunsOut (sizeTags n) ⟨offset, rest⟩ := by
  have hlength : (rest ++ List.replicate ((n + 3) / 4 - rest.length) 0).length = (n + 3) / 4 := by
    rw [List.length_append, List.length_replicate]
    omega
  have hmissing : List.replicate ((n + 3) / 4 - rest.length) (0 : UInt8) ≠ [] := by
    rw [Ne, List.replicate_eq_nil_iff]
    omega
  exact runsOut_of_form (fun read => local_sizeTags n read) (reads_sizeTags n)
    ⟨hlength, rfl⟩ hmissing offset

theorem runsOut_sizeList {n : UInt32} {head rest : List UInt8} (hhead : Padded n head)
    (h : rest.length < (n.toNat + 3) / 4) (offset : Nat) :
    RunsOut sizeList ⟨offset, head ++ rest⟩ := by
  have hn : n ≠ 0 := by
    rintro rfl
    exact absurd h (Nat.not_lt_zero _)
  obtain ⟨part, fault, hend, herror⟩ := runsOut_sizeTags h (offset + head.length)
  refine RunsOut.varint_bind hhead ⟨part, fault, hend, ?_⟩
  rw [if_neg hn, bind_of_error herror]

theorem runsOut_text {n : UInt32} {head rest : List UInt8} (hhead : Padded n head)
    (h : rest.length < n.toNat) (offset : Nat) : RunsOut text ⟨offset, head ++ rest⟩ := by
  have hstring := Wire.Reader.string_of_short hhead h offset
  refine ⟨.string, .truncatedString, rfl, bind_of_error ?_⟩
  rw [read, hstring]

end Decode

/-- **Bytes from anywhere cannot blow up.**  Whatever the tables are, a decoded tree holds no more
widgets, properties, bytes of texts and items of size lists than its bytes pay for.  Whatever number
was announced, reading a string or a size list fails at the end of the data if there are too few
bytes for it: too few for a string, too few for the tags of the items, or not all that the items
carry. -/
theorem decode_bounded (symbols : SymbolTables) :
    (∀ bytes w, Decode.decode symbols bytes = .ok w →
      3 * w.count + 2 * w.propertyCount + w.textBytes ≤ bytes.length ∧
        w.sizeItems ≤ 4 * bytes.length) ∧
    (∀ n head rest offset, Padded n head →
      (rest.length < n.toNat →
        Wire.Reader.string ⟨offset, head ++ rest⟩ =
          .error .truncatedString ⟨offset + (head ++ rest).length, []⟩ ∧
        Decode.RunsOut Decode.text ⟨offset, head ++ rest⟩) ∧
      (rest.length < (n.toNat + 3) / 4 → Decode.RunsOut Decode.sizeList ⟨offset, head ++ rest⟩)) ∧
    ∀ items cut missing offset, items ≠ [] → items.length < 0x100000000 →
      Value.Form (.sizeList items) (cut ++ missing) → missing ≠ [] →
        Decode.RunsOut Decode.sizeList ⟨offset, cut⟩ := by
  refine ⟨fun bytes w h => ?_, fun n head rest offset hhead => ⟨fun h => ?_, fun h => ?_⟩, ?_⟩
  · exact (Decode.decode_eq_ok_iff.mp h).2.2.weight_le
  · exact ⟨Wire.Reader.string_of_short hhead h offset, Decode.runsOut_text hhead h offset⟩
  · exact Decode.runsOut_sizeList hhead h offset
  · intro items cut missing offset hitems hlength hform hmissing
    exact Decode.runsOut_of_form (fun _ => Decode.local_sizeList) Decode.reads_sizeList
      ⟨hlength, hitems, hform⟩ hmissing offset

/-- Two widgets with three properties, a text of two bytes and five items; and five bytes that
announce as many items as can be. -/
theorem decode_bounded_grid :
    Decode.decode .shipped Widget.grid.encode = .ok Widget.grid ∧
      3 * 2 + 2 * 3 + 2 ≤ Widget.grid.encode.length ∧ 5 ≤ 4 * Widget.grid.encode.length ∧
      Padded 0xFFFFFFFF [0x8F, 0xFF, 0xFF, 0xFF, 0x7F] ∧
      ∀ rest offset, rest.length < 0x40000000 →
        Decode.RunsOut Decode.sizeList ⟨offset, [0x8F, 0xFF, 0xFF, 0xFF, 0x7F] ++ rest⟩ := by
  have hknown : Widget.grid.Known .shipped :=
    (Widget.known_iff_declared Schema.readable_shipped _).mpr Widget.declared_grid
  have hgrid : Decode.decode .shipped Widget.grid.encode = .ok Widget.grid :=
    Decode.decode_eq_ok_iff.mpr ⟨hknown, by decide, Widget.form_encode _ hknown⟩
  have hcount : Padded 0xFFFFFFFF [0x8F, 0xFF, 0xFF, 0xFF, 0x7F] :=
    ⟨0, by decide +kernel, by decide⟩
  have hbounded := decode_bounded .shipped
  obtain ⟨hbytes, hitems⟩ := hbounded.1 _ _ hgrid
  exact ⟨hgrid, hbytes, hitems, hcount, fun rest offset h =>
    (hbounded.2.1 _ _ rest offset hcount).2 h⟩

end WidgetLayout
