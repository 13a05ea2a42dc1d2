/-
The byte forms of values, properties and widgets.

`encode` gives a tree one form, the canonical one.  A reader cannot insist on it: a varint may have
empty groups in front, and the last byte of the tags of a size list may have bits set that name no
item.  `Form` is `encode` with these two freedoms and no other, clause by clause, so that bytes that
are a form of a tree differ from its canonical form in nothing else.  The canonical form is a form
(`form_encode`), and it is the shortest (`Form.length_le`).
-/
import WidgetLayout.Proofs.SizeTags

namespace WidgetLayout

open WidgetLayout.Wire (Padded)

/-! ### Forms one after the other -/

section Joined

variable {α β : Type}

/-- Pieces for all members of a list, joined. -/
def Joined (R : α → List β → Prop) : List α → List β → Prop
  | [], l => l = []
  | a :: as, l => ∃ l₁ l₂, R a l₁ ∧ Joined R as l₂ ∧ l = l₁ ++ l₂

variable {R : α → List β → Prop}

theorem joined_flatMap {as : List α} {f : α → List β} (h : ∀ a ∈ as, R a (f a)) :
    Joined R as (as.flatMap f) := by
  induction as with
  | nil => rfl
  | cons a as ih =>
      exact ⟨f a, as.flatMap f, h a (by simp), ih fun x hx => h x (by simp [hx]), List.flatMap_cons⟩

theorem Joined.imp {S : α → List β → Prop} {as : List α} {l : List β} (h : Joined R as l)
    (hRS : ∀ a l, R a l → S a l) : Joined S as l := by
  induction as generalizing l with
  | nil => exact h
  | cons a as ih =>
      obtain ⟨l₁, l₂, ha, has, rfl⟩ := h
      exact ⟨l₁, l₂, hRS a l₁ ha, ih has, rfl⟩

theorem Joined.length_le {f : α → List β} {as : List α} {l : List β} (h : Joined R as l)
    (hf : ∀ a ∈ as, ∀ l, R a l → (f a).length ≤ l.length) : (as.flatMap f).length ≤ l.length := by
  induction as generalizing l with
  | nil => exact Nat.zero_le _
  | cons a as ih =>
      obtain ⟨l₁, l₂, ha, has, rfl⟩ := h
      have h₁ := hf a (by simp) l₁ ha
      have h₂ := ih has fun x hx => hf x (by simp [hx])
      rw [List.flatMap_cons, List.length_append, List.length_append]
      omega

end Joined

/-! ### Values

A value has several forms, because a number may have empty groups in front and the last byte of
tags may have bits that name no item. -/

/-- What an item carries, in any of its forms. -/
def SizeItem.PayloadForm : SizeItem → List UInt8 → Prop
  | .auto, bs => bs = []
  | .expand, bs => bs = []
  | .pixels count, bs => Padded count bs
  | .percentage fraction, bs => bs = Wire.single fraction

theorem SizeItem.payloadForm_payload (item : SizeItem) : item.PayloadForm item.payload := by
  cases item with
  | auto => rfl
  | expand => rfl
  | pixels count => exact Wire.padded_varint count
  | percentage fraction => rfl

theorem SizeItem.PayloadForm.length_le {item : SizeItem} {bs : List UInt8}
    (h : item.PayloadForm bs) : item.payload.length ≤ bs.length := by
  cases item with
  | auto => exact Nat.zero_le _
  | expand => exact Nat.zero_le _
  | pixels count => exact Padded.length_le h
  | percentage fraction =>
      obtain rfl : bs = Wire.single fraction := h
      exact Nat.le_refl _

namespace Value

/-- A value in any of its forms. -/
def Form : Value → List UInt8 → Prop
  | .integer n, bs => Padded n bs
  | .number x, bs => bs = Wire.single x
  | .enumeration value, bs => bs = [value]
  | .string text, bs =>
    ∃ head, Padded (UInt32.ofNat (Text.Utf8.encode text.toList).length) head ∧
      bs = head ++ Text.Utf8.encode text.toList
  | .boolean b, bs => bs = [if b then 1 else 0]
  | .margins m, bs => Joined Padded m.toList bs
  | .sizeList items, bs =>
    ∃ head tags payload, Padded (UInt32.ofNat items.length) head ∧ SizeItem.TagForm items tags ∧
      Joined SizeItem.PayloadForm items payload ∧ bs = head ++ tags ++ payload
  | .resource id, bs => Padded id bs

/-- The canonical form of a value is one of its forms; a size list without items has none. -/
theorem form_encode {v : Value} (h : v ≠ .sizeList []) : v.Form v.encode := by
  cases v with
  | integer n => exact Wire.padded_varint n
  | number x => rfl
  | enumeration value => rfl
  | string text => exact ⟨_, Wire.padded_varint _, rfl⟩
  | boolean b => rfl
  | margins m => exact joined_flatMap fun n _ => Wire.padded_varint n
  | sizeList items =>
      have hitems : items ≠ [] := fun hnil => h (by rw [hnil])
      exact ⟨_, _, _, Wire.padded_varint _, SizeItem.tagForm_packTags items hitems,
        joined_flatMap fun item _ => item.payloadForm_payload, rfl⟩
  | resource id => exact Wire.padded_varint id

/-- No form of a value is shorter than its canonical one. -/
theorem Form.length_le {v : Value} {bs : List UInt8} (h : v.Form bs) :
    v.encode.length ≤ bs.length := by
  cases v with
  | integer n => exact Padded.length_le h
  | number x => exact Nat.le_of_eq (congrArg List.length (Eq.symm h))
  | enumeration value => exact Nat.le_of_eq (congrArg List.length (Eq.symm h))
  | string text =>
      obtain ⟨head, hhead, rfl⟩ := h
      have := hhead.length_le
      simp only [encode, Wire.string, Wire.count, List.length_append]
      omega
  | boolean b => exact Nat.le_of_eq (congrArg List.length (Eq.symm h))
  | margins m => exact Joined.length_le h fun n _ bs hbs => Padded.length_le hbs
  | sizeList items =>
      obtain ⟨head, tags, payload, hhead, htags, hpayload, rfl⟩ := h
      have h₁ := hhead.length_le
      have h₂ := htags.length_eq
      have h₃ := hpayload.length_le (f := SizeItem.payload) fun item _ bs hbs => hbs.length_le
      simp only [encode, Wire.count, List.length_append]
      omega
  | resource id => exact Padded.length_le h

end Value

/-! ### Properties -/

namespace Property

/-- A property in any of its forms. -/
def Form (p : Property) (bs : List UInt8) : Prop :=
  match p.value with
  | .literal value => ∃ payload, value.Form payload ∧ bs = p.id :: payload
  | .binding id => ∃ payload, Padded id payload ∧ bs = (p.id ||| bindingFlag) :: payload

theorem form_encode {p : Property} (h : p.value ≠ .literal (.sizeList [])) : p.Form p.encode := by
  obtain ⟨name, id, value⟩ := p
  cases value with
  | literal v =>
      have hv : v ≠ .sizeList [] := fun hnil => h (by rw [hnil])
      exact ⟨_, Value.form_encode hv, rfl⟩
  | binding n => exact ⟨_, Wire.padded_varint n, rfl⟩

theorem Form.length_le {p : Property} {bs : List UInt8} (h : p.Form bs) :
    p.encode.length ≤ bs.length := by
  obtain ⟨name, id, value⟩ := p
  cases value with
  | literal v =>
      obtain ⟨payload, hpayload, rfl⟩ := h
      exact Nat.succ_le_succ hpayload.length_le
  | binding n =>
      obtain ⟨payload, hpayload, rfl⟩ := h
      exact Nat.succ_le_succ hpayload.length_le

end Property

/-! ### Widgets -/

namespace Widget

mutual

/-- A widget in any of its forms. -/
def Form : Widget → List UInt8 → Prop
  | ⟨_, tag, properties, children⟩, bs =>
    ∃ ps cs, Joined Property.Form properties ps ∧ FormAll children cs ∧
      bs = tag :: ps ++ terminator :: cs ++ [terminator]

/-- Widgets in any of their forms, one after the other. -/
def FormAll : List Widget → List UInt8 → Prop
  | [], bs => bs = []
  | w :: ws, bs => ∃ bs₁ bs₂, Form w bs₁ ∧ FormAll ws bs₂ ∧ bs = bs₁ ++ bs₂

end

mutual

theorem Form.length_le : (w : Widget) → {bs : List UInt8} → w.Form bs → w.encode.length ≤ bs.length
  | ⟨_, tag, properties, children⟩, bs, h => by
      rw [Form] at h
      obtain ⟨ps, cs, hps, hcs, rfl⟩ := h
      have h₁ := hps.length_le (f := Property.encode) fun p _ l hl => hl.length_le
      have h₂ := FormAll.length_le children hcs
      rw [encode]
      simp only [List.length_append, List.length_cons]
      omega

theorem FormAll.length_le :
    (ws : List Widget) → {bs : List UInt8} → FormAll ws bs → (encodeAll ws).length ≤ bs.length
  | [], bs, _ => by
      rw [encodeAll]
      exact Nat.zero_le _
  | w :: ws, bs, h => by
      rw [FormAll] at h
      obtain ⟨bs₁, bs₂, hw, hws, rfl⟩ := h
      have h₁ := Form.length_le w hw
      have h₂ := FormAll.length_le ws hws
      rw [encodeAll, List.length_append, List.length_append]
      omega

end

theorem height_pos (w : Widget) : 0 < w.height := by
  obtain ⟨name, tag, properties, children⟩ := w
  rw [height]
  omega

end Widget

end WidgetLayout
