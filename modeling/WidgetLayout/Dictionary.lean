/-
A dictionary holds each key once, in the order in which the keys were first given.

Putting a key that is already there replaces what is held under it and keeps its place, so the last
write wins; `putNew` leaves it alone, so the first write wins.  `get?_put` and `get?_putNew` are the
two laws, and everything else about a dictionary follows from them and from the fact that its keys
are distinct, which the type carries.
-/

namespace WidgetLayout

/-- Puts `a` under `k` in a list of pairs: in place where `k` is found, else at the end. -/
def putEntry {κ α : Type} [DecidableEq κ] (k : κ) (a : α) : List (κ × α) → List (κ × α)
  | [] => [(k, a)]
  | e :: rest => if e.1 = k then (k, a) :: rest else e :: putEntry k a rest

/-- What is held under `k` in a list of pairs: the first pair with that key decides. -/
def findEntry {κ α : Type} [DecidableEq κ] (k : κ) : List (κ × α) → Option α
  | [] => none
  | e :: rest => if e.1 = k then some e.2 else findEntry k rest

section Entries

variable {κ α : Type} [DecidableEq κ]

theorem findEntry_putEntry (k : κ) (a : α) (l : List (κ × α)) (k' : κ) :
    findEntry k' (putEntry k a l) = if k = k' then some a else findEntry k' l := by
  induction l with
  | nil => simp [putEntry, findEntry]
  | cons e rest ih => grind [putEntry, findEntry]

theorem mem_keys_putEntry (k : κ) (a : α) (l : List (κ × α)) (k' : κ) :
    k' ∈ (putEntry k a l).map Prod.fst ↔ k' = k ∨ k' ∈ l.map Prod.fst := by
  induction l with
  | nil => simp [putEntry]
  | cons e rest ih => by_cases he : e.1 = k <;> grind [putEntry]

theorem nodup_keys_putEntry (k : κ) (a : α) (l : List (κ × α))
    (h : (l.map Prod.fst).Nodup) : ((putEntry k a l).map Prod.fst).Nodup := by
  induction l with
  | nil => simp [putEntry]
  | cons e rest ih =>
      simp only [List.map_cons, List.nodup_cons] at h
      by_cases he : e.1 = k
      · rw [putEntry, if_pos he]
        simp only [List.map_cons, List.nodup_cons]
        exact ⟨he ▸ h.1, h.2⟩
      · rw [putEntry, if_neg he]
        simp only [List.map_cons, List.nodup_cons, mem_keys_putEntry]
        exact ⟨fun hm => hm.elim he h.1, ih h.2⟩

end Entries

/-- A finite map whose keys are distinct and keep the order in which they were first given. -/
structure Dictionary (κ α : Type) where
  entries : List (κ × α)
  nodup : (entries.map Prod.fst).Nodup

namespace Dictionary

variable {κ α : Type}

/-- The dictionary with no keys. -/
def empty : Dictionary κ α := ⟨[], List.nodup_nil⟩

instance : Inhabited (Dictionary κ α) := ⟨empty⟩

/-- How many keys there are. -/
def size (d : Dictionary κ α) : Nat := d.entries.length

/-- Whether there is no key at all. -/
def isEmpty (d : Dictionary κ α) : Bool := d.entries.isEmpty

/-- The keys, in the order in which they were first given. -/
def keys (d : Dictionary κ α) : List κ := d.entries.map Prod.fst

variable [DecidableEq κ]

/-- What is held under a key. -/
def get? (d : Dictionary κ α) (k : κ) : Option α := findEntry k d.entries

/-- Holds `a` under `k`, replacing what was there. -/
def put (d : Dictionary κ α) (k : κ) (a : α) : Dictionary κ α :=
  ⟨putEntry k a d.entries, nodup_keys_putEntry k a d.entries d.nodup⟩

/-- Holds `a` under `k` unless something is held there already. -/
def putNew (d : Dictionary κ α) (k : κ) (a : α) : Dictionary κ α :=
  match d.get? k with
  | some _ => d
  | none => d.put k a

/-- Puts the pairs of a list, one after the other. -/
def putAll (d : Dictionary κ α) (l : List (κ × α)) : Dictionary κ α :=
  l.foldl (fun d e => d.put e.1 e.2) d

/-- The dictionary of a list of pairs; the last pair of a key wins. -/
def ofList (l : List (κ × α)) : Dictionary κ α := empty.putAll l

@[simp] theorem get?_empty (k : κ) : (empty : Dictionary κ α).get? k = none := rfl

theorem get?_put (d : Dictionary κ α) (k : κ) (a : α) (k' : κ) :
    (d.put k a).get? k' = if k = k' then some a else d.get? k' :=
  findEntry_putEntry k a d.entries k'

theorem get?_putNew (d : Dictionary κ α) (k : κ) (a : α) (k' : κ) :
    (d.putNew k a).get? k' = if k = k' then some ((d.get? k).getD a) else d.get? k' := by
  unfold putNew
  cases h : d.get? k with
  | some b => by_cases hk : k = k' <;> simp [hk]; rw [← hk, h]
  | none => simp [get?_put]

end Dictionary

end WidgetLayout
