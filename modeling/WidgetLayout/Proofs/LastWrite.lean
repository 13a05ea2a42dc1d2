/-
The tables of a host are two maps in which the last write wins.

A table is written by inserting, by a definition and by merging other tables in.  `Operation.Writes`
says which numbers an operation gives to which names, without doing it; a definition that cannot be
read gives none.  What one operation does to a lookup is then one equivalence
(`get?_apply_eq_some_iff`), and what a run of operations comes to follows from it by induction: a
lookup finds the number that was given last.

`LastGives` is that notion for any list of things that give numbers to names, so it serves the
definitions of a command line as well.
-/
import WidgetLayout.Bindings
import WidgetLayout.Proofs.Numerals

namespace WidgetLayout

open WidgetLayout.Text (isDigit)

/-! ### What was given last

Insertions, definitions and merges all give numbers to names.  Which of them counts is said once,
for any list and any way of giving. -/

section LastGives

variable {α : Type} {Gives : α → String → UInt32 → Prop} {as : List α} {a : α}
  {name : String} {id : UInt32}

/-- The last one in a list that gives the name a number gives it this number. -/
def LastGives (Gives : α → String → UInt32 → Prop) (as : List α) (name : String)
    (id : UInt32) : Prop :=
  ∃ before a after, as = before ++ a :: after ∧ Gives a name id ∧
    ∀ a' ∈ after, ∀ id', ¬ Gives a' name id'

theorem not_lastGives_nil : ¬ LastGives Gives [] name id := by
  rintro ⟨before, a, after, heq, -⟩
  simp at heq

theorem lastGives_concat :
    LastGives Gives (as ++ [a]) name id ↔
      Gives a name id ∨ (∀ id', ¬ Gives a name id') ∧ LastGives Gives as name id := by
  constructor
  · rintro ⟨before, b, after, heq, hb, hafter⟩
    rcases List.eq_nil_or_concat' after with rfl | ⟨after, c, rfl⟩
    · obtain ⟨-, hab⟩ := List.append_inj' heq rfl
      obtain rfl := List.singleton_inj.mp hab
      exact .inl hb
    · rw [← List.cons_append, ← List.append_assoc] at heq
      obtain ⟨rfl, hac⟩ := List.append_inj' heq rfl
      obtain rfl := List.singleton_inj.mp hac
      exact .inr ⟨hafter a (by simp), before, b, after, rfl, hb, fun a' ha' =>
        hafter a' (by simp [ha'])⟩
  · rintro (ha | ⟨ha, before, b, after, rfl, hb, hafter⟩)
    · exact ⟨as, a, [], rfl, ha, by simp⟩
    · have hafter' : ∀ a' ∈ after ++ [a], ∀ id', ¬ Gives a' name id' :=
        List.forall_mem_append.mpr ⟨hafter, List.forall_mem_singleton.mpr ha⟩
      exact ⟨before, b, after ++ [a], by simp, hb, hafter'⟩

/-- Where a name was given a number at all, one was given last. -/
theorem exists_lastGives_iff : (∃ id, LastGives Gives as name id) ↔
    ∃ a ∈ as, ∃ id, Gives a name id := by
  constructor
  · rintro ⟨id, before, a, after, rfl, ha, -⟩
    exact ⟨a, by simp, id, ha⟩
  · induction as using List.reverseRec with
    | nil => simp
    | append_singleton as b ih =>
        rintro ⟨a, ha, id, hgives⟩
        by_cases hb : ∃ id, Gives b name id
        · obtain ⟨id', hb⟩ := hb
          exact ⟨id', lastGives_concat.mpr (.inl hb)⟩
        · rw [not_exists] at hb
          rcases List.mem_append.mp ha with ha | ha
          · obtain ⟨id', hlast⟩ := ih ⟨a, ha, id, hgives⟩
            exact ⟨id', lastGives_concat.mpr (.inr ⟨hb, hlast⟩)⟩
          · rw [List.mem_singleton.mp ha] at hgives
            exact absurd hgives (hb id)

/-- What finds the number that was given last finds none exactly where none was given. -/
theorem eq_none_iff_of_lastGives {found : Option UInt32}
    (h : ∀ id, found = some id ↔ LastGives Gives as name id) :
    found = none ↔ ∀ a ∈ as, ∀ id, ¬ Gives a name id := by
  rw [← not_iff_not, ← Ne, Option.ne_none_iff_exists']
  simp only [h, exists_lastGives_iff]
  simp

end LastGives

/-! ### Dictionaries -/

namespace Dictionary

variable {κ α : Type} [DecidableEq κ]

/-- Of two dictionaries the one that is put in answers first. -/
theorem get?_putAll_entries (d d' : Dictionary κ α) (k : κ) :
    (d.putAll d'.entries).get? k = (d'.get? k).or (d.get? k) := by
  have hreverse : findEntry k d'.entries.reverse = d'.get? k := by
    have hnodup : (d'.entries.reverse.map Prod.fst).Nodup := by
      rw [List.map_reverse]
      exact List.nodup_reverse.mpr d'.nodup
    apply Option.ext
    intro a
    constructor
    · exact fun h => findEntry_of_mem d'.nodup (List.mem_reverse.mp (mem_of_findEntry h))
    · exact fun h => findEntry_of_mem hnodup (List.mem_reverse.mpr (mem_of_findEntry h))
  rw [get?_putAll, hreverse]

theorem mem_keys_iff (d : Dictionary κ α) (k : κ) : k ∈ d.keys ↔ ∃ a, d.get? k = some a := by
  constructor
  · intro h
    obtain ⟨⟨k, a⟩, hmem, rfl⟩ := List.mem_map.mp h
    exact ⟨a, findEntry_of_mem d.nodup hmem⟩
  · rintro ⟨a, h⟩
    exact List.mem_map.mpr ⟨(k, a), mem_of_findEntry h, rfl⟩

end Dictionary

/-! ### Definitions

What a text defines is said here without the function that reads definitions. -/

/-- Decimal digits that stand for a number of 32 bits, with or without a plus sign in front. -/
def IsNumeral (cs : List Char) (n : UInt32) : Prop :=
  ∃ ds : Digits, (cs = ds.chars ∨ cs = '+' :: ds.chars) ∧ ds.value = n.toNat

theorem readDigits_eq_ok_imp {cs : List Char} {n m : Nat} (h : Text.readDigits n cs = .ok m) :
    (∀ c ∈ cs, isDigit c) ∧ m = Nat.ofDigitChars 10 cs n ∧ (cs ≠ [] → m < 0x100000000) := by
  induction cs generalizing n with
  | nil =>
      cases h
      simp
  | cons c cs ih =>
      rw [Text.readDigits] at h
      split at h
      · rename_i hc
        dsimp only at h
        split at h
        · rename_i hlt
          obtain ⟨hcs, hm, hbound⟩ := ih h
          refine ⟨List.forall_mem_cons.mpr ⟨hc, hcs⟩, ?_, fun _ => ?_⟩
          · rw [hm, Nat.ofDigitChars_cons, Text.digitValue, Nat.mul_comm]
          · cases cs with
            | nil =>
                cases h
                exact hlt
            | cons c' cs => exact hbound (List.cons_ne_nil c' cs)
        · cases h
      · cases h

theorem map_readDigits_eq_ok_iff {c : Char} {cs : List Char} {n : UInt32} :
    UInt32.ofNat <$> Text.readDigits 0 (c :: cs) = .ok n ↔
      ∃ ds : Digits, c :: cs = ds.chars ∧ ds.value = n.toNat := by
  constructor
  · intro h
    cases hread : Text.readDigits 0 (c :: cs) with
    | error fault =>
        rw [hread] at h
        cases h
    | ok m =>
        rw [hread] at h
        obtain rfl : UInt32.ofNat m = n := Except.ok.inj h
        obtain ⟨hall, hm, hlt⟩ := readDigits_eq_ok_imp hread
        refine ⟨⟨c :: cs, List.cons_ne_nil c cs, hall⟩, rfl, ?_⟩
        rw [UInt32.toNat_ofNat_of_lt' (hlt (List.cons_ne_nil c cs)), hm]
        rfl
  · rintro ⟨ds, hchars, hvalue⟩
    have hlt : ds.value < 0x100000000 := hvalue ▸ n.toNat_lt
    rw [hchars, readDigits_eq_ok ds.digits hlt]
    show Except.ok (UInt32.ofNat ds.value) = _
    rw [hvalue, UInt32.ofNat_toNat]

/-- **Numerals are what is read as a number of 32 bits.** -/
theorem readUInt32_eq_ok_iff {cs : List Char} {n : UInt32} : Text.readUInt32 cs = .ok n ↔
    IsNumeral cs n := by
  have hplus : ∀ (ds : Digits) cs, '+' :: cs ≠ ds.chars := by
    intro ds cs hchars
    exact absurd (ds.digits '+' (by simp [← hchars])) (by decide)
  unfold IsNumeral
  cases cs with
  | nil =>
      refine iff_of_false (fun h => nomatch h) ?_
      rintro ⟨ds, hchars | hchars, -⟩
      · exact absurd hchars.symm ds.ne_nil
      · cases hchars
  | cons c cs =>
      by_cases hc : c = '+'
      · subst hc
        cases cs with
        | nil =>
            refine iff_of_false (fun h => nomatch h) ?_
            rintro ⟨ds, hchars | hchars, -⟩
            · exact absurd hchars (hplus ds [])
            · exact absurd (List.cons.inj hchars).2.symm ds.ne_nil
        | cons d cs =>
            show UInt32.ofNat <$> Text.readDigits 0 (d :: cs) = .ok n ↔ _
            rw [map_readDigits_eq_ok_iff]
            refine exists_congr fun ds => and_congr_left fun _ => ?_
            simp [hplus]
      · rw [readUInt32_cons hc, map_readDigits_eq_ok_iff]
        refine exists_congr fun ds => and_congr_left fun _ => ?_
        simp [hc]

namespace BindingTable

/-- The text `NAME=ID` gives the number to the name.  It is cut at its first equals sign, and blanks
around both parts are left out. -/
def Defines (definition name : String) (id : UInt32) : Prop :=
  ∃ before after, definition.toList = before ++ '=' :: after ∧ '=' ∉ before ∧
    name = String.ofList (Text.trim before) ∧ IsNumeral (Text.trim after) id

theorem splitDefinition_eq_some_iff {definition : String} {before after : List Char} :
    splitDefinition definition = some (before, after) ↔
      definition.toList = before ++ '=' :: after ∧ '=' ∉ before := by
  unfold splitDefinition
  dsimp only
  constructor
  · intro h
    split at h
    · cases h
    · rename_i c id hdrop
      obtain ⟨rfl, rfl⟩ := Prod.mk.inj (Option.some.inj h)
      have hstop := List.head?_dropWhile_not (fun c => decide (c ≠ '=')) definition.toList
      rw [hdrop] at hstop
      obtain rfl : c = '=' := by simpa using hstop
      refine ⟨?_, fun hmem => ?_⟩
      · rw [← hdrop, List.takeWhile_append_dropWhile]
      · simpa using List.mem_takeWhile_imp hmem
  · rintro ⟨hdefinition, hbefore⟩
    have hpos : ∀ c ∈ before, decide (c ≠ '=') := by
      intro c hc
      simpa using ne_of_mem_of_not_mem hc hbefore
    have hstop : ∀ c, ('=' :: after).head? = some c → ¬ decide (c ≠ '=') := by simp
    obtain ⟨htake, hdrop⟩ := takeWhile_append_stop hpos hstop
    rw [hdefinition, htake, hdrop]

theorem defines_iff {definition name : String} {id : UInt32} :
    Defines definition name id ↔ ∃ before after, splitDefinition definition = some (before, after) ∧
      name = String.ofList (Text.trim before) ∧ Text.readUInt32 (Text.trim after) = .ok id := by
  simp only [Defines, splitDefinition_eq_some_iff, readUInt32_eq_ok_iff, and_assoc]

/-- A definition gives a number to one name at most. -/
theorem Defines.unique {definition name name' : String} {id id' : UInt32}
    (h : Defines definition name id) (h' : Defines definition name' id') :
    name = name' ∧ id = id' := by
  obtain ⟨before, after, hsplit, rfl, hid⟩ := defines_iff.mp h
  obtain ⟨before', after', hsplit', rfl, hid'⟩ := defines_iff.mp h'
  obtain ⟨rfl, rfl⟩ := Prod.mk.inj (Option.some.inj (hsplit.symm.trans hsplit'))
  exact ⟨rfl, Except.ok.inj (hid.symm.trans hid')⟩

theorem Defines.define_eq {definition name : String} {id : UInt32} (h : Defines definition name id)
    (table : BindingTable) : table.define definition = .ok (table.put name id) := by
  obtain ⟨before, after, hsplit, rfl, hid⟩ := defines_iff.mp h
  simp only [define, hsplit, hid]

theorem Defines.iff {definition name name' : String} {id id' : UInt32}
    (h : Defines definition name id) : Defines definition name' id' ↔ name' = name ∧ id' = id := by
  constructor
  · exact fun h' => h'.unique h
  · rintro ⟨rfl, rfl⟩
    exact h

/-- What a write does to a lookup, where it gives one number to one name. -/
theorem get?_put_iff_of_gives (Gives : String → UInt32 → Prop) {name name' : String}
    {id id' : UInt32} (h : ∀ n i, Gives n i ↔ n = name ∧ i = id) {table : BindingTable} :
    (table.put name id).get? name' = some id' ↔
      Gives name' id' ∨ (∀ i, ¬ Gives name' i) ∧ table.get? name' = some id' := by
  rw [Dictionary.get?_put]
  by_cases hname : name = name'
  · subst hname
    simp [h, eq_comm]
  · simp [h, hname, Ne.symm hname]

/-- A text that gives no number to a name is refused. -/
theorem define_of_not_defines {definition : String} (h : ∀ name id, ¬ Defines definition name id)
    (table : BindingTable) : ∃ fault, table.define definition = .error (.invalidFormat fault) := by
  unfold define
  cases hsplit : splitDefinition definition with
  | none => exact ⟨_, rfl⟩
  | some parts =>
      obtain ⟨before, after⟩ := parts
      dsimp only
      cases hid : Text.readUInt32 (Text.trim after) with
      | error fault => exact ⟨_, rfl⟩
      | ok id => exact absurd (defines_iff.mpr ⟨before, after, hsplit, rfl, hid⟩) (h _ id)

end BindingTable

/-! ### Operations -/

namespace Bindings

open WidgetLayout.BindingTable (Defines)

/-- The two tables of a host by name. -/
inductive TableName
  | resources
  | properties
deriving DecidableEq, Repr

/-- One of the tables. -/
def table (b : Bindings) : TableName → BindingTable
  | .resources => b.resources
  | .properties => b.properties

/-- The same tables, but for one of them. -/
def withTable (b : Bindings) : TableName → BindingTable → Bindings
  | .resources, table => { b with resources := table }
  | .properties, table => { b with properties := table }

theorem table_withTable (b : Bindings) (t t' : TableName) (table : BindingTable) :
    (b.withTable t table).table t' = if t' = t then table else b.table t' := by
  cases t <;> cases t' <;> rfl

/-- What can be done to the tables of a host. -/
inductive Operation
  | insert (t : TableName) (name : String) (id : UInt32)
  | define (t : TableName) (definition : String)
  | merge (other : Bindings)

/-- The table that an operation is on; merging is on both. -/
def Operation.target? : Operation → Option TableName
  | .insert t _ _ | .define t _ => some t
  | .merge _ => none

/-- Does an operation and says how it ended; a definition that is refused leaves the tables
alone. -/
def apply (b : Bindings) : Operation → Except Error Unit × Bindings
  | .insert t name id => (.ok (), b.withTable t ((b.table t).put name id))
  | .define t definition =>
    match (b.table t).define definition with
    | .ok table => (.ok (), b.withTable t table)
    | .error e => (.error e, b)
  | .merge other => (.ok (), b.merge other)

/-- The tables of a host after some operations. -/
def run (ops : List Operation) : Bindings := ops.foldl (fun b op => (b.apply op).2) .empty

/-- An operation gives a number to a name in a table.  Merging gives all that the other side has. -/
inductive Operation.Writes (t : TableName) : Operation → String → UInt32 → Prop
  | insert {name : String} {id : UInt32} : Writes t (.insert t name id) name id
  | define {definition name : String} {id : UInt32} (h : Defines definition name id) :
      Writes t (.define t definition) name id
  | merge {other : Bindings} {name : String} {id : UInt32}
      (h : (other.table t).get? name = some id) :
      Writes t (.merge other) name id

/-- A definition does what it says, or it is refused and does nothing. -/
theorem apply_define_cases (b : Bindings) (t : TableName) (definition : String) :
    (∃ name id, Defines definition name id ∧
      b.apply (.define t definition) = (.ok (), b.withTable t ((b.table t).put name id))) ∨
    (∀ name id, ¬ Defines definition name id) ∧
      ∃ fault, b.apply (.define t definition) = (.error (.invalidFormat fault), b) := by
  by_cases hdefines : ∃ name id, Defines definition name id
  · obtain ⟨name, id, hdefines⟩ := hdefines
    exact .inl ⟨name, id, hdefines, by simp only [apply, hdefines.define_eq]⟩
  · simp only [not_exists] at hdefines
    obtain ⟨fault, hfault⟩ := BindingTable.define_of_not_defines hdefines (b.table t)
    exact .inr ⟨hdefines, fault, by simp only [apply, hfault]⟩

theorem table_merge (b other : Bindings) (t : TableName) :
    (b.merge other).table t = (b.table t).putAll (other.table t).entries := by
  cases t <;> rfl

namespace Operation

variable {t t' : TableName} {name name' : String} {id id' : UInt32}

theorem writes_insert_iff : (insert t' name' id').Writes t name id ↔
    t' = t ∧ name = name' ∧ id = id' := by
  constructor
  · rintro ⟨⟩
    exact ⟨rfl, rfl, rfl⟩
  · rintro ⟨rfl, rfl, rfl⟩
    exact .insert

theorem writes_define_iff {definition : String} :
    (define t' definition).Writes t name id ↔ t' = t ∧ Defines definition name id := by
  constructor
  · rintro ⟨⟩
    exact ⟨rfl, ‹_›⟩
  · rintro ⟨rfl, h⟩
    exact .define h

theorem writes_merge_iff {other : Bindings} :
    (merge other).Writes t name id ↔ (other.table t).get? name = some id := by
  constructor
  · rintro ⟨⟩
    assumption
  · exact .merge

end Operation

/-- What one operation does to a lookup: what it gives is found, and where it gives nothing all is
as it was. -/
theorem get?_apply_eq_some_iff (b : Bindings) (op : Operation) (t : TableName) (name : String)
    (id : UInt32) :
    ((b.apply op).2.table t).get? name = some id ↔
      op.Writes t name id ∨ (∀ id', ¬ op.Writes t name id') ∧ (b.table t).get? name = some id := by
  cases op with
  | insert t' name' id' =>
      simp only [apply, table_withTable, Operation.writes_insert_iff]
      by_cases ht : t = t'
      · subst ht
        simp only [if_true, true_and]
        exact BindingTable.get?_put_iff_of_gives (fun n i => n = name' ∧ i = id') fun _ _ => Iff.rfl
      · simp [ht, Ne.symm ht]
  | define t' definition =>
      simp only [Operation.writes_define_iff]
      rcases b.apply_define_cases t' definition with
        ⟨name', id', hdefines, happly⟩ | ⟨hdefines, fault, happly⟩
      · rw [happly, table_withTable]
        by_cases ht : t = t'
        · subst ht
          simp only [if_true, true_and]
          exact BindingTable.get?_put_iff_of_gives (Defines definition) fun _ _ => hdefines.iff
        · simp [ht, Ne.symm ht]
      · simp [happly, hdefines]
  | merge other =>
      simp only [apply, table_merge, Dictionary.get?_putAll_entries, Operation.writes_merge_iff]
      cases (other.table t).get? name <;> simp

/-- An operation on one table leaves the other as it is. -/
theorem table_apply_of_ne (b : Bindings) {op : Operation} {t t' : TableName}
    (hop : op.target? = some t) (ht : t' ≠ t) : (b.apply op).2.table t' = b.table t' := by
  cases op with
  | insert t name id =>
      cases hop
      rw [apply, table_withTable, if_neg ht]
  | define t definition =>
      cases hop
      rcases b.apply_define_cases t definition with ⟨name, id, -, happly⟩ | ⟨-, fault, happly⟩
      · rw [happly, table_withTable, if_neg ht]
      · rw [happly]
  | merge other => cases hop

/-! ### Runs

The induction is from the end: the last operation decides, and where it gives nothing what was
done before it. -/

theorem run_concat (ops : List Operation) (op : Operation) :
    run (ops ++ [op]) = ((run ops).apply op).2 := by
  simp [run]

/-- **A lookup finds what was given last.** -/
theorem get?_run_eq_some_iff (ops : List Operation) (t : TableName) (name : String) (id : UInt32) :
    ((run ops).table t).get? name = some id ↔ LastGives (fun op => op.Writes t) ops name id := by
  induction ops using List.reverseRec generalizing id with
  | nil =>
      refine iff_of_false ?_ not_lastGives_nil
      cases t <;> simp [run, table, empty]
  | append_singleton ops op ih => rw [run_concat, get?_apply_eq_some_iff, lastGives_concat, ih]

/-- **The tables of a host are two independent maps in which the last write wins.**  After any
operations on empty tables, a lookup finds the number that was given to the name last, and none if
there was none; the size of a table is the number of names that were given one.  An operation on one
table leaves the other as it is.  A definition is accepted exactly if it reads `NAME=ID`, and then
its number is put under its name; else it is refused for its format and nothing is changed. -/
theorem run_last_write_wins (ops : List Operation) (t : TableName) :
    (∀ name id, ((run ops).table t).get? name = some id ↔
      LastGives (fun op => op.Writes t) ops name id) ∧
    (∀ name, ((run ops).table t).get? name = none ↔ ∀ op ∈ ops, ∀ id, ¬ op.Writes t name id) ∧
    (∃ names : List String, names.Nodup ∧
      (∀ name, name ∈ names ↔ ∃ op ∈ ops, ∃ id, op.Writes t name id) ∧
      ((run ops).table t).size = names.length) ∧
    ∀ b : Bindings,
      (∀ (op : Operation) t', op.target? = some t → t' ≠ t → (b.apply op).2.table t' = b.table t') ∧
      ∀ definition,
        ((b.apply (.define t definition)).1 = .ok () ↔ ∃ name id, Defines definition name id) ∧
        (∀ name id, Defines definition name id →
          (b.apply (.define t definition)).2 = b.withTable t ((b.table t).put name id)) ∧
        ∀ e, (b.apply (.define t definition)).1 = .error e →
          (∃ fault, e = .invalidFormat fault) ∧ (b.apply (.define t definition)).2 = b := by
  refine ⟨get?_run_eq_some_iff ops t, fun name => ?_, ?_, fun b =>
    ⟨fun op t' => b.table_apply_of_ne, ?_⟩⟩
  · exact eq_none_iff_of_lastGives (get?_run_eq_some_iff ops t name)
  · refine ⟨((run ops).table t).keys, ((run ops).table t).nodup, fun name => ?_,
      (List.length_map _).symm⟩
    simp only [Dictionary.mem_keys_iff, get?_run_eq_some_iff, exists_lastGives_iff]
  · intro definition
    rcases b.apply_define_cases t definition with
      ⟨name, id, hdefines, happly⟩ | ⟨hdefines, fault, happly⟩
    · rw [happly]
      refine ⟨iff_of_true rfl ⟨name, id, hdefines⟩, fun name' id' hdefines' => ?_,
        fun e he => by cases he⟩
      obtain ⟨rfl, rfl⟩ := hdefines.unique hdefines'
      rfl
    · rw [happly]
      refine ⟨iff_of_false (fun hok => by cases hok) (by simpa using hdefines), fun name id h => ?_,
        fun e he => ?_⟩
      · exact absurd h (hdefines name id)
      · exact ⟨⟨fault, (Except.error.inj he).symm⟩, rfl⟩

/-- The same name is given numbers in both tables, once with blanks around it, and a definition of
it is refused. -/
theorem run_last_write_wins_logo :
    let ops : List Operation := [.insert .resources "logo" 1, .define .resources " logo = +2 ",
      .define .resources "logo=2=3", .insert .properties "logo" 7]
    ((run ops).table .resources).get? "logo" = some 2 ∧
      LastGives (fun op => op.Writes .resources) ops "logo" 2 := by
  intro ops
  have hlookup : ((run ops).table .resources).get? "logo" = some 2 := by decide +kernel
  exact ⟨hlookup, ((run_last_write_wins ops .resources).1 "logo" 2).mp hlookup⟩

end Bindings

end WidgetLayout
