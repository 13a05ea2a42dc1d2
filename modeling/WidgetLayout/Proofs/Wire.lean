/-
Reading takes exactly the wire forms.

Each reader of `Wire/Read.lean` succeeds on the written forms of `Wire/Write.lean` and, varints
apart, on nothing else.  A varint may begin with empty groups: `Padded` says so, and it is the only
freedom that the wire forms of numbers, strings and bytes leave to a writer.

A varint is read group by group, so what is proved first is about groups: a run of bytes with the
high bit set and one without it, whose low seven bits make up the number (`takes_varintGroups`).
That the groups of a number are those of its shortest form behind empty ones (`groups_eq`) is then
arithmetic.
-/
import Mathlib.Data.List.Basic
import Mathlib.Data.List.Induction
import WidgetLayout.Proofs.Tape
import WidgetLayout.Wire.Read
import WidgetLayout.Wire.Write

namespace WidgetLayout.Wire

open WidgetLayout.Progress

/-- A cursor as a tape: the bytes between two cursors are what was read from the first to the
second. -/
def tape : Tape Cursor Cursor (List UInt8) where
  Valid _ := True
  view := id
  Moves c bs c' := c.rest = bs ++ c'.rest ∧ c'.offset = c.offset + bs.length
  nil := []
  append := (· ++ ·)
  moves_nil := by
    rintro ⟨o, r⟩ ⟨o', r'⟩
    simp [eq_comm, and_comm]
  moves_append := by
    intro c bs cs c'
    constructor
    · rintro ⟨hrest, hoff⟩
      refine ⟨⟨c.offset + bs.length, cs ++ c'.rest⟩, ⟨?_, rfl⟩, rfl, ?_⟩
      · rw [hrest, List.append_assoc]
      · rw [hoff, List.length_append, Nat.add_assoc]
    · rintro ⟨d, ⟨hrest, hoff⟩, hrest', hoff'⟩
      refine ⟨?_, ?_⟩
      · rw [hrest, hrest', List.append_assoc]
      · rw [hoff', hoff, List.length_append, Nat.add_assoc]
  append_nil := List.append_nil
  nil_append := List.nil_append
  append_assoc := List.append_assoc

/-- A reader that succeeds on the forms of `F` and on nothing else. -/
abbrev Reads {ε α : Type} (m : Reader ε α) (F : α → List UInt8 → Prop) : Prop := Takes tape m F

/-- Where a form stands in front it is read, and what follows it is left. -/
theorem Reads.ok_of_append {ε α : Type} {m : Reader ε α} {F : α → List UInt8 → Prop}
    (h : Reads m F) {a : α} {bs : List UInt8} (hF : F a bs) (offset : Nat) (rest : List UInt8) :
    m ⟨offset, bs ++ rest⟩ = .ok a ⟨offset + bs.length, rest⟩ := by
  obtain ⟨c, hm, hc⟩ :=
    h.complete (x := ⟨offset, bs ++ rest⟩) (z := ⟨offset + bs.length, rest⟩) trivial hF ⟨rfl, rfl⟩
  obtain rfl : c = _ := hc
  exact hm

/-! ### Bytes -/

theorem reads_byte : Reads Reader.byte fun b bs => bs = [b] where
  valid _ _ := trivial
  sound {c b c'} _ h := by
    unfold Reader.byte at h
    split at h
    · cases h
    · rename_i b' rest hrest
      obtain ⟨rfl, rfl⟩ := EStateM.Result.ok.inj h
      exact ⟨[b'], rfl, hrest, rfl⟩
  complete {c b bs c'} _ hbs hmoves := by
    subst hbs
    obtain ⟨hrest, hoff⟩ := hmoves
    refine ⟨c', ?_, rfl⟩
    unfold Reader.byte
    rw [show c.rest = b :: c'.rest from hrest]
    show EStateM.Result.ok b (⟨c.offset + 1, c'.rest⟩ : Cursor) = _
    rw [show c.offset + 1 = c'.offset from hoff.symm]

theorem reads_bytes (n : Nat) (fault : ReadFault) :
    Reads (Reader.bytes n fault) fun xs bs => bs = xs ∧ xs.length = n where
  valid _ _ := trivial
  sound {c xs c'} _ h := by
    unfold Reader.bytes at h
    dsimp only at h
    split at h
    · rename_i hlen
      obtain ⟨rfl, rfl⟩ := EStateM.Result.ok.inj h
      exact ⟨_, ⟨rfl, hlen⟩, (List.take_append_drop n c.rest).symm, rfl⟩
    · cases h
  complete {c xs bs c'} _ hbs hmoves := by
    obtain ⟨rfl, hlen⟩ := hbs
    obtain ⟨hrest, hoff⟩ := hmoves
    have hrest : c.rest = bs ++ c'.rest := hrest
    have htake : c.rest.take n = bs := by rw [hrest, ← hlen, List.take_left]
    have hdrop : c.rest.drop n = c'.rest := by rw [hrest, ← hlen, List.drop_left]
    refine ⟨c', ?_, rfl⟩
    unfold Reader.bytes
    simp only [htake, hlen, if_true, Cursor.skip, hdrop]
    rw [show c.offset + n = c'.offset by rw [hoff, hlen]; rfl]

/-! ### Groups of seven bits

Empty groups in front are read as well, up to five bytes in all, so a number has more forms than
its written one. -/

/-- The number that groups stand for when those before them stand for `n`. -/
def groupsFrom (n : Nat) (bs : List UInt8) : Nat := bs.foldl (fun n b => n * 128 + b.toNat % 128) n

/-- Groups that end where a varint ends: only the last byte has no high bit. -/
def Groups (bs : List UInt8) : Prop :=
  ∃ init last, bs = init ++ [last] ∧ (∀ b ∈ init, 128 ≤ b.toNat) ∧ last.toNat < 128

theorem groups_single {b : UInt8} (h : b.toNat < 128) : Groups [b] := ⟨[], b, rfl, by simp, h⟩

theorem groups_cons_iff {b : UInt8} {bs : List UInt8} (hb : 128 ≤ b.toNat) :
    Groups (b :: bs) ↔ Groups bs := by
  constructor
  · rintro ⟨init, last, heq, hinit, hlast⟩
    cases init with
    | nil =>
        obtain ⟨rfl, -⟩ := List.cons.inj heq
        omega
    | cons b' init =>
        obtain ⟨rfl, rfl⟩ := List.cons.inj heq
        exact ⟨init, last, rfl, fun x hx => hinit x (by simp [hx]), hlast⟩
  · rintro ⟨init, last, rfl, hinit, hlast⟩
    refine ⟨b :: init, last, rfl, ?_, hlast⟩
    intro x hx
    rcases List.mem_cons.mp hx with rfl | hx
    · exact hb
    · exact hinit x hx

theorem eq_nil_of_groups_cons {b : UInt8} {bs : List UInt8} (hb : b.toNat < 128)
    (h : Groups (b :: bs)) : bs = [] := by
  obtain ⟨init, last, heq, hinit, -⟩ := h
  cases init with
  | nil => exact (List.cons.inj heq).2
  | cons b' init =>
      obtain ⟨rfl, -⟩ := List.cons.inj heq
      have := hinit b (by simp)
      omega

/-- A varint is read as far as its first byte without a high bit, and no further than `n` bytes. -/
theorem reads_varintGroups (n value : Nat) :
    Reads (Reader.varintGroups value n) fun x bs =>
      Groups bs ∧ bs.length ≤ n ∧ groupsFrom value bs = x.toNat := by
  induction n generalizing value with
  | zero =>
      refine (Takes.throw _).congr fun x bs => ?_
      constructor
      · exact False.elim
      · rintro ⟨⟨init, last, rfl, -, -⟩, hlen, -⟩
        simp at hlen
  | succ n ih =>
      refine (reads_byte.bind fun b =>
        Takes.ite (Takes.ite (Takes.pure _) (Takes.throw _)) (ih _)).congr fun x bs => ?_
      constructor
      · rintro ⟨b, bs₁, bs₂, rfl, h, rfl⟩
        by_cases hb : b.toNat < 128
        · rw [if_pos hb] at h
          by_cases hvalue : value * 128 + b.toNat % 128 < 0x100000000
          · rw [if_pos hvalue] at h
            obtain ⟨rfl, rfl⟩ := h
            refine ⟨groups_single hb, by simp [tape], ?_⟩
            rw [UInt32.toNat_ofNat_of_lt' hvalue]
            rfl
          · rw [if_neg hvalue] at h
            exact h.elim
        · rw [if_neg hb] at h
          obtain ⟨hgroups, hlen, hx⟩ := h
          exact ⟨(groups_cons_iff (Nat.le_of_not_lt hb)).mpr hgroups, Nat.succ_le_succ hlen, hx⟩
      · rintro ⟨hgroups, hlen, hx⟩
        cases bs with
        | nil =>
            obtain ⟨init, last, heq, -, -⟩ := hgroups
            simp at heq
        | cons b rest =>
            refine ⟨b, [b], rest, rfl, ?_, rfl⟩
            by_cases hb : b.toNat < 128
            · obtain rfl := eq_nil_of_groups_cons hb hgroups
              have hvalue : value * 128 + b.toNat % 128 = x.toNat := hx
              have hlt := x.toNat_lt
              rw [if_pos hb, if_pos (by omega)]
              refine ⟨?_, rfl⟩
              rw [hvalue, UInt32.ofNat_toNat]
            · rw [if_neg hb]
              exact ⟨(groups_cons_iff (Nat.le_of_not_lt hb)).mp hgroups,
                Nat.le_of_succ_le_succ hlen, hx⟩

/-! ### Varints -/

theorem groupsFrom_append (n : Nat) (bs cs : List UInt8) :
    groupsFrom n (bs ++ cs) = groupsFrom (groupsFrom n bs) cs := List.foldl_append

theorem groupsFrom_replicate (k : Nat) (bs : List UInt8) :
    groupsFrom 0 (List.replicate k 0x80 ++ bs) = groupsFrom 0 bs := by
  induction k with
  | zero => rfl
  | succ k ih => exact ih

theorem le_of_mem_leadingGroups (n : Nat) : ∀ b ∈ leadingGroups n, 128 ≤ b.toNat := by
  fun_induction leadingGroups n with
  | case1 => simp
  | case2 n hn ih =>
      intro b hb
      rcases List.mem_append.mp hb with hb | hb
      · exact ih b hb
      · rw [List.mem_singleton.mp hb, UInt8.toNat_ofNat']
        omega

theorem groupsFrom_leadingGroups (n : Nat) : groupsFrom 0 (leadingGroups n) = n := by
  fun_induction leadingGroups n with
  | case1 => rfl
  | case2 n hn ih =>
      rw [groupsFrom_append, ih]
      show n / 128 * 128 + (UInt8.ofNat (n % 128 + 128)).toNat % 128 = n
      rw [UInt8.toNat_ofNat']
      omega

/-- Bytes with high bits are the leading groups of their number behind empty groups. -/
theorem eq_leadingGroups (bs : List UInt8) (h : ∀ b ∈ bs, 128 ≤ b.toNat) :
    ∃ k, bs = List.replicate k 0x80 ++ leadingGroups (groupsFrom 0 bs) := by
  -- The last group is the low end of the number, so the induction takes bytes off the end.
  induction bs using List.reverseRec with
  | nil => exact ⟨0, by simp [groupsFrom, leadingGroups]⟩
  | append_singleton bs b ih =>
      obtain ⟨k, hk⟩ := ih fun x hx => h x (by simp [hx])
      have hb := h b (by simp)
      have hlt := b.toNat_lt
      have hnum : groupsFrom 0 (bs ++ [b]) = groupsFrom 0 bs * 128 + b.toNat % 128 :=
        groupsFrom_append ..
      by_cases hzero : groupsFrom 0 (bs ++ [b]) = 0
      · have hbs : groupsFrom 0 bs = 0 := by omega
        have hb80 : b = 0x80 := UInt8.toNat_inj.mp (by show b.toNat = 128; omega)
        refine ⟨k + 1, ?_⟩
        rw [hzero, leadingGroups, if_pos rfl, List.append_nil, List.replicate_succ', ← hb80]
        rw [hbs, leadingGroups, if_pos rfl, List.append_nil] at hk
        rw [hk, hb80]
      · refine ⟨k, ?_⟩
        have hdiv : groupsFrom 0 (bs ++ [b]) / 128 = groupsFrom 0 bs := by omega
        have hmod : groupsFrom 0 (bs ++ [b]) % 128 + 128 = b.toNat := by omega
        rw [leadingGroups, if_neg hzero, hdiv, hmod, UInt8.ofNat_toNat, ← List.append_assoc, ← hk]

/-- The written form of a number behind empty groups, of five bytes at most. -/
def Padded (x : UInt32) (bs : List UInt8) : Prop :=
  ∃ k, bs = List.replicate k 0x80 ++ varint x ∧ bs.length ≤ 5

theorem groups_varint (x : UInt32) : Groups (varint x) := by
  refine ⟨_, _, rfl, le_of_mem_leadingGroups _, ?_⟩
  rw [UInt8.toNat_ofNat']
  omega

theorem groups_replicate (k : Nat) {bs : List UInt8} (h : Groups bs) :
    Groups (List.replicate k 0x80 ++ bs) := by
  induction k with
  | zero => exact h
  | succ k ih => exact (groups_cons_iff (by decide)).mpr ih

theorem groupsFrom_varint (x : UInt32) : groupsFrom 0 (varint x) = x.toNat := by
  rw [varint, groupsFrom_append, groupsFrom_leadingGroups]
  show x.toNat / 128 * 128 + (UInt8.ofNat (x.toNat % 128)).toNat % 128 = x.toNat
  rw [UInt8.toNat_ofNat']
  omega

theorem groups_eq {bs : List UInt8} {x : UInt32} (h : Groups bs) (hx : groupsFrom 0 bs = x.toNat) :
    ∃ k, bs = List.replicate k 0x80 ++ varint x := by
  obtain ⟨init, last, rfl, hinit, hlast⟩ := h
  obtain ⟨k, hk⟩ := eq_leadingGroups init hinit
  have hnum : groupsFrom 0 init * 128 + last.toNat % 128 = x.toNat := by
    rw [groupsFrom_append] at hx
    exact hx
  refine ⟨k, ?_⟩
  have hdiv : x.toNat / 128 = groupsFrom 0 init := by omega
  have hmod : x.toNat % 128 = last.toNat := by omega
  rw [varint, hdiv, hmod, UInt8.ofNat_toNat, ← List.append_assoc, ← hk]

/-- A varint is read exactly from a written form of its number, empty groups in front allowed. -/
theorem reads_varint : Reads Reader.varint Padded := by
  refine (reads_varintGroups 5 0).congr fun x bs => ?_
  constructor
  · rintro ⟨hgroups, hlen, hx⟩
    obtain ⟨k, hk⟩ := groups_eq hgroups hx
    exact ⟨k, hk, hlen⟩
  · rintro ⟨k, rfl, hlen⟩
    refine ⟨groups_replicate k (groups_varint x), hlen, ?_⟩
    rw [groupsFrom_replicate, groupsFrom_varint]

theorem length_leadingGroups_le (k : Nat) :
    ∀ n, n < Nat.pow 128 k → (leadingGroups n).length ≤ k := by
  induction k with
  | zero =>
      intro n hn
      have hn : n < 1 := hn
      rw [show n = 0 by omega, leadingGroups, if_pos rfl]
      exact Nat.le_refl _
  | succ k ih =>
      intro n hn
      have hn : n < Nat.pow 128 k * 128 := hn
      rw [leadingGroups]
      split
      · exact Nat.zero_le _
      · have := ih (n / 128) (by omega)
        simp only [List.length_append, List.length_singleton]
        omega

/-- The written form itself is one of the forms that are read. -/
theorem padded_varint (x : UInt32) : Padded x (varint x) := by
  refine ⟨0, rfl, ?_⟩
  have hlt := x.toNat_lt
  have := length_leadingGroups_le 4 (x.toNat / 128) (show x.toNat / 128 < 268435456 by omega)
  simp only [varint, List.length_append, List.length_singleton]
  omega

theorem Padded.length_le {x : UInt32} {bs : List UInt8} (h : Padded x bs) :
    (varint x).length ≤ bs.length := by
  obtain ⟨k, rfl, -⟩ := h
  simp

/-! ### Strings and single-precision numbers -/

theorem reads_string :
    Reads Reader.string fun xs bs => ∃ x head, Padded x head ∧ x.toNat = xs.length ∧
      bs = head ++ xs := by
  refine (reads_varint.bind fun x => reads_bytes x.toNat _).congr fun xs bs => ?_
  constructor
  · rintro ⟨x, head, tail, hhead, ⟨rfl, hlen⟩, rfl⟩
    exact ⟨x, head, hhead, hlen.symm, rfl⟩
  · rintro ⟨x, head, hhead, hlen, rfl⟩
    exact ⟨x, head, xs, hhead, ⟨rfl, hlen.symm⟩, rfl⟩

theorem single_ofBytes (a b c d : UInt8) :
    single ⟨UInt32.ofNat ([a, b, c, d].foldr (fun b n => b.toNat + 256 * n) 0)⟩ = [a, b, c, d] := by
  have ha := a.toNat_lt
  have hb := b.toNat_lt
  have hc := c.toNat_lt
  have hd := d.toNat_lt
  simp only [single, List.foldr, UInt32.toNat_ofNat']
  refine List.cons_eq_cons.mpr ⟨?_, List.cons_eq_cons.mpr ⟨?_, List.cons_eq_cons.mpr ⟨?_,
    List.cons_eq_cons.mpr ⟨?_, rfl⟩⟩⟩⟩ <;>
  · apply UInt8.toNat_inj.mp
    rw [UInt8.toNat_ofNat']
    omega

theorem ofBytes_single (x : Single) :
    (⟨UInt32.ofNat ((single x).foldr (fun b n => b.toNat + 256 * n) 0)⟩ : Single) = x := by
  have hlt := x.bits.toNat_lt
  cases x with
  | mk bits =>
      congr 1
      apply UInt32.toNat_inj.mp
      simp only [single, List.foldr, UInt32.toNat_ofNat', UInt8.toNat_ofNat'] at hlt ⊢
      omega

theorem reads_single : Reads Reader.single fun x bs => bs = single x := by
  refine ((reads_bytes 4 _).bind fun bs => Takes.pure _).congr fun x bs => ?_
  constructor
  · rintro ⟨xs, bs₁, bs₂, ⟨rfl, hlen⟩, ⟨rfl, rfl⟩, rfl⟩
    obtain ⟨a, b, c, d, rfl⟩ := List.length_eq_four.mp hlen
    rw [single_ofBytes]
    rfl
  · rintro rfl
    exact ⟨single x, single x, [], ⟨rfl, rfl⟩, ⟨(ofBytes_single x).symm, rfl⟩, rfl⟩

end WidgetLayout.Wire
