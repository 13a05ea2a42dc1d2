/-
Loops that come to the same as the recursions of this library.

Numbers, tags and margins are defined by recursion on what they are made of.  A program can also
work them out in a loop: with a buffer that is filled from its end, with a byte to which bits are
added, with a counter that is looked at in every turn, or with a place that is noted in case it is
needed.  Each of these loops is written down here, and each is equal to the recursion
(`buffered_eq`, `packChunks_eq`, `tagLoop_eq`, `markedMargins_eq`).

Bytes can be written one piece at a time as well.  A sink takes of two writes what it takes of one
write of both, whether or not it has room for them, so a value may be written in its pieces
(`writeValue_eq_forM`).
-/
import Mathlib.Algebra.Group.Nat.Defs
import WidgetLayout.Proofs.SizeTags
import WidgetLayout.Value.Literal

namespace WidgetLayout

/-! ### Numbers

The groups of a number are put into a buffer of five bytes, the last group at its end.  The written
form begins at the first group that is not empty. -/

namespace Wire

/-- The group of a number that stands `n` groups before its last one. -/
def groupAt (v : UInt32) (n : Nat) : UInt8 := (v >>> UInt32.ofNat (7 * n) &&& 0x7F).toUInt8

/-- One turn of filling a buffer, and of noting where the written form begins. -/
def fill (v : UInt32) (state : List UInt8 × Nat) (n : Nat) : List UInt8 × Nat :=
  let group := groupAt v n
  let i := 4 - n
  (state.1.set i (if 0 < n then group ||| 0x80 else group), if group ≠ 0 then i else state.2)

/-- The written form of a number, by way of a buffer. -/
def buffered (v : UInt32) : List UInt8 :=
  let state := (List.range 5).foldl (fill v) (List.replicate 5 0, 4)
  state.1.drop state.2

theorem groupAt_eq (v : UInt32) {n : Nat} (hn : n < 5) :
    groupAt v n = UInt8.ofNat (v.toNat / 128 ^ n % 128) := by
  have hcount : (UInt32.ofNat (7 * n)).toNat = 7 * n :=
    UInt32.toNat_ofNat_of_lt' (by show 7 * n < 2 ^ 32; omega)
  have hmask : (0x7F : UInt32).toNat = 2 ^ 7 - 1 := rfl
  apply UInt8.toNat_inj.mp
  rw [groupAt, UInt32.toNat_toUInt8, UInt32.toNat_and, UInt32.toNat_shiftRight, hcount, hmask,
    Nat.and_two_pow_sub_one_eq_mod, Nat.mod_eq_of_lt (by omega : 7 * n < 32),
    Nat.shiftRight_eq_div_pow, Nat.pow_mul, UInt8.toNat_ofNat']

theorem ofNat_or_mark {n : Nat} (hn : n < 128) :
    UInt8.ofNat n ||| 0x80 = UInt8.ofNat (n + 128) := by
  have h : ∀ x : Fin 128, UInt8.ofNat x ||| 0x80 = UInt8.ofNat (x.val + 128) := by decide
  exact h ⟨n, hn⟩

theorem ofNat_ne_zero_iff {n : Nat} (hn : n < 128) : UInt8.ofNat n ≠ 0 ↔ n ≠ 0 := by
  have h : ∀ x : Fin 128, UInt8.ofNat x ≠ 0 ↔ x.val ≠ 0 := by decide
  exact h ⟨n, hn⟩

/-- A turn in numbers: it puts the next digit to the base 128 into the buffer. -/
theorem fill_eq (v : UInt32) (state : List UInt8 × Nat) {n : Nat} (hn : n < 5) :
    fill v state n =
      (state.1.set (4 - n) (UInt8.ofNat (v.toNat / 128 ^ n % 128 + if 0 < n then 128 else 0)),
        if v.toNat / 128 ^ n % 128 ≠ 0 then 4 - n else state.2) := by
  have hlt := Nat.mod_lt (v.toNat / 128 ^ n) (by decide : 0 < 128)
  simp only [fill, groupAt_eq v hn, ofNat_or_mark hlt, ofNat_ne_zero_iff hlt]
  split <;> rfl

/-- After all turns the buffer holds all digits, and the written form begins at the first one that
is not zero, or at the last one. -/
theorem buffered_eq_drop (v : UInt32) :
    let group n := v.toNat / 128 ^ n % 128
    buffered v =
      [UInt8.ofNat (group 4 + 128), UInt8.ofNat (group 3 + 128), UInt8.ofNat (group 2 + 128),
        UInt8.ofNat (group 1 + 128), UInt8.ofNat (group 0)].drop
      (if group 4 ≠ 0 then 0 else if group 3 ≠ 0 then 1 else if group 2 ≠ 0 then 2
        else if group 1 ≠ 0 then 3 else 4) := by
  intro group
  have hrange : List.range 5 = [0, 1, 2, 3, 4] := rfl
  simp only [buffered, hrange, List.foldl_cons, List.foldl_nil]
  rw [fill_eq v _ (by decide : 0 < 5), fill_eq v _ (by decide : 1 < 5),
    fill_eq v _ (by decide : 2 < 5), fill_eq v _ (by decide : 3 < 5),
    fill_eq v _ (by decide : 4 < 5)]
  simp [group]

theorem leadingGroups_of_ne_zero {n : Nat} (hn : n ≠ 0) :
    leadingGroups n = leadingGroups (n / 128) ++ [UInt8.ofNat (n % 128 + 128)] := by
  rw [leadingGroups, if_neg hn]

theorem leadingGroups_of_eq_zero {n : Nat} (hn : n = 0) : leadingGroups n = [] := by
  rw [leadingGroups, if_pos hn]

/-- **Filling a buffer from its end gives the written form of a number.** -/
theorem buffered_eq (v : UInt32) : buffered v = varint v := by
  have hlt : v.toNat < 4294967296 := v.toNat_lt
  rw [buffered_eq_drop, varint]
  generalize v.toNat = n at hlt
  simp only [Nat.reducePow, Nat.pow_zero, Nat.div_one]
  -- One case for each number of groups, each with as many steps of the recursion.
  by_cases h4 : n / 268435456 % 128 ≠ 0
  · rw [if_pos h4, leadingGroups_of_ne_zero (by omega), leadingGroups_of_ne_zero (by omega),
      leadingGroups_of_ne_zero (by omega), leadingGroups_of_ne_zero (by omega),
      leadingGroups_of_eq_zero (by omega)]
    simp only [Nat.div_div_eq_div_mul, Nat.reduceMul]
    rfl
  · rw [if_neg h4]
    by_cases h3 : n / 2097152 % 128 ≠ 0
    · rw [if_pos h3, leadingGroups_of_ne_zero (by omega), leadingGroups_of_ne_zero (by omega),
        leadingGroups_of_ne_zero (by omega), leadingGroups_of_eq_zero (by omega)]
      simp only [Nat.div_div_eq_div_mul, Nat.reduceMul]
      rfl
    · rw [if_neg h3]
      by_cases h2 : n / 16384 % 128 ≠ 0
      · rw [if_pos h2, leadingGroups_of_ne_zero (by omega), leadingGroups_of_ne_zero (by omega),
          leadingGroups_of_eq_zero (by omega)]
        simp only [Nat.div_div_eq_div_mul, Nat.reduceMul]
        rfl
      · rw [if_neg h2]
        by_cases h1 : n / 128 % 128 ≠ 0
        · rw [if_pos h1, leadingGroups_of_ne_zero (by omega), leadingGroups_of_eq_zero (by omega)]
          rfl
        · rw [if_neg h1, leadingGroups_of_eq_zero (by omega)]
          rfl

end Wire

/-! ### Tags of size lists

Tags are packed by adding the bits of four items, one after the other, to an empty byte.  They are
read by a loop over bytes, in which a loop over the slots of a byte stops as soon as there are
enough tags. -/

namespace SizeItem

/-- Items in chunks of four, the last of which may be shorter. -/
def chunks (items : List SizeItem) : List (List SizeItem) :=
  if items = [] then [] else items.take 4 :: chunks (items.drop 4)
termination_by items.length
decreasing_by
  have hpos := List.length_pos_iff.mpr ‹items ≠ []›
  rw [List.length_drop]
  omega

/-- Adds the tag of an item to a byte, in its slot. -/
def addTag (byte : UInt8) (slot : SizeItem × Nat) : UInt8 :=
  byte ||| (slot.1.tag &&& 3) <<< UInt8.ofNat (2 * slot.2)

/-- The tags of items, each chunk of them in a byte. -/
def packChunks (items : List SizeItem) : List UInt8 :=
  (chunks items).map fun chunk => chunk.zipIdx.foldl addTag 0

theorem chunks_nil : chunks [] = [] := by
  rw [chunks, if_pos rfl]

theorem chunks_cons (a : SizeItem) (rest : List SizeItem) :
    chunks (a :: rest) = (a :: rest.take 3) :: chunks (rest.drop 3) := by
  rw [chunks, if_neg (List.cons_ne_nil a rest)]
  rfl

theorem tag_and_three (item : SizeItem) : item.tag &&& 3 = item.tag := by
  have h : ∀ x : Fin 4, UInt8.ofNat x &&& 3 = UInt8.ofNat x := by decide
  simpa only [UInt8.ofNat_toNat] using h ⟨item.tag.toNat, item.tag_lt⟩

/-- **Adding tags to a byte one by one packs them.** -/
theorem packChunks_eq (items : List SizeItem) : packChunks items = packTags items := by
  fun_induction packTags items with
  | case1 => simp [packChunks, chunks_nil]
  | case2 a => simp [packChunks, chunks_cons, chunks_nil, addTag, packGroup, tag_and_three]
  | case3 a b => simp [packChunks, chunks_cons, chunks_nil, addTag, packGroup, tag_and_three]
  | case4 a b c => simp [packChunks, chunks_cons, chunks_nil, addTag, packGroup, tag_and_three]
  | case5 a b c d rest ih =>
      rw [← ih]
      simp [packChunks, chunks_cons, addTag, packGroup, tag_and_three]

end SizeItem

namespace Decode

/-- Adds a tag to those that there are, if these are fewer than `n`. -/
def pushTag (n : Nat) (tags : List UInt8) (t : UInt8) : List UInt8 :=
  if tags.length < n then tags ++ [t] else tags

/-- Adds the tags of a byte to those that there are, up to `n` in all. -/
def pushTags (n : Nat) (b : UInt8) (tags : List UInt8) : List UInt8 :=
  (List.range 4).foldl (fun tags j => pushTag n tags (b >>> UInt8.ofNat (2 * j) &&& 3)) tags

/-- Reads the tags of `n` items in a loop over the bytes they are in. -/
def tagLoop (n : Nat) : Reader (List UInt8) :=
  (List.range ((n + 3) / 4)).foldlM (fun tags _ => return pushTags n (← tag) tags) []

theorem foldl_pushTag (n : Nat) (tags ts : List UInt8) :
    ts.foldl (pushTag n) tags = tags ++ ts.take (n - tags.length) := by
  induction ts generalizing tags with
  | nil => simp
  | cons t ts ih =>
      rw [List.foldl_cons, ih]
      by_cases hlt : tags.length < n
      · have hleft : n - tags.length = (n - (tags.length + 1)) + 1 := by omega
        rw [pushTag, if_pos hlt, List.length_append, List.length_singleton, hleft,
          List.take_succ_cons, List.append_assoc]
        rfl
      · rw [pushTag, if_neg hlt, Nat.sub_eq_zero_of_le (Nat.le_of_not_lt hlt)]
        rfl

/-- The inner loop adds as many tags of its byte as are wanted. -/
theorem pushTags_eq (n : Nat) (b : UInt8) (tags : List UInt8) :
    pushTags n b tags = tags ++ (unpackGroup b).take (n - tags.length) := by
  have hslots : (List.range 4).map (fun j => b >>> UInt8.ofNat (2 * j) &&& 3) = unpackGroup b := by
    simp [List.range_succ, unpackGroup]
  rw [pushTags, ← List.foldl_map, hslots, foldl_pushTag]

/-- What is left of the outer loop when `m` tags are still wanted. -/
theorem foldlM_pushTags (n : Nat) {m : Nat} {turns : List Nat} {tags : List UInt8}
    (hturns : turns.length = (m + 3) / 4) (htags : tags.length + m = n) :
    turns.foldlM (fun tags _ => return pushTags n (← tag) tags) tags =
      ((tags ++ ·) <$> sizeTags m : Reader (List UInt8)) := by
  induction turns generalizing m tags with
  | nil =>
      have hm : m = 0 := by
        rw [List.length_nil] at hturns
        omega
      rw [hm, sizeTags, if_pos rfl]
      simp
  | cons turn turns ih =>
      rw [List.length_cons] at hturns
      have hm : m ≠ 0 := by omega
      rw [sizeTags, if_neg hm, List.foldlM_cons]
      simp only [bind_assoc, pure_bind, map_eq_pure_bind]
      refine bind_congr fun b => ?_
      have hlength : (unpackGroup b).length = 4 := rfl
      rw [pushTags_eq, show n - tags.length = m by omega, ih (m := m - 4) (by omega)]
      · simp only [map_eq_pure_bind, List.append_assoc]
      · rw [List.length_append, List.length_take, hlength]
        omega

/-- **Counting tags in a loop reads what the recursion reads.** -/
theorem tagLoop_eq (n : Nat) : tagLoop n = sizeTags n := by
  rw [tagLoop, foldlM_pushTags n List.length_range (Nat.zero_add n)]
  simp

end Decode

/-! ### Margins

A place is noted before the margins go on and again where they end, and the count of margins is only
looked at behind the loop.  The first note is always overwritten, so the place that a wrong count is
reported at is the one of the token that ends the margins. -/

namespace Literal

open WidgetLayout.Compile

variable {σ : Type} [TokenSource σ]

/-- Where the source stands. -/
def position : Compile σ Position := fun run => .ok (TokenSource.position run.source) run

/-- Takes values up to a semicolon, or until there are four, with the place of the semicolon. -/
def gather (values : List UInt32) (place : Position) : Compile σ (List UInt32 × Position) := do
  if values.length < 4 then
    let t ← expect
    if t.kind = .semicolon then return (values, t.position)
    else if t.kind = .comma then
      let v ← integer
      gather (values ++ [v]) place
    else throw (.unexpectedToken t.position .comma t.text)
  else return (values, place)
termination_by 4 - values.length
decreasing_by
  rw [List.length_append, List.length_singleton]
  omega

/-- Takes the semicolon behind four values; fewer have taken theirs already. -/
def close (values : List UInt32) (place : Position) : Compile σ Position := do
  if values.length = 4 then
    match ← peek with
    | some t =>
      if t.kind = .comma then throw (.invalidValue t.position .marginCount)
      else return (← accept .semicolon).position
    | none => return (← accept .semicolon).position
  else return place

/-- Margins that were gathered, with a wrong count reported at a place. -/
def settle (values : List UInt32) (place : Position) : Compile σ Margins := do
  let place ← close values place
  match Margins.broadcast? values with
  | some m => return m
  | none => throw (.invalidValue place .marginCount)

/-- Margins, by a loop that notes a place. -/
def markedMargins : Compile σ Margins := do
  match ← peek with
  | some t =>
    if t.kind = .semicolon then throw (.invalidValue t.position .marginCount)
  | none => pure ()
  let v ← integer
  let place ← position
  let state ← gather [v] place
  settle state.1 state.2

/-- With fewer than four values the place is that of their semicolon, which has been taken. -/
theorem settle_of_ne {values : List UInt32} (h : values.length ≠ 4) (t : Token) :
    (settle values t.position : Compile σ Margins) = broadcast values t := by
  rw [settle, close, if_neg h, pure_bind]
  rfl

/-- With four values the semicolon is still to come, and no place noted before matters. -/
theorem settle_of_eq {values : List UInt32} (h : values.length = 4) (place : Position) :
    (settle values place : Compile σ Margins) = moreMargins values 0 := by
  rw [settle, close, if_pos h, moreMargins, bind_assoc]
  refine bind_congr fun t? => ?_
  cases t? with
  | none =>
      simp only [bind_assoc, pure_bind]
      rfl
  | some t =>
      dsimp only
      split
      · rfl
      · simp only [bind_assoc, pure_bind]
        rfl

/-- What is left of the loop when `n` more values may follow. -/
theorem gather_settle {values : List UInt32} {n : Nat} (h : values.length + n = 4)
    (place : Position) :
    (gather values place >>= fun state => settle state.1 state.2 : Compile σ Margins) =
      moreMargins values n := by
  induction n generalizing values with
  | zero =>
      rw [gather, if_neg (by omega), pure_bind]
      exact settle_of_eq h place
  | succ n ih =>
      rw [gather, if_pos (by omega), moreMargins, bind_assoc]
      refine bind_congr fun t => ?_
      by_cases hsemicolon : t.kind = .semicolon
      · rw [if_pos hsemicolon, if_pos hsemicolon, pure_bind]
        have hfew : values.length ≠ 4 := by omega
        exact settle_of_ne hfew t
      · rw [if_neg hsemicolon, if_neg hsemicolon]
        by_cases hcomma : t.kind = .comma
        · rw [if_pos hcomma, if_pos hcomma, bind_assoc]
          refine bind_congr fun v => ih ?_
          rw [List.length_append, List.length_singleton]
          omega
        · rw [if_neg hcomma, if_neg hcomma]
          rfl

/-- **Margins that note a place on the way are margins.**  Whatever place is noted first, it is not
seen. -/
theorem markedMargins_eq : (markedMargins : Compile σ Margins) = margins := by
  have hloop : ∀ v, (do
      let place ← position
      let state ← gather [v] place
      settle state.1 state.2 : Compile σ Margins) = moreMargins [v] 3 := by
    intro v
    funext run
    have hlength : [v].length + 3 = 4 := rfl
    exact congrFun (gather_settle hlength (TokenSource.position run.source)) run
  unfold markedMargins margins
  refine bind_congr fun t? => ?_
  cases t? with
  | none => exact bind_congr hloop
  | some t =>
      dsimp only
      split
      · rfl
      · exact bind_congr hloop

end Literal

/-! ### Writing in pieces

What a sink has room for is told by what it holds, so the second of two writes finds just the room
that the first one left; and a write that does not fit ends the run, so that nothing comes behind
it. -/

namespace Sink

variable {s : Sink}

theorem room_le (s : Sink) (n : Nat) : s.room n ≤ n := by
  unfold room
  split <;> omega

/-- A sink with room for the first of two writes has for both what it then has for the second. -/
theorem room_add_of_eq {bs : List UInt8} (h : s.room bs.length = bs.length) (n : Nat) :
    s.room (bs.length + n) = bs.length + (s.write bs).2.room n := by
  have hsize : (s.write bs).2.bytes.size = s.bytes.size + bs.length := by
    rw [write, h, List.take_length, ← Array.length_toList, Array.toList_appendList,
      List.length_append, Array.length_toList]
  have hcapacity : (s.write bs).2.capacity = s.capacity := rfl
  unfold room at h ⊢
  rw [hsize, hcapacity]
  cases hs : s.capacity with
  | none => rfl
  | some c =>
      rw [hs] at h
      dsimp only at h ⊢
      omega

/-- A sink without room for the first of two writes takes nothing of the second. -/
theorem room_add_of_ne {m : Nat} (h : s.room m ≠ m) (n : Nat) : s.room (m + n) = s.room m := by
  unfold room at h ⊢
  cases hs : s.capacity with
  | none => simp [hs] at h
  | some c =>
      rw [hs] at h
      dsimp only at h ⊢
      omega

/-- Bytes are written part by part until a part does not fit. -/
theorem write_append (s : Sink) (bs cs : List UInt8) :
    s.write (bs ++ cs) = if (s.write bs).1 then (s.write bs).2.write cs else s.write bs := by
  by_cases h : s.room bs.length = bs.length
  · have hfirst : s.write bs = (true, { s with bytes := s.bytes ++ bs }) := by
      simp [write, h]
    have hroom := room_add_of_eq h cs.length
    have hbytes : ∀ n, s.bytes ++ (bs ++ cs).take (bs.length + n) = s.bytes ++ bs ++ cs.take n := by
      intro n
      apply Array.toList_inj.mp
      simp only [Array.toList_appendList, List.take_length_add_append, List.append_assoc]
    rw [hfirst] at hroom ⊢
    rw [if_pos rfl]
    simp [write, hroom, hbytes]
  · have hlt := Nat.lt_of_le_of_ne (s.room_le bs.length) h
    have hroom := room_add_of_ne h cs.length
    have hflag : (s.write bs).1 = false := by simp [write, h]
    have hboth : s.room bs.length ≠ bs.length + cs.length := by omega
    rw [hflag, if_neg Bool.false_ne_true]
    simp [write, hroom, List.take_append_of_le_length (Nat.le_of_lt hlt), h, hboth]

end Sink

namespace Compile

variable {σ : Type}

theorem write_nil : (write [] : Compile σ Unit) = pure () := by
  funext run
  have hroom : run.sink.room 0 = 0 := Nat.le_zero.mp (run.sink.room_le 0)
  simp [write, Sink.write, hroom, pure, EStateM.pure]

/-- **Writing bytes one part after the other is writing them at once**, also where they do not
fit. -/
theorem write_append (bs cs : List UInt8) :
    (write (bs ++ cs) : Compile σ Unit) = write bs >>= fun _ => write cs := by
  funext run
  show write (bs ++ cs) run = EStateM.bind (write bs) (fun _ => write cs) run
  unfold EStateM.bind
  cases hflag : (run.sink.write bs).1 with
  | true => simp only [write, Sink.write_append, hflag, if_true]
  | false => simp [write, Sink.write_append, hflag]

/-- Writing in pieces is writing the pieces in one. -/
theorem forM_write (pieces : List (List UInt8)) :
    (pieces.forM write : Compile σ Unit) = write pieces.flatten := by
  induction pieces with
  | nil => exact write_nil.symm
  | cons piece pieces ih =>
      rw [List.flatten_cons, write_append, ← ih]
      rfl

end Compile

/-- The pieces in which a value is written: a count before what it counts, and the numbers one by
one. -/
def Value.pieces : Value → List (List UInt8)
  | .string text =>
    let bytes := Text.Utf8.encode text.toList
    [Wire.count bytes.length, bytes]
  | .margins m => m.toList.map Wire.varint
  | .sizeList items =>
    Wire.count items.length :: SizeItem.packTags items :: items.map SizeItem.payload
  | v => [v.encode]

theorem Value.flatten_pieces (v : Value) : v.pieces.flatten = v.encode := by
  cases v with
  | string text => simp [pieces, encode, Wire.string]
  | margins m => simp [pieces, encode, List.flatMap]
  | sizeList items => simp [pieces, encode, List.flatMap]
  | integer | number | enumeration | boolean | resource => simp [pieces]

/-- **A value may be written in its pieces.** -/
theorem Literal.writeValue_eq_forM {σ : Type} (v : Value) :
    (writeValue v : Compile σ Unit) =
      if v.Fits then v.pieces.forM Compile.write else throw (.output (lengthFault v)) := by
  rw [Compile.forM_write, v.flatten_pieces, writeValue]

end WidgetLayout
