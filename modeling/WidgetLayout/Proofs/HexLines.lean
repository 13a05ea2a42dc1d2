/-
Lines of hexadecimal digits lose nothing.

A listing is read here without knowing how it was made: it is split at line ends, a line is split at
blanks, and a field is a number to base sixteen.  The listing itself is made by taking sixteen bytes
at a time; `linesFrom_eq` says which bytes stand in which line, counted from the first, and
`flatMap_chunk` that these are all bytes.  No field has a blank or a line end in it, so splitting
gives the fields and the lines back as they were joined.
-/
import WidgetLayout.Widget.Listing

namespace WidgetLayout.HexListing

/-! ### Reading a listing

This reader knows the format only, and not how it is written: it cuts a text at line ends and
lines at blanks, and takes pairs of digits for bytes. -/

/-- The digits to base sixteen. -/
def digits : List Char := "0123456789abcdef".toList

/-- What a digit counts. -/
def digitValue (c : Char) : Option Nat := digits.idxOf? c

/-- The number that digits stand for. -/
def readNumber (cs : List Char) : Option Nat :=
  cs.foldlM (fun n c => (digitValue c).map (16 * n + ·)) 0

/-- The byte that two digits stand for. -/
def readGroup (cs : List Char) : Option UInt8 :=
  if cs.length = 2 then (readNumber cs).map UInt8.ofNat else none

/-- The bytes of a line, whose fields are parted by blanks: an offset, nothing, and a group for each
byte. -/
def readLine (line : List Char) : Option (List UInt8) :=
  match line.splitOn ' ' with
  | _ :: [] :: groups => groups.mapM readGroup
  | _ => none

/-- The lines of a text; what stands behind the last line end is a line unless it is empty. -/
def linesOf (text : String) : List (List Char) :=
  let pieces := text.toList.splitOn '\n'
  if pieces.getLast? = some [] then pieces.dropLast else pieces

/-- The bytes of all lines of a text, one line after the other. -/
def readText (text : String) : Option (List UInt8) :=
  ((linesOf text).mapM readLine).map List.flatten

/-! ### Numbers -/

theorem digitValue_digitChar {d : Nat} (hd : d < 16) : digitValue (Nat.digitChar d) = some d := by
  have h : ∀ d : Fin 16, digitValue (Nat.digitChar d) = some d.val := by decide
  exact h ⟨d, hd⟩

theorem readNumber_nil : readNumber [] = some 0 := rfl

theorem readNumber_concat {cs : List Char} {n d : Nat} (hcs : readNumber cs = some n)
    (hd : d < 16) : readNumber (cs ++ [Nat.digitChar d]) = some (16 * n + d) := by
  unfold readNumber at hcs ⊢
  rw [List.foldlM_append, hcs]
  simp [digitValue_digitChar hd]

theorem readNumber_toDigits (n : Nat) : readNumber (Nat.toDigits 16 n) = some n := by
  induction n using Nat.strongRecOn with
  | ind n ih =>
      rw [Nat.toDigits_eq_if (by decide)]
      split
      · rename_i hlt
        simpa using readNumber_concat readNumber_nil hlt
      · rename_i hge
        rw [readNumber_concat (ih (n / 16) (by omega)) (Nat.mod_lt n (by decide))]
        congr 1
        omega

/-- Zeros in front change nothing. -/
theorem readNumber_zeros (k : Nat) (cs : List Char) :
    readNumber (List.replicate k '0' ++ cs) = readNumber cs := by
  induction k with
  | zero => rfl
  | succ k ih =>
      rw [← ih]
      rfl

theorem readNumber_hexNumber (n : Nat) : readNumber (hexNumber n).toList = some n := by
  rw [hexNumber, String.toList_ofList, readNumber_zeros, readNumber_toDigits]

theorem length_hexNumber (n : Nat) : 8 ≤ (hexNumber n).toList.length := by
  rw [hexNumber, String.toList_ofList, List.length_append, List.length_replicate]
  omega

theorem readGroup_hexByte (b : UInt8) : readGroup (hexByte b).toList = some b := by
  have hb := b.toNat_lt
  have hnumber : readNumber [Nat.digitChar (b.toNat / 16), Nat.digitChar (b.toNat % 16)] =
      some (16 * (b.toNat / 16) + b.toNat % 16) := by
    have hhigh := readNumber_concat readNumber_nil (show b.toNat / 16 < 16 by omega)
    simpa using readNumber_concat hhigh (Nat.mod_lt b.toNat (by decide))
  rw [Nat.div_add_mod] at hnumber
  simp [readGroup, hexByte, hnumber]

/-- What is no digit stands in no number. -/
theorem not_mem_of_readNumber {cs : List Char} {n : Nat} (h : readNumber cs = some n) {c : Char}
    (hc : digitValue c = none) : c ∉ cs := by
  unfold readNumber at h
  generalize 0 = start at h
  induction cs generalizing start with
  | nil => simp
  | cons d cs ih =>
      obtain ⟨next, hnext, hrest⟩ := Option.bind_eq_some_iff.mp h
      rw [List.mem_cons, not_or]
      refine ⟨?_, ih next hrest⟩
      rintro rfl
      simp [hc] at hnext

theorem not_mem_hexNumber (n : Nat) {c : Char} (hc : digitValue c = none) :
    c ∉ (hexNumber n).toList :=
  not_mem_of_readNumber (readNumber_hexNumber n) hc

theorem not_mem_hexByte (b : UInt8) {c : Char} (hc : digitValue c = none) :
    c ∉ (hexByte b).toList := by
  have hread := readGroup_hexByte b
  unfold readGroup at hread
  split at hread
  · obtain ⟨n, hn, -⟩ := Option.map_eq_some_iff.mp hread
    exact not_mem_of_readNumber hn hc
  · cases hread

/-! ### A line -/

/-- The fields of a line. -/
def fields (offset : Nat) (bytes : List UInt8) : List (List Char) :=
  (hexNumber offset).toList :: [] :: bytes.map fun b => (hexByte b).toList

/-- A line without its end. -/
def body (offset : Nat) (bytes : List UInt8) : List Char :=
  (hexNumber offset).toList ++
    ' ' :: ' ' :: [' '].intercalate (bytes.map fun b => (hexByte b).toList)

theorem toList_line (offset : Nat) (bytes : List UInt8) :
    (line offset bytes).toList = body offset bytes ++ ['\n'] := by
  simp [line, body, String.toList_intercalate, Function.comp_def]

theorem not_mem_fields {c : Char} (hc : digitValue c = none) (offset : Nat) (bytes : List UInt8) :
    ∀ field ∈ fields offset bytes, c ∉ field := by
  intro field hfield
  simp only [fields, List.mem_cons, List.mem_map] at hfield
  rcases hfield with rfl | rfl | ⟨b, -, rfl⟩
  · exact not_mem_hexNumber offset hc
  · exact List.not_mem_nil
  · exact not_mem_hexByte b hc

theorem not_mem_intercalate {c : Char} {separator : List Char} {texts : List (List Char)}
    (hc : c ∉ separator) (htexts : ∀ text ∈ texts, c ∉ text) : c ∉ separator.intercalate texts := by
  induction texts with
  | nil => simp
  | cons text texts ih =>
      obtain ⟨htext, hrest⟩ := List.forall_mem_cons.mp htexts
      cases texts with
      | nil => simpa using htext
      | cons next texts =>
          rw [List.intercalate_cons_cons]
          simpa [htext, hc] using ih hrest

/-- A line with bytes is its fields with blanks between them. -/
theorem body_eq_intercalate (offset : Nat) {bytes : List UInt8} (hne : bytes ≠ []) :
    body offset bytes = [' '].intercalate (fields offset bytes) := by
  obtain ⟨b, rest, rfl⟩ := List.exists_cons_of_ne_nil hne
  simp [body, fields]

theorem splitOn_body (offset : Nat) {bytes : List UInt8} (hne : bytes ≠ []) :
    (body offset bytes).splitOn ' ' = fields offset bytes := by
  rw [body_eq_intercalate offset hne]
  exact List.splitOn_intercalate ' ' (not_mem_fields (by decide) offset bytes)
    (List.cons_ne_nil _ _)

/-- What is written item by item is read item by item. -/
theorem mapM_map_eq_some {α β γ : Type} {write : α → β} {read : β → Option γ}
    {result : α → γ} {l : List α} (h : ∀ a ∈ l, read (write a) = some (result a)) :
    (l.map write).mapM read = some (l.map result) := by
  induction l with
  | nil => rfl
  | cons a l ih =>
      obtain ⟨ha, hl⟩ := List.forall_mem_cons.mp h
      simp [ha, ih hl]

theorem readLine_body (offset : Nat) {bytes : List UInt8} (hne : bytes ≠ []) :
    readLine (body offset bytes) = some bytes := by
  rw [readLine, splitOn_body offset hne]
  have hgroups : (bytes.map fun b => (hexByte b).toList).mapM readGroup = some (bytes.map id) :=
    mapM_map_eq_some fun b _ => readGroup_hexByte b
  rwa [List.map_id] at hgroups

theorem newline_not_mem_body (offset : Nat) {bytes : List UInt8} (hne : bytes ≠ []) :
    '\n' ∉ body offset bytes := by
  rw [body_eq_intercalate offset hne]
  exact not_mem_intercalate (by decide) (not_mem_fields (by decide) offset bytes)

/-! ### Sixteen bytes to a line

Lines are numbered, and the number of a line says which bytes it has; only the last one may be
short. -/

/-- The bytes of the line with a number. -/
def chunk (bytes : List UInt8) (i : Nat) : List UInt8 := (bytes.drop (16 * i)).take 16

theorem linesFrom_eq (offset : Nat) (bytes : List UInt8) :
    linesFrom offset bytes =
      (List.range ((bytes.length + 15) / 16)).map fun i =>
        line (offset + 16 * i) (chunk bytes i) := by
  fun_induction linesFrom offset bytes with
  | case1 offset => rfl
  | case2 offset b rest ih =>
      have hcount : ((b :: rest).length + 15) / 16 = ((rest.drop 15).length + 15) / 16 + 1 := by
        rw [List.length_cons, List.length_drop]
        omega
      have hfirst : chunk (b :: rest) 0 = b :: rest.take 15 := by simp [chunk]
      have hchunk : ∀ i, chunk (rest.drop 15) i = chunk (b :: rest) (i + 1) := by
        intro i
        rw [chunk, chunk, List.drop_drop, show 16 * (i + 1) = 15 + 16 * i + 1 by omega,
          List.drop_succ_cons]
      have hoffset : ∀ i, offset + 16 + 16 * i = offset + 16 * (i + 1) := fun i => by omega
      rw [ih, hcount, List.range_succ_eq_map, List.map_cons, List.map_map, hfirst]
      simp only [hchunk, hoffset, Function.comp_def, Nat.mul_zero, Nat.add_zero]

/-- The bytes of the first lines are the first bytes. -/
theorem flatMap_chunk (bytes : List UInt8) (k : Nat) :
    (List.range k).flatMap (chunk bytes) = bytes.take (16 * k) := by
  induction k with
  | zero => rfl
  | succ k ih =>
      rw [List.range_succ, List.flatMap_append, ih, List.flatMap_singleton, chunk, ← List.take_add,
        Nat.mul_succ]

theorem length_chunk (bytes : List UInt8) (i : Nat) :
    (chunk bytes i).length = min 16 (bytes.length - 16 * i) := by
  rw [chunk, List.length_take, List.length_drop]

theorem chunk_ne_nil {bytes : List UInt8} {i : Nat} (hi : i < (bytes.length + 15) / 16) :
    chunk bytes i ≠ [] := by
  rw [← List.length_pos_iff, length_chunk]
  omega

/-! ### A whole listing -/

/-- Lines are found again by their ends. -/
theorem linesOf_eq {text : String} {lines : List (List Char)}
    (htext : text.toList = lines.flatMap (· ++ ['\n'])) (hlines : ∀ line ∈ lines, '\n' ∉ line) :
    linesOf text = lines := by
  have hjoined : ∀ lines : List (List Char),
      lines.flatMap (· ++ ['\n']) = ['\n'].intercalate (lines ++ [[]]) := by
    intro lines
    induction lines with
    | nil => rfl
    | cons line lines ih =>
        cases lines with
        | nil => simp
        | cons next lines => rw [List.flatMap_cons, ih]; simp
  have hpieces : text.toList.splitOn '\n' = lines ++ [[]] := by
    rw [htext, hjoined]
    refine List.splitOn_intercalate '\n' (fun line hline => ?_) (by simp)
    rcases List.mem_append.mp hline with hline | hline
    · exact hlines line hline
    · rw [List.mem_singleton.mp hline]
      exact List.not_mem_nil
  simp [linesOf, hpieces]

theorem linesOf_render (bytes : List UInt8) :
    linesOf (render bytes) =
      (List.range ((bytes.length + 15) / 16)).map fun i => body (16 * i) (chunk bytes i) := by
  apply linesOf_eq
  · simp only [render, String.toList_join, linesFrom_eq, List.flatMap_map,
      toList_line, Nat.zero_add]
  · intro line hline
    obtain ⟨i, hi, rfl⟩ := List.mem_map.mp hline
    exact newline_not_mem_body (16 * i) (chunk_ne_nil (List.mem_range.mp hi))

/-- **A listing has a line for every sixteen bytes, and all bytes are read back from it.**  A line
begins with the offset of its first byte, in eight digits or more, and two blanks; all lines but the
last have sixteen bytes. -/
theorem render_loses_nothing (bytes : List UInt8) :
    let lines := linesOf (render bytes)
    lines.length = (bytes.length + 15) / 16 ∧
      (∀ i line, lines[i]? = some line →
        ∃ offset groups bs, line = offset ++ ' ' :: ' ' :: groups ∧ 8 ≤ offset.length ∧
          readNumber offset = some (16 * i) ∧ readLine line = some bs ∧ 1 ≤ bs.length ∧
          bs.length ≤ 16 ∧
          (i + 1 < lines.length → bs.length = 16)) ∧
      readText (render bytes) = some bytes := by
  intro lines
  have hlines : lines = _ := linesOf_render bytes
  have hcount : lines.length = (bytes.length + 15) / 16 := by
    rw [hlines, List.length_map, List.length_range]
  have hread : ∀ i, i < (bytes.length + 15) / 16 →
      readLine (body (16 * i) (chunk bytes i)) = some (chunk bytes i) := fun i hi =>
    readLine_body (16 * i) (chunk_ne_nil hi)
  refine ⟨hcount, ?_, ?_⟩
  · intro i line hline
    obtain ⟨hi, hget⟩ := List.getElem?_eq_some_iff.mp hline
    have hline : line = body (16 * i) (chunk bytes i) := by
      rw [← hget]
      simp [hlines]
    rw [hcount] at hi ⊢
    have hlength := length_chunk bytes i
    refine ⟨_, _, chunk bytes i, hline, length_hexNumber (16 * i),
      readNumber_hexNumber (16 * i), ?_, ?_⟩
    · rw [hline]
      exact hread i hi
    · omega
  · have hchunks :
        lines.mapM readLine = some ((List.range ((bytes.length + 15) / 16)).map (chunk bytes)) := by
      rw [hlines]
      exact mapM_map_eq_some fun i hi => hread i (List.mem_range.mp hi)
    rw [readText, hchunks, Option.map_some, ← List.flatMap_def, flatMap_chunk,
      List.take_of_length_le (by omega)]

/-- Seventeen bytes make two lines, the second with one byte. -/
theorem render_loses_nothing_seventeen :
    let bytes := List.replicate 16 0x2a ++ [0xff]
    render bytes = "00000000  2a 2a 2a 2a 2a 2a 2a 2a 2a 2a 2a 2a 2a 2a 2a 2a\n00000010  ff\n" ∧
      (linesOf (render bytes)).length = 2 ∧ readText (render bytes) = some bytes ∧
      ∃ line offset groups bs, (linesOf (render bytes))[1]? = some line ∧
      line = offset ++ ' ' :: ' ' :: groups ∧
        readNumber offset = some 16 ∧ readLine line = some bs := by
  intro bytes
  obtain ⟨hcount, hlines, hread⟩ := render_loses_nothing bytes
  have htext : render bytes =
      "00000000  2a 2a 2a 2a 2a 2a 2a 2a 2a 2a 2a 2a 2a 2a 2a 2a\n00000010  ff\n" := by
    rw [render, linesFrom_eq]
    decide +kernel
  have htwo : (linesOf (render bytes)).length = 2 := hcount.trans (by simp [bytes])
  have hone : (linesOf (render bytes))[1]? = some (linesOf (render bytes))[1] :=
    List.getElem?_eq_getElem _
  obtain ⟨offset, groups, bs, hline, -, hoffset, hbytes, -⟩ := hlines 1 _ hone
  exact ⟨htext, htwo, hread, _, offset, groups, bs, hone, hline, hoffset, hbytes⟩

end WidgetLayout.HexListing
