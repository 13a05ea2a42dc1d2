/-
Faults in bytes are local, and they are reported where they are.

A reader sees only the bytes that it takes.  What it comes to is therefore settled by these bytes,
whatever follows them, unless they end before it is done: then it has taken all that there are.
`Local` says so of a reader, with what a failure tells about the bytes read since the beginning of
the document.  It is kept by sequences and by iteration, so it is shown of the readers of wire forms
first and then of everything that decodes.

An offset in a fault is computed when the fault has been noticed, from how far the cursor has come.
That it points at the right byte is part of `Local`: `DecodeFault.Blames` says of a fault which
bytes were read last.
-/
import WidgetLayout.Proofs.Decoding

namespace WidgetLayout

open WidgetLayout.Progress

/-- The data ended before the value did. -/
def Wire.ReadFault.isEnd : Wire.ReadFault → Bool
  | .endOfData | .truncatedString => true
  | .varintTooLarge | .varintTooLong => false

namespace Wire

variable {ε α β : Type}

/-- What failures tell about the bytes read until then, from the first one of the document on. -/
structure Complaint (ε : Type) where
  /-- The reader refused what it read last. -/
  Refuses : List UInt8 → ε → Prop
  /-- The reader needed more bytes than there were. -/
  Lacks : List UInt8 → ε → Prop

variable {C : Complaint ε} {m : Reader ε α} {read rest : List UInt8}

/-- What reading comes to where `read` lies behind the cursor and `rest` ahead of it. -/
inductive Settled (C : Complaint ε) (m : Reader ε α) (read rest : List UInt8) :
    EStateM.Result ε Cursor α → Prop
  | ok {a : α} {q r : List UInt8} (hrest : rest = q ++ r)
      (h : ∀ r', m ⟨read.length, q ++ r'⟩ = .ok a ⟨(read ++ q).length, r'⟩) :
      Settled C m read rest (.ok a ⟨(read ++ q).length, r⟩)
  | refused {e : ε} {q r : List UInt8} (hrest : rest = q ++ r) (he : C.Refuses (read ++ q) e)
      (h : ∀ r', m ⟨read.length, q ++ r'⟩ = .error e ⟨(read ++ q).length, r'⟩) :
      Settled C m read rest (.error e ⟨(read ++ q).length, r⟩)
  | lacking {e : ε} (he : C.Lacks (read ++ rest) e) :
      Settled C m read rest (.error e ⟨(read ++ rest).length, []⟩)

/-- The bytes ahead settle what the reader comes to. -/
def Settles (C : Complaint ε) (m : Reader ε α) (read rest : List UInt8) : Prop :=
  Settled C m read rest (m ⟨read.length, rest⟩)

/-- Behind the bytes `read`, whatever lies ahead settles what the reader comes to. -/
def Local (C : Complaint ε) (m : Reader ε α) (read : List UInt8) : Prop :=
  ∀ rest, Settles C m read rest

/-! ### Sequences and loops

What a reader comes to is settled by the bytes that it has seen, and the next reader sees only
what it has left. -/

theorem local_pure (a : α) : Local C (pure a) read := by
  intro rest
  have h :
      ∀ r', (pure a : Reader ε α) ⟨read.length, [] ++ r'⟩ = .ok a ⟨(read ++ []).length, r'⟩ := by
    simp [pure, EStateM.pure]
  have hsettled : Settled C (pure a) read rest _ := .ok rfl h
  rwa [← h rest] at hsettled

/-- A failure that looks at nothing but the cursor. -/
theorem local_of_error {e : ε} (hm : ∀ rest, m ⟨read.length, rest⟩ = .error e ⟨read.length, rest⟩)
    (he : C.Refuses read e) : Local C m read := by
  intro rest
  have h : ∀ r', m ⟨read.length, [] ++ r'⟩ = .error e ⟨(read ++ []).length, r'⟩ := by
    simpa using hm
  have hsettled : Settled C m read rest _ := .refused rfl (by simpa using he) h
  rwa [← h rest] at hsettled

theorem local_throw {e : ε} (he : C.Refuses read e) : Local C (throw e : Reader ε α) read :=
  local_of_error (fun _ => rfl) he

theorem Settles.bind {f : α → Reader ε β} (hm : Settles C m read rest)
    (hf : ∀ a q r, rest = q ++ r →
      (∀ r', m ⟨read.length, q ++ r'⟩ = .ok a ⟨(read ++ q).length, r'⟩) →
      Settles C (f a) (read ++ q) r) :
    Settles C (m >>= f) read rest := by
  unfold Settles at hm ⊢
  generalize hresult : m ⟨read.length, rest⟩ = result at hm
  cases hm with
  | @ok a q r hrest h =>
      have hfa := hf a q r hrest h
      unfold Settles at hfa
      rw [bind_of_ok hresult]
      generalize f a ⟨(read ++ q).length, r⟩ = result' at hfa
      cases hfa with
      | @ok b q' r' hrest' h' =>
          rw [List.append_assoc]
          refine .ok (by rw [hrest, hrest', List.append_assoc]) fun r'' => ?_
          rw [List.append_assoc, bind_of_ok (h _), h', List.append_assoc]
      | @refused e q' r' hrest' he h' =>
          rw [List.append_assoc] at he ⊢
          refine .refused (by rw [hrest, hrest', List.append_assoc]) he fun r'' => ?_
          rw [List.append_assoc, bind_of_ok (h _), h', List.append_assoc]
      | lacking he =>
          rw [List.append_assoc, ← hrest] at he ⊢
          exact .lacking he
  | refused hrest he h =>
      rw [bind_of_error hresult]
      exact .refused hrest he fun r' => bind_of_error (h r')
  | lacking he =>
      rw [bind_of_error hresult]
      exact .lacking he

theorem Local.bind {f : α → Reader ε β} (hm : Local C m read)
    (hf : ∀ a q, Local C (f a) (read ++ q)) : Local C (m >>= f) read :=
  fun rest => (hm rest).bind fun a q r _ _ => hf a q r

theorem Local.map (hm : Local C m read) (f : α → β) : Local C (f <$> m) read :=
  hm.bind fun a _ => local_pure (f a)

theorem Local.ite {c : Prop} [Decidable c] {m' : Reader ε α} (hm : c → Local C m read)
    (hm' : ¬ c → Local C m' read) : Local C (if c then m else m') read := by
  by_cases hc : c
  · rw [if_pos hc]
    exact hm hc
  · rw [if_neg hc]
    exact hm' hc

theorem local_iterate [Measured Cursor] {step : β → Reader ε (β ⊕ α)}
    {hstep : ∀ b, Advances (step b)} (h : ∀ b read, Local C (step b) read) (b : β)
    (read : List UInt8) : Local C (iterate step hstep b) read := by
  intro rest
  -- the induction is on the rounds; every one of them begins behind more bytes
  generalize hc : (⟨read.length, rest⟩ : Cursor) = c
  induction b, c using iterateOn.induct step hstep generalizing read rest with
  | case1 b c e c' hs =>
      rw [iterate_eq_bind]
      refine (h b read rest).bind fun a q r hrest hok => ?_
      rw [← hc, hrest, hok r] at hs
      cases hs
  | case2 b c a c' hs =>
      rw [iterate_eq_bind]
      refine (h b read rest).bind fun a' q r hrest hok => ?_
      rw [← hc, hrest, hok r] at hs
      cases hs
      exact local_pure a r
  | case3 b c b' c' hs ih =>
      rw [iterate_eq_bind]
      refine (h b read rest).bind fun a' q r hrest hok => ?_
      rw [← hc, hrest, hok r] at hs
      cases hs
      exact ih (read ++ q) r rfl

/-- **What is cut off is missed where the data ends.**  Of a form that the reader takes, a beginning
that is not all of it is read to its end, and then the reader lacks the rest. -/
theorem Local.lacks {F : α → List UInt8 → Prop} (hm : Local C m read) (hF : Reads m F) {a : α}
    {cut missing : List UInt8} (hform : F a (cut ++ missing)) (hne : missing ≠ []) :
    ∃ e, C.Lacks (read ++ cut) e ∧ m ⟨read.length, cut⟩ = .error e ⟨(read ++ cut).length, []⟩ := by
  have hwhole := hF.ok_of_append hform read.length []
  rw [List.append_nil] at hwhole
  have hcut := hm cut
  unfold Settles at hcut
  generalize hresult : m ⟨read.length, cut⟩ = result at hcut
  cases hcut with
  | @ok b q r hrest h =>
      -- with all of the form the same bytes would be taken, and what is missing would be left over
      rw [hrest, List.append_assoc, h] at hwhole
      have hleft : r ++ missing = [] := congrArg (fun result => (left result).rest) hwhole
      exact absurd (List.append_eq_nil_iff.mp hleft).2 hne
  | @refused e q r hrest he h =>
      rw [hrest, List.append_assoc, h] at hwhole
      cases hwhole
  | lacking he => exact ⟨_, he, rfl⟩

/-! ### Wire forms -/

/-- Readers of wire forms say nothing of the bytes but whether they ended. -/
def complaint : Complaint ReadFault where
  Refuses _ fault := fault.isEnd = false
  Lacks _ fault := fault.isEnd = true

namespace Reader

theorem local_byte : Local complaint byte read := by
  intro rest
  cases rest with
  | nil =>
      have hlacking :
          Settled complaint byte read [] (.error .endOfData ⟨(read ++ []).length, []⟩) :=
        .lacking rfl
      rwa [List.append_nil] at hlacking
  | cons b rest =>
      have hok : Settled complaint byte read (b :: rest) (.ok b ⟨(read ++ [b]).length, rest⟩) :=
        .ok (q := [b]) rfl fun r' => by simp [byte]
      rwa [List.length_append] at hok

theorem local_varintGroups (n : Nat) :
    ∀ (value : Nat) (read : List UInt8), Local complaint (varintGroups value n) read := by
  induction n with
  | zero => exact fun _ _ => local_throw rfl
  | succ n ih =>
      intro value read
      exact local_byte.bind fun b q => .ite
        (fun _ => .ite (fun _ => local_pure _) fun _ => local_throw rfl) fun _ => ih _ _

theorem local_varint : Local complaint varint read := local_varintGroups 5 0 read

/-- If there are too few bytes, all of them are taken. -/
theorem bytes_of_short {n : Nat} {rest : List UInt8} (h : rest.length < n) (fault : ReadFault)
    (offset : Nat) : bytes n fault ⟨offset, rest⟩ = .error fault ⟨offset + rest.length, []⟩ := by
  have htake : rest.take n = rest := List.take_of_length_le (Nat.le_of_lt h)
  have hdrop : rest.drop n = [] := List.drop_of_length_le (Nat.le_of_lt h)
  simp only [bytes, Cursor.skip, htake, hdrop]
  rw [if_neg (Nat.ne_of_lt h)]

theorem local_bytes (n : Nat) {fault : ReadFault} (hfault : fault.isEnd) :
    Local complaint (bytes n fault) read := by
  intro rest
  by_cases hn : n ≤ rest.length
  · have hlength : (rest.take n).length = n := by
      rw [List.length_take]
      omega
    have h : ∀ r', bytes n fault ⟨read.length, rest.take n ++ r'⟩ =
        .ok (rest.take n) ⟨(read ++ rest.take n).length, r'⟩ := by
      intro r'
      have htake : (rest.take n ++ r').take n = rest.take n := by
        rw [List.take_append_of_le_length (by omega), List.take_of_length_le (by omega)]
      have hdrop : (rest.take n ++ r').drop n = r' := List.drop_left' hlength
      simp only [bytes, Cursor.skip, htake, hdrop, hlength, if_true, List.length_append]
    have hok := Settled.ok (C := complaint) (List.take_append_drop n rest).symm h
    rwa [← h, List.take_append_drop] at hok
  · unfold Settles
    rw [bytes_of_short (Nat.not_le.mp hn), ← List.length_append]
    exact .lacking hfault

theorem local_string : Local complaint string read :=
  local_varint.bind fun n _ => local_bytes n.toNat rfl

theorem local_single : Local complaint single read :=
  (local_bytes 4 rfl).bind fun _ _ => local_pure _

end Reader

end Wire

/-! ### Faults of documents

A fault names an offset.  `Blames` says what it tells about the bytes before that offset, which
can be held against the document then. -/

/-- What a fault says of the bytes read until it was noticed. -/
def DecodeFault.Blames (read : List UInt8) : DecodeFault → Prop
  | .unreadable _ offset fault => offset = read.length ∧ fault.isEnd = false
  | .unknownTag b offset | .badBoolean b offset =>
      ∃ before, read = before ++ [b] ∧ offset = before.length
  | .unknownProperty id offset =>
    ∃ before raw, read = before ++ [raw] ∧ raw &&& 0x7f = id ∧ offset = before.length
  | .notText offset _ | .emptySizeList offset => offset = read.length
  | .trailingBytes _ => False

namespace Decode

open WidgetLayout.Wire (Local local_pure local_throw local_of_error local_iterate)

/-- What the errors of a document tell about its bytes. -/
def complaint : Wire.Complaint Error where
  Refuses read e := (∃ fault : DecodeFault, e = .invalidFormat (.bytes fault) ∧ fault.Blames read) ∨
    e = .limitExceeded .decodedDepth maxDecodeDepth
  Lacks read e := ∃ part fault, fault.isEnd = true ∧
    e = .invalidFormat (.bytes (.unreadable part read.length fault))

variable {read : List UInt8}

/-- A fault of a wire form is reported where it left the cursor. -/
theorem read_apply {α : Type} (part : WirePart) (m : Wire.Reader Wire.ReadFault α)
    (c : Wire.Cursor) :
    Decode.read part m c =
      match m c with
      | .ok a c' => .ok a c'
      | .error fault c' =>
          .error (.invalidFormat (.bytes (.unreadable part c'.offset fault))) c' := rfl

theorem local_read {α : Type} {m : Wire.Reader Wire.ReadFault α} (part : WirePart)
    (h : Local Wire.complaint m read) : Local complaint (Decode.read part m) read := by
  intro rest
  have hrest := h rest
  unfold Wire.Settles at hrest ⊢
  rw [read_apply]
  generalize m ⟨read.length, rest⟩ = result at hrest
  cases hrest with
  | ok hrest h => exact .ok hrest fun r' => by rw [read_apply, h r']
  | refused hrest he h =>
      exact .refused hrest (.inl ⟨_, rfl, rfl, he⟩) fun r' => by rw [read_apply, h r']
  | lacking he => exact .lacking ⟨part, _, he, rfl⟩

theorem local_tag : Local complaint tag read := local_read _ Wire.Reader.local_byte

theorem local_varint : Local complaint varint read := local_read _ Wire.Reader.local_varint

theorem local_single : Local complaint single read := local_read _ Wire.Reader.local_single

/-- What follows the reading of a byte stands behind that byte. -/
theorem local_tag_bind {α : Type} {f : UInt8 → Reader α}
    (hf : ∀ b, Local complaint (f b) (read ++ [b])) : Local complaint (tag >>= f) read := by
  refine fun rest => (local_tag rest).bind fun b q r _ hok => ?_
  obtain ⟨_, rfl, hq, -⟩ := reads_tag.sound trivial (hok [])
  obtain rfl : q = [b] := by simpa [Wire.tape] using hq
  exact hf b r

/-- A refusal only tells how many bytes were read. -/
theorem local_refuse {α : Type} {f : Nat → DecodeFault} (hf : (f read.length).Blames read) :
    Local complaint (do refuse (f (← offset)) : Reader α) read :=
  local_of_error (fun _ => rfl) (.inl ⟨_, rfl, hf⟩)

/-! ### Values and properties -/

theorem local_text : Local complaint text read := by
  refine (local_read _ Wire.Reader.local_string).bind fun bytes q => ?_
  cases Text.Utf8.decode bytes with
  | ok cs => exact local_pure _
  | error fault => exact local_refuse (f := fun o => .notText o fault) rfl

theorem local_boolean : Local complaint boolean read :=
  local_tag_bind fun b => .ite (fun _ => local_pure _) fun _ =>
    .ite (fun _ => local_pure _) fun _ =>
    local_refuse (f := fun o => .badBoolean b (o - 1)) ⟨read, rfl, by simp⟩

theorem local_margins : Local complaint margins read :=
  local_varint.bind fun _ _ => local_varint.bind fun _ _ => local_varint.bind fun _ _ =>
    local_varint.bind fun _ _ => local_pure _

theorem local_sizeTags (n : Nat) : ∀ read, Local complaint (sizeTags n) read := by
  induction n using Nat.strongRecOn with
  | ind n ih =>
      intro read
      unfold sizeTags
      exact .ite (fun _ => local_pure _) fun _ =>
        local_tag.bind fun _ _ => (ih (n - 4) (by omega) _).bind fun _ _ => local_pure _

theorem local_sizeItem (t : UInt8) : Local complaint (sizeItem t) read :=
  .ite (fun _ => local_pure _) fun _ => .ite (fun _ => local_pure _) fun _ =>
    .ite (fun _ => local_varint.map _) fun _ => local_single.map _

theorem local_sizeItems (ts : List UInt8) : ∀ read, Local complaint (sizeItems ts) read := by
  induction ts with
  | nil => exact fun _ => local_pure _
  | cons t ts ih => exact fun _ => (local_sizeItem t).bind fun _ _ => (ih _).map _

theorem local_sizeList : Local complaint sizeList read :=
  local_varint.bind fun n _ => .ite (fun _ => local_refuse (f := .emptySizeList) rfl) fun _ =>
    (local_sizeTags n.toNat _).bind fun tags _ => local_sizeItems tags _

theorem local_value (type : ValueType) : Local complaint (value type) read := by
  cases type with
  | integer => exact local_varint.map _
  | number => exact local_single.map _
  | enumeration => exact local_tag.map _
  | string => exact local_text.map _
  | boolean => exact local_boolean.map _
  | margins => exact local_margins.map _
  | sizeList => exact local_sizeList.map _
  | resource => exact local_varint.map _

variable (symbols : SymbolTables)

/-- A property is read behind its first byte, and an unknown one is reported there. -/
theorem local_property (raw : UInt8) : Local complaint (property symbols raw) (read ++ [raw]) := by
  unfold property
  dsimp only
  cases symbols.propertyById? (raw &&& 0x7f) with
  | none =>
      exact local_refuse (f := fun o => .unknownProperty (raw &&& 0x7f) (o - 1))
        ⟨read, raw, rfl, rfl, by simp⟩
  | some entry =>
      exact .ite (fun _ => (local_value entry.type).map _) fun _ => local_varint.map _

/-! ### Trees -/

/-- A widget begins behind its tag, and an unknown tag is reported there. -/
theorem local_begin (depth : Nat) (t : UInt8) :
    Local complaint (begin symbols depth t) (read ++ [t]) := by
  refine .ite (fun _ => local_throw (.inr rfl)) fun _ => ?_
  cases symbols.widgetByTag? t with
  | none => exact local_refuse (f := fun o => .unknownTag t (o - 1)) ⟨read, rfl, by simp⟩
  | some entry => exact local_pure _

theorem local_decodeStep (state : Open) : Local complaint (decodeStep symbols state) read :=
  local_tag_bind fun b => .ite
    (fun _ => .ite (fun _ => local_pure _) fun _ => (local_begin symbols _ b).map _)
    fun _ => .ite (fun _ => local_pure _) fun _ => (local_property symbols b).map _

theorem local_root : Local complaint (root symbols) read :=
  local_tag_bind fun t => (local_begin symbols 1 t).bind fun _ _ =>
    local_iterate (fun state _ => local_decodeStep symbols state) _ _

end Decode

/-! ### Documents -/

/-- The fault is where it says: at a byte that it names, or behind bytes that it refuses.  The
number says how many of the bytes have been read. -/
inductive DecodeFault.ShowsIn (bytes : List UInt8) : DecodeFault → Nat → Prop
  | unknownTag {b : UInt8} {offset : Nat} (h : bytes[offset]? = some b) :
      ShowsIn bytes (.unknownTag b offset) (offset + 1)
  | badBoolean {b : UInt8} {offset : Nat} (h : bytes[offset]? = some b) :
      ShowsIn bytes (.badBoolean b offset) (offset + 1)
  /-- The id is the byte without the bit that marks a binding. -/
  | unknownProperty {raw : UInt8} {offset : Nat} (h : bytes[offset]? = some raw) :
      ShowsIn bytes (.unknownProperty (raw &&& 0x7f) offset) (offset + 1)
  | unreadable {part : WirePart} {offset : Nat} {fault : Wire.ReadFault}
      (hend : fault.isEnd = false)
      (h : offset ≤ bytes.length) : ShowsIn bytes (.unreadable part offset fault) offset
  | notText {offset : Nat} {fault : Text.Utf8.Fault} (h : offset ≤ bytes.length) :
      ShowsIn bytes (.notText offset fault) offset
  | emptySizeList {offset : Nat} (h : offset ≤ bytes.length) :
      ShowsIn bytes (.emptySizeList offset) offset

/-- A fault that blames the bytes read so far shows in all bytes that begin with them. -/
theorem DecodeFault.Blames.showsIn {fault : DecodeFault} {read : List UInt8} (h : fault.Blames read)
    (rest : List UInt8) : fault.ShowsIn (read ++ rest) read.length := by
  cases fault with
  | unreadable part offset fault =>
      obtain ⟨rfl, hend⟩ := h
      exact .unreadable hend (by simp)
  | unknownTag b offset =>
      obtain ⟨before, rfl, rfl⟩ := h
      have hb : (before ++ [b] ++ rest)[before.length]? = some b := by simp
      simpa using ShowsIn.unknownTag hb
  | badBoolean b offset =>
      obtain ⟨before, rfl, rfl⟩ := h
      have hb : (before ++ [b] ++ rest)[before.length]? = some b := by simp
      simpa using ShowsIn.badBoolean hb
  | unknownProperty id offset =>
      obtain ⟨before, raw, rfl, rfl, rfl⟩ := h
      have hraw : (before ++ [raw] ++ rest)[before.length]? = some raw := by simp
      simpa using ShowsIn.unknownProperty hraw
  | notText offset fault =>
      obtain rfl : offset = read.length := h
      exact .notText (by simp)
  | emptySizeList offset =>
      obtain rfl : offset = read.length := h
      exact .emptySizeList (by simp)
  | trailingBytes count => exact h.elim

/-- **Faults are local and point at the right byte.**  Bytes that are refused for their format have
some left over behind the root, or they end too early, which is reported at their end; or the fault
shows where it says, and all bytes that begin with those read so far have the same fault. -/
theorem decode_fault_local {symbols : SymbolTables} {bytes : List UInt8} {format : FormatFault}
    (h : Decode.decode symbols bytes = .error (.invalidFormat format)) :
    (∃ count, format = .bytes (.trailingBytes count)) ∨
      (∃ part fault, fault.isEnd = true ∧ format = .bytes (.unreadable part bytes.length fault)) ∨
        ∃ fault n, format = .bytes fault ∧ fault.ShowsIn bytes n ∧
          ∀ bytes', bytes'.take n = bytes.take n →
            Decode.decode symbols bytes' = .error (.invalidFormat (.bytes fault)) := by
  have hroot : Wire.Settled Decode.complaint (Decode.root symbols) [] bytes
      (Decode.root symbols (.start bytes)) := Decode.local_root symbols bytes
  unfold Decode.decode at h
  generalize Decode.root symbols (.start bytes) = result at h hroot
  cases hroot with
  | @ok w q r hrest hq =>
      dsimp only at h
      by_cases hr : r.isEmpty
      · rw [if_pos hr] at h
        cases h
      · rw [if_neg hr] at h
        cases h
        exact .inl ⟨_, rfl⟩
  | @refused e q r hrest he hq =>
      obtain rfl := Except.error.inj h
      rcases he with ⟨fault, heq, hblames⟩ | heq
      · cases heq
        refine .inr (.inr ⟨fault, q.length, rfl, ?_, ?_⟩)
        · rw [hrest]
          exact hblames.showsIn r
        · intro bytes' hagree
          rw [hrest, List.take_left] at hagree
          have hbytes' := List.take_append_drop q.length bytes'
          rw [hagree] at hbytes'
          have hroot : Decode.root symbols (.start (q ++ bytes'.drop q.length)) = _ :=
            hq (bytes'.drop q.length)
          unfold Decode.decode
          rw [← hbytes', hroot]
      · cases heq
  | lacking he =>
      obtain ⟨part, fault, hend, rfl⟩ := he
      cases h
      exact .inr (.inl ⟨part, fault, hend, rfl⟩)

/-- A check box inside a panel has a truth value that is neither zero nor one.  What follows that
byte does not matter. -/
theorem decode_fault_local_checkBox :
    Decode.decode .shipped [17, 0, 8, 22, 7, 0, 0, 0] =
      .error (.invalidFormat (.bytes (.badBoolean 7 4))) ∧
      ([17, 0, 8, 22, 7, 0, 0, 0] : List UInt8)[4]? = some 7 ∧
        ∀ more, Decode.decode .shipped ([17, 0, 8, 22, 7] ++ more) =
          .error (.invalidFormat (.bytes (.badBoolean 7 4))) := by
  have h : Decode.decode .shipped [17, 0, 8, 22, 7, 0, 0, 0] =
      .error (.invalidFormat (.bytes (.badBoolean 7 4))) := by with_unfolding_all rfl
  obtain ⟨count, heq⟩ | ⟨part, fault, -, heq⟩ | ⟨fault, n, heq, hshows, hsame⟩ :=
    decode_fault_local h
  · cases heq
  · cases heq
  · cases heq
    cases hshows with
    | badBoolean hbyte => exact ⟨h, hbyte, fun more => hsame _ rfl⟩

end WidgetLayout
