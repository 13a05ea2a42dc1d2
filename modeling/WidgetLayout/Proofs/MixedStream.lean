/-
Mixed streams of primitives are read back exactly.

Every primitive says by itself where it ends, each in its own way: a varint by its high bits, a
string by the length in front of it, the others by their width.  So primitives can be written one
after the other without anything between them, and reading them in the same order stops exactly
where the writing stopped.

If the stream is cut, the reads before the cut do not notice.  The one at the cut finds too few
bytes, takes them all and fails because the data ended: that is `Local.lacks`, which holds of every
reader that sees only what it takes.
-/
import WidgetLayout.Proofs.Locality

namespace WidgetLayout.Wire

open WidgetLayout.Progress

/-- The ways in which a primitive is written. -/
inductive PrimitiveKind
  | varint
  | tag
  | string
  | single
deriving DecidableEq, Repr

/-- A number, a byte, a string of bytes or a single-precision number. -/
inductive Primitive
  | varint (n : UInt32)
  | tag (b : UInt8)
  | string (bytes : List UInt8)
  | single (x : Single)
deriving DecidableEq, Repr

namespace Primitive

/-- The kind of a primitive. -/
def kind : Primitive → PrimitiveKind
  | .varint _ => .varint
  | .tag _ => .tag
  | .string _ => .string
  | .single _ => .single

/-- The bytes of a primitive. -/
def write : Primitive → List UInt8
  | .varint n => Wire.varint n
  | .tag b => [b]
  | .string bytes => Wire.string bytes
  | .single x => Wire.single x

/-- The length of a string can be written. -/
def Fits : Primitive → Prop
  | .string bytes => bytes.length < 0x100000000
  | _ => True

end Primitive

/-- Reads a primitive of a kind. -/
def PrimitiveKind.read : PrimitiveKind → Reader ReadFault Primitive
  | .varint => .varint <$> Reader.varint
  | .tag => .tag <$> Reader.byte
  | .string => .string <$> Reader.string
  | .single => .single <$> Reader.single

/-! ### One primitive -/

theorem local_read {read : List UInt8} (kind : PrimitiveKind) : Local complaint kind.read read := by
  cases kind with
  | varint => exact Reader.local_varint.map _
  | tag => exact Reader.local_byte.map _
  | string => exact Reader.local_string.map _
  | single => exact Reader.local_single.map _

/-- The bytes of a primitive are among those that the reader of its kind takes for it. -/
theorem exists_reads {p : Primitive} (h : p.Fits) : ∃ F, Reads p.kind.read F ∧ F p p.write := by
  cases p with
  | varint n => exact ⟨_, reads_varint.map _, n, padded_varint n, rfl⟩
  | tag b => exact ⟨_, reads_byte.map _, b, rfl, rfl⟩
  | string bytes =>
      have hlength : (UInt32.ofNat bytes.length).toNat = bytes.length := UInt32.toNat_ofNat_of_lt' h
      exact ⟨_, reads_string.map _, bytes, ⟨_, _, padded_varint _, hlength, rfl⟩, rfl⟩
  | single x => exact ⟨_, reads_single.map _, x, rfl, rfl⟩

theorem read_write {p : Primitive} (h : p.Fits) (offset : Nat) (rest : List UInt8) :
    p.kind.read ⟨offset, p.write ++ rest⟩ = .ok p ⟨offset + p.write.length, rest⟩ := by
  obtain ⟨F, hreads, hF⟩ := exists_reads h
  exact hreads.ok_of_append hF offset rest

/-- A primitive that is cut lacks its end. -/
theorem read_cut {p : Primitive} (h : p.Fits) {cut missing : List UInt8}
    (hcut : p.write = cut ++ missing) (hne : missing ≠ []) (read : List UInt8) :
    ∃ fault, fault.isEnd = true ∧
      p.kind.read ⟨read.length, cut⟩ = .error fault ⟨(read ++ cut).length, []⟩ := by
  obtain ⟨F, hreads, hF⟩ := exists_reads h
  rw [hcut] at hF
  exact (local_read p.kind).lacks hreads hF hne

/-! ### Streams

Bytes do not tell what they are the bytes of, so the reader has to be given the kinds. -/

/-- Reads primitives of some kinds one after the other. -/
def readAll (kinds : List PrimitiveKind) : Reader ReadFault (List Primitive) :=
  kinds.mapM PrimitiveKind.read

theorem readAll_cons (kind : PrimitiveKind) (kinds : List PrimitiveKind) :
    readAll (kind :: kinds) = do
      let p ← kind.read
      let ps ← readAll kinds
      return p :: ps := List.mapM_cons

theorem readAll_cons_of_ok {kind : PrimitiveKind} {kinds : List PrimitiveKind} {c c' c'' : Cursor}
    {p : Primitive} {ps : List Primitive} (hp : kind.read c = .ok p c')
    (hps : readAll kinds c' = .ok ps c'') : readAll (kind :: kinds) c = .ok (p :: ps) c'' := by
  rw [readAll_cons, bind_of_ok hp, bind_of_ok hps]
  rfl

theorem readAll_write (ps : List Primitive) (hfits : ∀ p ∈ ps, p.Fits) (z : List UInt8) :
    ∀ offset, readAll (ps.map Primitive.kind) ⟨offset, ps.flatMap Primitive.write ++ z⟩ =
      .ok ps ⟨offset + (ps.flatMap Primitive.write).length, z⟩ := by
  induction ps with
  | nil => exact fun offset => rfl
  | cons p ps ih =>
      intro offset
      have hp := read_write (hfits p (by simp)) offset (ps.flatMap Primitive.write ++ z)
      have hps := ih (fun x hx => hfits x (by simp [hx])) (offset + p.write.length)
      rw [List.flatMap_cons, List.append_assoc, List.length_append, ← Nat.add_assoc]
      exact readAll_cons_of_ok hp hps

/-- The stream is cut inside a primitive; the induction passes over the primitives before it. -/
theorem readAll_cut (ps : List Primitive) (hfits : ∀ p ∈ ps, p.Fits) :
    ∀ {cut missing : List UInt8}, ps.flatMap Primitive.write = cut ++ missing → missing ≠ [] →
      ∀ read : List UInt8, ∃ done p later c fault, ps = done ++ p :: later ∧
        readAll (done.map Primitive.kind) ⟨read.length, cut⟩ = .ok done c ∧ fault.isEnd = true ∧
          p.kind.read c = .error fault ⟨(read ++ cut).length, []⟩ := by
  induction ps with
  | nil =>
      intro cut missing hcut hne
      exact absurd (List.append_eq_nil_iff.mp hcut.symm).2 hne
  | cons p ps ih =>
      intro cut missing hcut hne read
      have hp := hfits p (by simp)
      rw [List.flatMap_cons] at hcut
      have hplace : (∃ cut', cut = p.write ++ cut' ∧ ps.flatMap Primitive.write = cut' ++ missing) ∨
          ∃ missing', p.write = cut ++ missing' ∧ missing' ≠ [] := by
        obtain hwhole | ⟨missing', hwrite, hmissing⟩ := List.append_eq_append_iff.mp hcut
        · exact .inl hwhole
        · by_cases hnil : missing' = []
          · rw [hnil, List.append_nil] at hwrite
            rw [hnil, List.nil_append] at hmissing
            exact .inl ⟨[], by rw [hwrite, List.append_nil], by rw [hmissing, List.nil_append]⟩
          · exact .inr ⟨missing', hwrite, hnil⟩
      obtain ⟨cut', rfl, hcut'⟩ | ⟨missing', hwrite, hne'⟩ := hplace
      · -- the first primitive is there as a whole
        obtain ⟨done, q, later, c, fault, rfl, hdone, hend, hread⟩ :=
          ih (fun x hx => hfits x (by simp [hx])) hcut' hne (read ++ p.write)
        rw [List.append_assoc] at hread
        rw [List.length_append] at hdone
        exact ⟨p :: done, q, later, c, fault, rfl,
          readAll_cons_of_ok (read_write hp read.length cut') hdone, hend, hread⟩
      · obtain ⟨fault, hend, hread⟩ := read_cut hp hwrite hne' read
        exact ⟨[], p, ps, _, fault, rfl, rfl, hend, hread⟩

/-- **Mixed streams are read back exactly.**  Primitives that are written one after the other are
read back in the same order, whatever follows them, and what follows is left.  Where something is
missing of what was written, one of the reads fails because the data ended, having taken all of it,
and the reads before it give what was written. -/
theorem readAll_stream (ps : List Primitive) (hfits : ∀ p ∈ ps, p.Fits) :
    (∀ z, readAll (ps.map Primitive.kind) (.start (ps.flatMap Primitive.write ++ z)) =
      .ok ps ⟨(ps.flatMap Primitive.write).length, z⟩) ∧
    ∀ cut, cut <+: ps.flatMap Primitive.write → cut ≠ ps.flatMap Primitive.write →
      ∃ done p later c fault, ps = done ++ p :: later ∧
        readAll (done.map Primitive.kind) (.start cut) = .ok done c ∧ fault.isEnd = true ∧
          p.kind.read c = .error fault ⟨cut.length, []⟩ := by
  refine ⟨fun z => ?_, ?_⟩
  · have hread := readAll_write ps hfits z 0
    rwa [Nat.zero_add] at hread
  · rintro cut ⟨missing, hcut⟩ hne
    have hmissing : missing ≠ [] := by
      rintro rfl
      exact hne (by rw [← hcut, List.append_nil])
    exact readAll_cut ps hfits hcut.symm hmissing []

/-- A number of two groups, a tag, a string and a single-precision number, cut inside the string. -/
theorem readAll_stream_of_four :
    let ps : List Primitive := [.varint 300, .tag 7, .string [0x68, 0x69], .single ⟨0x3FC00000⟩]
    let bytes : List UInt8 := [0x82, 0x2C, 7, 2, 0x68, 0x69, 0x00, 0x00, 0xC0, 0x3F]
    let cut : List UInt8 := [0x82, 0x2C, 7, 2, 0x68]
    (∀ p ∈ ps, p.Fits) ∧
      (∀ z, readAll [.varint, .tag, .string, .single] (.start (bytes ++ z)) = .ok ps ⟨10, z⟩) ∧
      ∃ done p later c fault, ps = done ++ p :: later ∧
        readAll (done.map Primitive.kind) (.start cut) = .ok done c ∧ fault.isEnd = true ∧
          p.kind.read c = .error fault ⟨5, []⟩ := by
  intro ps bytes cut
  have hfits : ∀ p ∈ ps, p.Fits := by simp [ps, Primitive.Fits]
  have hbytes : ps.flatMap Primitive.write = bytes := by decide +kernel
  have hstream := readAll_stream ps hfits
  rw [hbytes] at hstream
  exact ⟨hfits, hstream.1, hstream.2 cut (by decide) (by decide)⟩

end WidgetLayout.Wire
