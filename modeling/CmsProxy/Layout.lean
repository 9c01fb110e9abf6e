/-
Pieces written into a buffer.

An encoder fills a buffer by copying one field after another to its offset. When
the pieces do not overlap, the order of the copies does not matter to a reader:
where a piece was put, it is found (`slice_place`), and where nothing was put, the
buffer is as it was before (`slice_place_of_free`).

Both follow from what one copy does, which the three lemmas about `memcpy` say.
A piece is any byte string, so that words and text can stand side by side; a
reader of words uses `wordAt_place`.
-/
import CmsProxy.BigEndian

set_option autoImplicit false

namespace CmsProxy.Layout

open BigEndian

/-- The `count` bytes from `offset` on. -/
def slice (offset count : ℕ) (bs : Bytes) : Bytes := (bs.drop offset).take count

/-- A word is the number its slice denotes. -/
theorem wordAt_eq_slice (w offset : ℕ) (bs : Bytes) :
    wordAt w offset bs = ofBytes (slice offset w bs) := rfl

/-- Two neighbouring slices. -/
theorem slice_add (offset m n : ℕ) (bs : Bytes) :
    slice offset (m + n) bs = slice offset m bs ++ slice (offset + m) n bs := by
  unfold slice
  rw [List.take_add, List.drop_drop]

/-- A slice behind a prefix. -/
theorem slice_append_right {offset : ℕ} {front : Bytes} (h : front.length ≤ offset) (count : ℕ)
    (bs : Bytes) : slice offset count (front ++ bs) = slice (offset - front.length) count bs := by
  unfold slice
  rw [List.drop_append, List.drop_eq_nil_of_le h, List.nil_append]

/-- A word between two byte strings. -/
theorem wordAt_append (front back : Bytes) (w n : ℕ) :
    wordAt w front.length (front ++ (toBytes w n ++ back)) = n % 256 ^ w := by
  rw [wordAt_eq_slice, slice_append_right le_rfl, Nat.sub_self, slice, List.drop_zero,
    List.take_left' (length_toBytes w n), ofBytes_toBytes]

theorem slice_replicate {offset count size : ℕ} (h : offset + count ≤ size) (b : UInt8) :
    slice offset count (List.replicate size b) = List.replicate count b := by
  unfold slice
  rw [List.drop_replicate, List.take_replicate, Nat.min_eq_left (by omega)]

/-! ## One copy -/

section

variable {dst src : Bytes} {offset : ℕ}

theorem length_memcpy (h : offset + src.length ≤ dst.length) :
    (memcpy dst offset src).length = dst.length := by
  unfold memcpy
  rw [List.length_append, List.length_append, List.length_take, List.length_drop,
    Nat.min_eq_left (by omega)]
  omega

/-- What was copied is found where it was put. -/
theorem slice_memcpy (h : offset + src.length ≤ dst.length) :
    slice offset src.length (memcpy dst offset src) = src := by
  have hfront : (dst.take offset).length = offset := List.length_take_of_le (by omega)
  unfold slice memcpy
  rw [List.append_assoc, List.drop_left' hfront, List.take_left]

/-- A slice that does not meet the copy is as it was before. -/
theorem slice_memcpy_of_disjoint {offset' count : ℕ} (h : offset + src.length ≤ dst.length)
    (hdisjoint : offset' + count ≤ offset ∨ offset + src.length ≤ offset') :
    slice offset' count (memcpy dst offset src) = slice offset' count dst := by
  have hfront : (dst.take offset).length = offset := List.length_take_of_le (by omega)
  unfold slice
  rcases hdisjoint with hbefore | hbehind
  · -- all of it lies in the part in front of the copy
    have key : ∀ bs : Bytes, (bs.drop offset').take count =
        ((bs.take offset).drop offset').take count := by
      intro bs
      rw [List.drop_take, List.take_take, Nat.min_eq_left (by omega)]
    have hsame : (memcpy dst offset src).take offset = dst.take offset := by
      unfold memcpy
      rw [List.append_assoc, List.take_left' hfront]
    rw [key, hsame, ← key]
  · -- all of it lies in the part behind the copy
    obtain ⟨gap, rfl⟩ := Nat.exists_eq_add_of_le hbehind
    have hwritten : (dst.take offset ++ src).length = offset + src.length := by
      rw [List.length_append, hfront]
    unfold memcpy
    rw [← List.drop_drop, List.drop_left' hwritten, List.drop_drop]

end

/-! ## Several copies -/

/-- A piece: where it is put, and its bytes. -/
structure Piece where
  offset : ℕ
  bytes : Bytes

/-- The first offset behind a piece. -/
def Piece.stop (p : Piece) : ℕ := p.offset + p.bytes.length

/-- The pieces are copied into the buffer, one after the other. -/
def place (buffer : Bytes) (pieces : List Piece) : Bytes :=
  pieces.foldl (fun buffer p => memcpy buffer p.offset p.bytes) buffer

theorem place_cons (buffer : Bytes) (p : Piece) (pieces : List Piece) :
    place buffer (p :: pieces) = place (memcpy buffer p.offset p.bytes) pieces := rfl

theorem place_append (buffer : Bytes) (pieces pieces' : List Piece) :
    place buffer (pieces ++ pieces') = place (place buffer pieces) pieces' :=
  List.foldl_append

/-- The pieces stand in the order of their offsets and do not overlap. -/
def Ordered (pieces : List Piece) : Prop := pieces.Pairwise fun p q => p.stop ≤ q.offset

section

variable {buffer : Bytes} {pieces : List Piece}

theorem length_place (hinside : ∀ p ∈ pieces, p.stop ≤ buffer.length) :
    (place buffer pieces).length = buffer.length := by
  induction pieces generalizing buffer with
  | nil => rfl
  | cons p pieces ih =>
      obtain ⟨hp, hpieces⟩ := List.forall_mem_cons.mp hinside
      have hlen := length_memcpy hp
      rw [place_cons, ih (by rwa [hlen]), hlen]

/-- **Where nothing is put**, the buffer does not change. -/
theorem slice_place_of_free {offset count : ℕ} (hinside : ∀ p ∈ pieces, p.stop ≤ buffer.length)
    (hfree : ∀ p ∈ pieces, offset + count ≤ p.offset ∨ p.stop ≤ offset) :
    slice offset count (place buffer pieces) = slice offset count buffer := by
  induction pieces generalizing buffer with
  | nil => rfl
  | cons p pieces ih =>
      obtain ⟨hp, hpieces⟩ := List.forall_mem_cons.mp hinside
      obtain ⟨hfree_p, hfree⟩ := List.forall_mem_cons.mp hfree
      rw [place_cons, ih (by rwa [length_memcpy hp]) hfree, slice_memcpy_of_disjoint hp hfree_p]

/-- **Where a piece is put**, it is found. -/
theorem slice_place (hinside : ∀ p ∈ pieces, p.stop ≤ buffer.length) (hordered : Ordered pieces)
    {p : Piece} (hp : p ∈ pieces) :
    slice p.offset p.bytes.length (place buffer pieces) = p.bytes := by
  induction pieces generalizing buffer with
  | nil => exact absurd hp List.not_mem_nil
  | cons q pieces ih =>
      obtain ⟨hq, hpieces⟩ := List.forall_mem_cons.mp hinside
      obtain ⟨hbehind, hordered⟩ := List.pairwise_cons.mp hordered
      have hlen := length_memcpy hq
      rw [place_cons]
      rcases List.mem_cons.mp hp with rfl | hp
      · -- the later pieces lie behind this one
        rw [slice_place_of_free (by rwa [hlen]) fun r hr => Or.inl (hbehind r hr), slice_memcpy hq]
      · exact ih (by rwa [hlen]) hordered hp

/-- A word that was put somewhere is read there. -/
theorem wordAt_place (hinside : ∀ p ∈ pieces, p.stop ≤ buffer.length) (hordered : Ordered pieces)
    {offset w n : ℕ} (hp : ⟨offset, toBytes w n⟩ ∈ pieces) :
    wordAt w offset (place buffer pieces) = n % 256 ^ w := by
  have hslice := slice_place hinside hordered hp
  rw [length_toBytes] at hslice
  rw [wordAt_eq_slice, hslice, ofBytes_toBytes]

end

end CmsProxy.Layout
