/-
Big-endian words inside a byte string.

Both wire formats of the proxy, the order datagrams it reads and the ACK frames
it writes, are fixed layouts of unsigned words at byte offsets, most significant
byte first. This file is the arithmetic of such a layout and nothing else: what
a word of `w` bytes denotes, that writing and reading it back is the identity
modulo `256 ^ w`, and that a read ignores the bytes behind the word.

Everything is stated at a general width, because the layouts use the widths 2
and 4 side by side and the lemmas do not care. Words are natural numbers here;
the fixed-width types are put on top by the modules that own a layout.
-/
import Mathlib.Tactic

set_option autoImplicit false

namespace CmsProxy.BigEndian

/-- A byte string: a `std::vector<uint8_t>`, or the bytes of a `std::string`. -/
abbrev Bytes := List UInt8

/-! ## Encoding and decoding one word -/

/-- The `w` bytes of `n`, most significant first; bits above `8 * w` are dropped. -/
def toBytes : ℕ → ℕ → Bytes
  | 0, _ => []
  | w + 1, n => UInt8.ofNat (n / 256 ^ w) :: toBytes w n

/-- The number a byte string denotes, most significant byte first. -/
def ofBytes : Bytes → ℕ
  | [] => 0
  | b :: bs => b.toNat * 256 ^ bs.length + ofBytes bs

@[simp] theorem length_toBytes (w n : ℕ) : (toBytes w n).length = w := by
  induction w with
  | zero => rfl
  | succ w ih => simp only [toBytes, List.length_cons, ih]

/-- Writing a word and reading it back loses exactly the bits the width drops. -/
theorem ofBytes_toBytes (w n : ℕ) : ofBytes (toBytes w n) = n % 256 ^ w := by
  induction w with
  | zero => simp only [toBytes, ofBytes, pow_zero, Nat.mod_one]
  | succ w ih =>
      have hdigit : (UInt8.ofNat (n / 256 ^ w)).toNat = n / 256 ^ w % 256 := by
        simp only [UInt8.toNat_ofNat', Nat.reducePow]
      rw [toBytes, ofBytes, ih, length_toBytes, hdigit, pow_succ, Nat.mod_mul]
      ring

/-! ## A word at an offset -/

/-- The word of `w` bytes at offset `off`. Total: bytes past the end are missing
from the word, so every use carries its own range fact. -/
def wordAt (w off : ℕ) (bs : Bytes) : ℕ := ofBytes ((bs.drop off).take w)

/-- A word is a function of the bytes it covers: strings that agree on a prefix
that reaches its end give the same word. -/
theorem wordAt_congr {w off m : ℕ} {a b : Bytes} (hm : off + w ≤ m)
    (h : a.take m = b.take m) : wordAt w off a = wordAt w off b := by
  have key : ∀ c : Bytes, (c.drop off).take w = ((c.take m).drop off).take w := by
    intro c
    rw [List.drop_take, List.take_take, Nat.min_eq_left (by omega)]
  rw [wordAt, wordAt, key a, key b, h]

/-! ## Overwriting part of a buffer -/

/-- `memcpy(dst + off, src, src.size())` into a buffer that is large enough. -/
def memcpy (dst : Bytes) (off : ℕ) (src : Bytes) : Bytes :=
  dst.take off ++ src ++ dst.drop (off + src.length)

end CmsProxy.BigEndian
