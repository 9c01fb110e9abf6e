/-
Decimal numerals as byte strings: `std::to_string` of an unsigned number, and
the integers of a JSON text.

Two facts carry every use. A numeral reads back to its number, so `decimal` is
injective; and it is made of digits only, so any byte that is not a digit ends
it. The first makes a cache key that ends in a port number decodable, the second
makes a number inside a longer text end where it should.
-/
import CmsProxy.BigEndian

set_option autoImplicit false

namespace CmsProxy.Decimal

open BigEndian (Bytes)

/-- The numeral of one digit. -/
def digitByte (d : ℕ) : UInt8 := UInt8.ofNat (48 + d)

/-- `'0' ≤ b ≤ '9'`. -/
def isDigit (b : UInt8) : Bool := decide (48 ≤ b.toNat) && decide (b.toNat ≤ 57)

/-- The decimal numeral of `n`, without leading zeros. -/
def decimal (n : ℕ) : Bytes :=
  if n = 0 then [48] else ((Nat.digits 10 n).map digitByte).reverse

/-- The number a string of digits denotes. -/
def readDecimal (bs : Bytes) : ℕ := bs.foldl (fun acc b => 10 * acc + (b.toNat - 48)) 0

theorem toNat_digitByte {d : ℕ} (h : d < 10) : (digitByte d).toNat = 48 + d := by
  rw [digitByte, UInt8.toNat_ofNat']
  omega

theorem isDigit_digitByte {d : ℕ} (h : d < 10) : isDigit (digitByte d) = true := by
  rw [isDigit, toNat_digitByte h]
  simp only [Bool.and_eq_true, decide_eq_true_eq]
  omega

theorem isDigit_decimal (n : ℕ) : ∀ b ∈ decimal n, isDigit b = true := by
  intro b hb
  unfold decimal at hb
  split_ifs at hb with h0
  · rw [List.mem_singleton.mp hb]
    decide
  · obtain ⟨d, hd, rfl⟩ := List.mem_map.mp (List.mem_reverse.mp hb)
    exact isDigit_digitByte (Nat.digits_lt_base (by norm_num) hd)

theorem decimal_ne_nil (n : ℕ) : decimal n ≠ [] := by
  unfold decimal
  split_ifs with h0
  · simp
  · simpa [Nat.digits_eq_nil_iff_eq_zero] using h0

/-- Reading a string of digits from the left is `Nat.ofDigits` on its reverse. -/
theorem readDecimal_reverse_map (ds : List ℕ) (h : ∀ d ∈ ds, d < 10) :
    readDecimal ((ds.map digitByte).reverse) = Nat.ofDigits 10 ds := by
  rw [readDecimal, List.foldl_reverse]
  induction ds with
  | nil => rfl
  | cons d ds ih =>
      rw [List.map_cons, List.foldr_cons, ih (fun x hx => h x (List.mem_cons_of_mem _ hx)),
        toNat_digitByte (h d List.mem_cons_self), Nat.ofDigits_cons]
      omega

/-- **A numeral denotes the number it was printed from.** -/
theorem readDecimal_decimal (n : ℕ) : readDecimal (decimal n) = n := by
  unfold decimal
  split_ifs with h0
  · rw [h0]
    rfl
  · rw [readDecimal_reverse_map _ (fun d hd => Nat.digits_lt_base (by norm_num) hd),
      Nat.ofDigits_digits]

theorem decimal_injective : Function.Injective decimal :=
  Function.LeftInverse.injective readDecimal_decimal

end CmsProxy.Decimal
