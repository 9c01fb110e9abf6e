/-
The compact text of a JSON document, and a reader for it.

`text` writes what `nlohmann::json::dump()` writes: no blanks, members in key
order, the two characters `"` and `\` and the control characters escaped, every
other byte copied. `readValue` reads one document off the front of a byte string
and returns what is left over. The main result, `readValue_text`, is the round
trip in that form, with any continuation behind the text; the round trip of a
whole text (`parse_text`) is its case of an empty continuation, and reading a
concatenation of documents is its iteration.

The two halves of the argument are kept apart. A scalar ends where its last byte
says so (`takeChar_escape` for the characters of a string, `Stops` for a number,
which has no closing byte of its own); a container ends where its bracket does.
How a float is written is a parameter (`FloatText`): the reader needs only that
the token is made of number characters and cannot be taken for an integer.
-/
import CmsProxy.JsonValue
import CmsProxy.Decimal

set_option autoImplicit false

namespace CmsProxy.JsonText

open BigEndian (Bytes)
open JsonValue Decimal

/-! ## Strings -/

/-- The one-letter escape of a character, when it has one. -/
def shortEscape (b : UInt8) : Option UInt8 :=
  if b = 34 then some 34 else if b = 92 then some 92 else if b = 8 then some 98
  else if b = 12 then some 102 else if b = 10 then some 110 else if b = 13 then some 114
  else if b = 9 then some 116 else none

/-- The character a one-letter escape stands for. -/
def shortUnescape (c : UInt8) : Option UInt8 :=
  if c = 34 then some 34 else if c = 92 then some 92 else if c = 98 then some 8
  else if c = 102 then some 12 else if c = 110 then some 10 else if c = 114 then some 13
  else if c = 116 then some 9 else none

/-- A lower-case hexadecimal digit. -/
def hexDigit (d : ℕ) : UInt8 := UInt8.ofNat (if d < 10 then 48 + d else 87 + d)

def hexValue (c : UInt8) : ℕ := if c.toNat ≤ 57 then c.toNat - 48 else c.toNat - 87

/-- One byte of a string as it stands in the text. -/
def escape (b : UInt8) : Bytes :=
  match shortEscape b with
  | some c => [92, c]
  | none => if b.toNat < 32 then [92, 117, 48, 48, hexDigit (b.toNat / 16), hexDigit (b.toNat % 16)]
      else [b]

/-- A string as it stands in the text, after the opening quote. -/
def quotedTail (s : Bytes) : Bytes := s.flatMap escape ++ [34]

/-- One character off the front of a string's text. -/
def takeChar : Bytes → Option (UInt8 × Bytes)
  | [] => none
  | b :: bs =>
      if b = 92 then
        match bs with
        | [] => none
        | c :: cs =>
            if c = 117 then
              match cs with
              | z :: z' :: h :: l :: rest =>
                  if z = 48 ∧ z' = 48 then some (UInt8.ofNat (16 * hexValue h + hexValue l), rest)
                  else none
              | _ => none
            else (shortUnescape c).map (fun u => (u, cs))
      else some (b, bs)

/-- A string up to its closing quote. -/
def readChars : ℕ → Bytes → Option (Bytes × Bytes)
  | 0, _ => none
  | n + 1, bs =>
      match bs with
      | [] => none
      | b :: rest =>
          if b = 34 then some ([], rest)
          else do
            let (u, rest) ← takeChar (b :: rest)
            let (us, rest) ← readChars n rest
            some (u :: us, rest)

/-- A short escape is undone, and its letter is not the `u` of a long one. -/
theorem shortUnescape_of_shortEscape {b c : UInt8} (h : shortEscape b = some c) :
    c ≠ 117 ∧ shortUnescape c = some b := by
  unfold shortEscape at h
  -- seven escapes, each undone by evaluation
  split_ifs at h with h1 h2 h3 h4 h5 h6 h7 <;> cases h <;> subst_vars <;> decide

/-- A byte without a short escape is neither the backslash nor the quote. -/
theorem ne_of_shortEscape_none {b : UInt8} (h : shortEscape b = none) : b ≠ 92 ∧ b ≠ 34 := by
  constructor <;> rintro rfl <;> exact absurd h (by decide)

/-- The long escape spells a byte as its two hexadecimal digits. -/
theorem ofNat_hexDigits (b : UInt8) :
    UInt8.ofNat (16 * hexValue (hexDigit (b.toNat / 16)) + hexValue (hexDigit (b.toNat % 16)))
      = b := by
  have key : ∀ n : Fin 256,
      UInt8.ofNat (16 * hexValue (hexDigit ((UInt8.ofFin n).toNat / 16))
        + hexValue (hexDigit ((UInt8.ofFin n).toNat % 16))) = UInt8.ofFin n := by
    decide +kernel
  exact key b.toFin

theorem takeChar_escape (b : UInt8) (rest : Bytes) :
    takeChar (escape b ++ rest) = some (b, rest) := by
  unfold escape
  cases hs : shortEscape b with
  | some c =>
      obtain ⟨hc, hu⟩ := shortUnescape_of_shortEscape hs
      simp only [List.cons_append, List.nil_append, takeChar, if_true, if_neg hc, hu,
        Option.map_some]
  | none =>
      by_cases hlt : b.toNat < 32
      · simp only [if_pos hlt, List.cons_append, List.nil_append, takeChar, if_true,
          and_self, ofNat_hexDigits]
      · simp only [if_neg hlt, List.cons_append, List.nil_append, takeChar,
          if_neg (ne_of_shortEscape_none hs).1]

theorem escape_ne_quote (b : UInt8) : ∃ c cs, escape b = c :: cs ∧ c ≠ 34 := by
  unfold escape
  cases hs : shortEscape b with
  | some c => exact ⟨92, [c], rfl, by decide⟩
  | none =>
      by_cases hlt : b.toNat < 32
      · simp only [if_pos hlt]
        exact ⟨92, _, rfl, by decide⟩
      · simp only [if_neg hlt]
        exact ⟨b, [], rfl, (ne_of_shortEscape_none hs).2⟩

/-- The characters of a string come back, and the reader stops behind the
closing quote. The induction is on the string: each character is one `takeChar`. -/
theorem readChars_quotedTail (s : Bytes) (n : ℕ) (rest : Bytes) (hn : s.length < n) :
    readChars n (quotedTail s ++ rest) = some (s, rest) := by
  induction s generalizing n with
  | nil =>
      obtain ⟨m, rfl⟩ : ∃ m, n = m + 1 := ⟨n - 1, by simp only [List.length_nil] at hn; omega⟩
      rfl
  | cons b s ih =>
      obtain ⟨m, rfl⟩ : ∃ m, n = m + 1 := ⟨n - 1, by omega⟩
      have hlen : s.length < m := by simpa using hn
      have hsplit : quotedTail (b :: s) ++ rest = escape b ++ (quotedTail s ++ rest) := by
        simp only [quotedTail, List.flatMap_cons, List.append_assoc]
      -- the escape does not start with a quote, so the string goes on
      obtain ⟨c, cs, hc, hne⟩ := escape_ne_quote b
      have htake := takeChar_escape b (quotedTail s ++ rest)
      rw [hsplit]
      rw [hc] at htake ⊢
      rw [List.cons_append] at htake ⊢
      rw [readChars]
      simp only [if_neg hne, htake, ih m hlen, Option.bind_eq_bind, Option.bind_some]

/-- The text of a string is no shorter than the string. -/
theorem quotedTail_length_lt (s rest : Bytes) :
    s.length < (quotedTail s ++ rest).length + 1 := by
  have hs : s.length ≤ (s.flatMap escape).length := by
    induction s with
    | nil => simp
    | cons b s ih =>
        obtain ⟨c, cs, hc, -⟩ := escape_ne_quote b
        rw [List.flatMap_cons, List.length_append, hc]
        simp only [List.length_cons]
        omega
  simp only [quotedTail, List.length_append]
  omega

/-! ## Numbers -/

/-- The characters a number is written with: digits, signs, point, exponent. -/
def isNumberByte (b : UInt8) : Bool :=
  isDigit b || b == 45 || b == 43 || b == 46 || b == 101 || b == 69

/-- The token has a point or an exponent, so it is not an integer's. -/
def isFloatToken (t : Bytes) : Bool := t.any (fun b => b == 46 || b == 101 || b == 69)

/-- How floats are written and read. `write` is `none` on the values that have
no JSON number (NaN and the infinities), `back` is the value a written one
reads as. -/
structure FloatText (F : Type) where
  write : F → Option Bytes
  read : Bytes → Option F
  back : F → F
  token : ∀ f t, write f = some t → (∀ b ∈ t, isNumberByte b = true) ∧ isFloatToken t = true
  read_write : ∀ f t, write f = some t → read t = some (back f)

/-- What a float is after a round trip through its text. -/
def FloatText.reread {F : Type} (ft : FloatText F) (f : F) : Option F :=
  (ft.write f).map (fun _ => ft.back f)

variable {F : Type}

/-- The text of a signed integer. -/
def integerText (v : ℤ) : Bytes := if v < 0 then 45 :: decimal v.natAbs else decimal v.toNat

/-- A complete number token. -/
def readNumber (ft : FloatText F) (t : Bytes) : Option (Json F) :=
  if isFloatToken t then (ft.read t).map .number_float
  else match t with
    | [] => none
    | b :: ds =>
        if b = 45 then some (.number_integer (-(readDecimal ds : ℤ)))
        else some (.number_unsigned (readDecimal (b :: ds)))

/-- Nothing that could still belong to a number follows. -/
def Stops (rest : Bytes) : Prop := ∀ b ∈ rest.head?, isNumberByte b = false

theorem isNumberByte_of_isDigit {b : UInt8} (h : isDigit b = true) : isNumberByte b = true := by
  simp only [isNumberByte, h, Bool.true_or]

theorem not_floatByte_of_isDigit {b : UInt8} (h : isDigit b = true) :
    (b == 46 || b == 101 || b == 69) = false := by
  have h46 : b ≠ 46 := by rintro rfl; exact absurd h (by decide)
  have h101 : b ≠ 101 := by rintro rfl; exact absurd h (by decide)
  have h69 : b ≠ 69 := by rintro rfl; exact absurd h (by decide)
  simp only [beq_eq_false_iff_ne.mpr h46, beq_eq_false_iff_ne.mpr h101,
    beq_eq_false_iff_ne.mpr h69, Bool.or_self]

theorem not_isFloatToken_decimal (n : ℕ) : isFloatToken (decimal n) = false := by
  rw [isFloatToken, List.any_eq_false]
  intro b hb
  rw [not_floatByte_of_isDigit (isDigit_decimal n b hb)]
  decide

/-- A token made of number characters is cut off exactly at its end. -/
theorem span_token {t rest : Bytes} (ht : ∀ b ∈ t, isNumberByte b = true) (hr : Stops rest) :
    (t ++ rest).takeWhile isNumberByte = t ∧ (t ++ rest).dropWhile isNumberByte = rest := by
  have hhead : rest.takeWhile isNumberByte = [] ∧ rest.dropWhile isNumberByte = rest := by
    cases rest with
    | nil => exact ⟨rfl, rfl⟩
    | cons b bs =>
        have hb : isNumberByte b = false := hr b rfl
        simp only [List.takeWhile_cons, List.dropWhile_cons, hb, Bool.false_eq_true, if_false,
          and_self]
  rw [List.takeWhile_append_of_pos ht, List.dropWhile_append_of_pos ht, hhead.1, hhead.2,
    List.append_nil]
  exact ⟨rfl, rfl⟩

theorem decimal_ne_minus (n : ℕ) : ∃ b ds, decimal n = b :: ds ∧ b ≠ 45 := by
  cases hd : decimal n with
  | nil => exact absurd hd (decimal_ne_nil n)
  | cons b ds =>
      refine ⟨b, ds, rfl, ?_⟩
      rintro rfl
      have := isDigit_decimal n 45 (by rw [hd]; exact List.mem_cons_self)
      exact absurd this (by decide)

theorem readNumber_decimal (ft : FloatText F) (n : ℕ) :
    readNumber ft (decimal n) = some (.number_unsigned n) := by
  obtain ⟨b, ds, hd, hb⟩ := decimal_ne_minus n
  have hread := readDecimal_decimal n
  have hfloat := not_isFloatToken_decimal n
  rw [hd] at hread hfloat ⊢
  simp only [readNumber, hfloat, Bool.false_eq_true, if_false, if_neg hb, hread]

theorem readNumber_integerText (ft : FloatText F) (back : F → Option F) (v : ℤ) :
    readNumber ft (integerText v) = some (Json.reread back (.number_integer v)) := by
  unfold integerText Json.reread
  by_cases hv : v < 0
  · rw [if_pos hv, if_pos hv, readNumber]
    -- the sign is no point and no exponent
    have hfloat : isFloatToken (45 :: decimal v.natAbs) = false := by
      have := not_isFloatToken_decimal v.natAbs
      simp only [isFloatToken, List.any_cons] at this ⊢
      rw [this]
      decide
    simp only [hfloat, Bool.false_eq_true, if_false, if_true, readDecimal_decimal]
    have habs : -(v.natAbs : ℤ) = v := by omega
    rw [habs]
  · rw [if_neg hv, if_neg hv, readNumber_decimal]

theorem isNumberByte_integerText (v : ℤ) : ∀ b ∈ integerText v, isNumberByte b = true := by
  intro b hb
  unfold integerText at hb
  split_ifs at hb
  · rcases List.mem_cons.mp hb with rfl | hb
    · decide
    · exact isNumberByte_of_isDigit (isDigit_decimal _ b hb)
  · exact isNumberByte_of_isDigit (isDigit_decimal _ b hb)

/-! ## Documents

Containers are written in two parts: the first entry right behind the opening
bracket, and a tail in which every further entry follows a comma and which the
closing bracket ends. The reader has the same two parts, so neither has to look
ahead. -/

/-- A member's key as it stands in the text, with the colon behind it. -/
def keyText (k : Bytes) : Bytes := 34 :: (quotedTail k ++ [58])

mutual
/-- The compact text of a document, as `dump()` writes it. -/
def text (ft : FloatText F) : Json F → Bytes
  | .null => str "null"
  | .boolean b => if b then str "true" else str "false"
  | .number_integer v => integerText v
  | .number_unsigned v => decimal v
  | .number_float f => (ft.write f).getD (str "null")
  | .string s => 34 :: quotedTail s
  | .array xs => 91 :: itemsText ft xs
  | .object ms => 123 :: membersText ft ms

def itemsText (ft : FloatText F) : List (Json F) → Bytes
  | [] => [93]
  | x :: xs => text ft x ++ itemsTail ft xs

def itemsTail (ft : FloatText F) : List (Json F) → Bytes
  | [] => [93]
  | x :: xs => 44 :: (text ft x ++ itemsTail ft xs)

def membersText (ft : FloatText F) : List (Bytes × Json F) → Bytes
  | [] => [125]
  | (k, v) :: ms => keyText k ++ (text ft v ++ membersTail ft ms)

def membersTail (ft : FloatText F) : List (Bytes × Json F) → Bytes
  | [] => [125]
  | (k, v) :: ms => 44 :: (keyText k ++ (text ft v ++ membersTail ft ms))
end

/-- One of the three words. -/
def readWord (word : Bytes) (j : Json F) (bs : Bytes) : Option (Json F × Bytes) :=
  if bs.take word.length = word then some (j, bs.drop word.length) else none

/-- A member's key and its colon. -/
def readKey : Bytes → Option (Bytes × Bytes)
  | [] => none
  | b :: bs =>
      if b = 34 then do
        let (k, rest) ← readChars (bs.length + 1) bs
        match rest with
        | [] => none
        | c :: rest => if c = 58 then some (k, rest) else none
      else none

mutual
/-- One document off the front of a text; `n` bounds the depth of the calls. -/
def readValue (ft : FloatText F) : ℕ → Bytes → Option (Json F × Bytes)
  | 0, _ => none
  | n + 1, bs =>
      match bs with
      | [] => none
      | b :: rest =>
          if b = 34 then (readChars (rest.length + 1) rest).map (fun r => (.string r.1, r.2))
          else if b = 91 then (readItems ft n rest).map (fun r => (.array r.1, r.2))
          else if b = 123 then (readMembers ft n rest).map (fun r => (.object r.1, r.2))
          else if b = 110 then readWord (str "null") .null (b :: rest)
          else if b = 116 then readWord (str "true") (.boolean true) (b :: rest)
          else if b = 102 then readWord (str "false") (.boolean false) (b :: rest)
          else (readNumber ft ((b :: rest).takeWhile isNumberByte)).map
            (fun j => (j, (b :: rest).dropWhile isNumberByte))

def readItems (ft : FloatText F) : ℕ → Bytes → Option (List (Json F) × Bytes)
  | 0, _ => none
  | n + 1, bs =>
      match bs with
      | [] => none
      | b :: rest =>
          if b = 93 then some ([], rest)
          else do
            let (x, rest) ← readValue ft n (b :: rest)
            let (xs, rest) ← readItemsTail ft n rest
            some (x :: xs, rest)

def readItemsTail (ft : FloatText F) : ℕ → Bytes → Option (List (Json F) × Bytes)
  | 0, _ => none
  | n + 1, bs =>
      match bs with
      | [] => none
      | b :: rest =>
          if b = 93 then some ([], rest)
          else if b = 44 then do
            let (x, rest) ← readValue ft n rest
            let (xs, rest) ← readItemsTail ft n rest
            some (x :: xs, rest)
          else none

def readMembers (ft : FloatText F) : ℕ → Bytes → Option (List (Bytes × Json F) × Bytes)
  | 0, _ => none
  | n + 1, bs =>
      match bs with
      | [] => none
      | b :: rest =>
          if b = 125 then some ([], rest)
          else do
            let (k, rest) ← readKey (b :: rest)
            let (v, rest) ← readValue ft n rest
            let (ms, rest) ← readMembersTail ft n rest
            some ((k, v) :: ms, rest)

def readMembersTail (ft : FloatText F) : ℕ → Bytes → Option (List (Bytes × Json F) × Bytes)
  | 0, _ => none
  | n + 1, bs =>
      match bs with
      | [] => none
      | b :: rest =>
          if b = 125 then some ([], rest)
          else if b = 44 then do
            let (k, rest) ← readKey rest
            let (v, rest) ← readValue ft n rest
            let (ms, rest) ← readMembersTail ft n rest
            some ((k, v) :: ms, rest)
          else none
end

/-- `parse` of a complete text. The length bounds the nesting. -/
def parse (ft : FloatText F) (bs : Bytes) : Option (Json F) :=
  match readValue ft bs.length bs with
  | some (j, []) => some j
  | _ => none

/-! ## The round trip -/

/-- The kinds of value whose text has no last character of its own. -/
def isNumber : Json F → Bool
  | .number_integer _ => true
  | .number_unsigned _ => true
  | .number_float _ => true
  | _ => false

mutual
/-- How deep the reader's calls go on the text of a document. -/
def weight : Json F → ℕ
  | .array xs => 1 + itemsWeight xs
  | .object ms => 1 + membersWeight ms
  | _ => 1

def itemsWeight : List (Json F) → ℕ
  | [] => 1
  | x :: xs => 1 + max (weight x) (itemsWeight xs)

def membersWeight : List (Bytes × Json F) → ℕ
  | [] => 1
  | (_, v) :: ms => 1 + max (weight v) (membersWeight ms)
end

theorem stops_of_head {b : UInt8} {bs : Bytes} (h : isNumberByte b = false) :
    Stops (b :: bs) := by
  intro c hc
  rw [List.head?_cons, Option.mem_some_iff] at hc
  rw [← hc, h]

theorem readWord_append (word : Bytes) (j : Json F) (rest : Bytes) :
    readWord word j (word ++ rest) = some (j, rest) := by
  rw [readWord, if_pos (by rw [List.take_left' rfl]), List.drop_left' rfl]

/-- A number token in front of a text that stops it is read as that number. Its
first character is none of the six characters that start another kind of value. -/
theorem readValue_number (ft : FloatText F) {t rest : Bytes} {j : Json F} {n : ℕ}
    (hne : t ≠ []) (ht : ∀ b ∈ t, isNumberByte b = true) (hr : Stops rest)
    (hj : readNumber ft t = some j) : readValue ft (n + 1) (t ++ rest) = some (j, rest) := by
  obtain ⟨b, bs, rfl⟩ := List.exists_cons_of_ne_nil hne
  have hb : isNumberByte b = true := ht b List.mem_cons_self
  have h34 : b ≠ 34 := by rintro rfl; exact absurd hb (by decide)
  have h91 : b ≠ 91 := by rintro rfl; exact absurd hb (by decide)
  have h123 : b ≠ 123 := by rintro rfl; exact absurd hb (by decide)
  have h110 : b ≠ 110 := by rintro rfl; exact absurd hb (by decide)
  have h116 : b ≠ 116 := by rintro rfl; exact absurd hb (by decide)
  have h102 : b ≠ 102 := by rintro rfl; exact absurd hb (by decide)
  obtain ⟨htake, hdrop⟩ := span_token ht hr
  rw [List.cons_append] at htake hdrop ⊢
  simp only [readValue, if_neg h34, if_neg h91, if_neg h123, if_neg h110, if_neg h116,
    if_neg h102, htake, hdrop, hj, Option.map_some]

theorem ne_nil_of_isFloatToken {t : Bytes} (h : isFloatToken t = true) : t ≠ [] := by
  rintro rfl
  exact absurd h (by decide)

theorem integerText_ne_nil (v : ℤ) : integerText v ≠ [] := by
  unfold integerText
  split_ifs
  · simp
  · exact decimal_ne_nil _

/-- A text starts with a character that no closing bracket is. -/
theorem text_head (ft : FloatText F) (j : Json F) : ∃ b bs, text ft j = b :: bs ∧ b ≠ 93 := by
  -- no character of a number is a bracket
  have hnum : ∀ t : Bytes, t ≠ [] → (∀ b ∈ t, isNumberByte b = true) →
      ∃ b bs, t = b :: bs ∧ b ≠ 93 := by
    intro t hne ht
    obtain ⟨b, bs, rfl⟩ := List.exists_cons_of_ne_nil hne
    refine ⟨b, bs, rfl, ?_⟩
    rintro rfl
    exact absurd (ht 93 List.mem_cons_self) (by decide)
  cases j with
  | null => exact ⟨110, [117, 108, 108], by simp only [text]; rfl, by decide⟩
  | boolean b => cases b <;> exact ⟨_, _, by simp only [text]; rfl, by decide⟩
  | number_integer v =>
      simp only [text]
      exact hnum _ (integerText_ne_nil v) (isNumberByte_integerText v)
  | number_unsigned v =>
      simp only [text]
      exact hnum _ (decimal_ne_nil v)
        (fun b hb => isNumberByte_of_isDigit (isDigit_decimal v b hb))
  | number_float f =>
      simp only [text]
      cases hw : ft.write f with
      | none => exact ⟨110, [117, 108, 108], rfl, by decide⟩
      | some t =>
          obtain ⟨ht, hfloat⟩ := ft.token f t hw
          exact hnum t (ne_nil_of_isFloatToken hfloat) ht
  | string s => exact ⟨34, quotedTail s, by simp only [text], by decide⟩
  | array xs => exact ⟨91, itemsText ft xs, by simp only [text], by decide⟩
  | object ms => exact ⟨123, membersText ft ms, by simp only [text], by decide⟩

theorem readKey_keyText (k rest : Bytes) : readKey (keyText k ++ rest) = some (k, rest) := by
  simp only [keyText, List.cons_append, List.append_assoc, List.nil_append, readKey, if_true,
    readChars_quotedTail k _ (58 :: rest) (quotedTail_length_lt k (58 :: rest)),
    Option.bind_eq_bind, Option.bind_some]

theorem keyText_head (k : Bytes) : ∃ bs, keyText k = 34 :: bs := ⟨_, rfl⟩

mutual
/-- **Reading the text of a document gives the document back**, up to what its
numbers become, and leaves what followed it. A number needs something behind it
that ends it; every other kind of value ends by itself. The induction follows
the document, one case per constructor. -/
theorem readValue_text (ft : FloatText F) (j : Json F) (n : ℕ) (rest : Bytes)
    (hn : weight j ≤ n) (hstop : isNumber j = true → Stops rest) :
    readValue ft n (text ft j ++ rest) = some (j.reread ft.reread, rest) := by
  obtain ⟨m, rfl⟩ : ∃ m, n = m + 1 :=
    ⟨n - 1, by cases j <;> simp only [weight] at hn <;> omega⟩
  cases j with
  | null => exact readWord_append (str "null") .null rest
  | boolean b =>
      cases b
      · exact readWord_append (str "false") (.boolean false) rest
      · exact readWord_append (str "true") (.boolean true) rest
  | number_integer v =>
      simp only [text]
      exact readValue_number ft (integerText_ne_nil v) (isNumberByte_integerText v) (hstop rfl)
        (readNumber_integerText ft ft.reread v)
  | number_unsigned v =>
      simp only [text, Json.reread]
      exact readValue_number ft (decimal_ne_nil v)
        (fun b hb => isNumberByte_of_isDigit (isDigit_decimal v b hb)) (hstop rfl)
        (readNumber_decimal ft v)
  | number_float f =>
      simp only [text, Json.reread, FloatText.reread]
      cases hw : ft.write f with
      | none => exact readWord_append (str "null") .null rest
      | some t =>
          obtain ⟨ht, hfloat⟩ := ft.token f t hw
          refine readValue_number ft (ne_nil_of_isFloatToken hfloat) ht (hstop rfl) ?_
          rw [Option.getD_some]
          simp only [readNumber, hfloat, if_true, ft.read_write f t hw, Option.map_some,
            Option.elim_some]
  | string s =>
      simp only [text, List.cons_append, readValue, if_true,
        readChars_quotedTail s _ rest (quotedTail_length_lt s rest), Option.map_some, Json.reread]
  | array xs =>
      simp only [weight] at hn
      -- the bracket is taken off, and the items are read one call deeper
      have h := readItems_text ft xs m rest (by omega)
      simp only [text, List.cons_append, readValue, Json.reread, h, Option.map_some,
        show (91 : UInt8) ≠ 34 by decide, if_false, if_true]
  | object ms =>
      simp only [weight] at hn
      have h := readMembers_text ft ms m rest (by omega)
      simp only [text, List.cons_append, readValue, Json.reread, h, Option.map_some,
        show (123 : UInt8) ≠ 34 by decide, show (123 : UInt8) ≠ 91 by decide, if_false, if_true]

theorem readItems_text (ft : FloatText F) (xs : List (Json F)) (n : ℕ) (rest : Bytes)
    (hn : itemsWeight xs ≤ n) :
    readItems ft n (itemsText ft xs ++ rest) = some (rereadItems ft.reread xs, rest) := by
  obtain ⟨m, rfl⟩ : ∃ m, n = m + 1 :=
    ⟨n - 1, by cases xs <;> simp only [itemsWeight] at hn <;> omega⟩
  cases xs with
  | nil => rfl
  | cons x xs =>
      simp only [itemsWeight] at hn
      have htail := readItemsTail_text ft xs m rest (by omega)
      have hhead := readValue_text ft x m (itemsTail ft xs ++ rest) (by omega)
        (fun _ => by cases xs <;> exact stops_of_head (by decide))
      -- an item does not start with `]`, so the list is not empty
      obtain ⟨b, bs, hb, hne⟩ := text_head ft x
      simp only [itemsText, List.append_assoc]
      rw [hb, List.cons_append] at hhead ⊢
      simp only [readItems, if_neg hne, hhead, htail, Option.bind_eq_bind, Option.bind_some,
        rereadItems]

theorem readItemsTail_text (ft : FloatText F) (xs : List (Json F)) (n : ℕ) (rest : Bytes)
    (hn : itemsWeight xs ≤ n) :
    readItemsTail ft n (itemsTail ft xs ++ rest) = some (rereadItems ft.reread xs, rest) := by
  obtain ⟨m, rfl⟩ : ∃ m, n = m + 1 :=
    ⟨n - 1, by cases xs <;> simp only [itemsWeight] at hn <;> omega⟩
  cases xs with
  | nil => rfl
  | cons x xs =>
      simp only [itemsWeight] at hn
      have htail := readItemsTail_text ft xs m rest (by omega)
      have hhead := readValue_text ft x m (itemsTail ft xs ++ rest) (by omega)
        (fun _ => by cases xs <;> exact stops_of_head (by decide))
      simp only [itemsTail, List.cons_append, List.append_assoc, readItemsTail,
        show (44 : UInt8) ≠ 93 by decide, if_false, if_true, hhead, htail, Option.bind_eq_bind,
        Option.bind_some, rereadItems]

theorem readMembers_text (ft : FloatText F) (ms : List (Bytes × Json F)) (n : ℕ) (rest : Bytes)
    (hn : membersWeight ms ≤ n) :
    readMembers ft n (membersText ft ms ++ rest) = some (rereadMembers ft.reread ms, rest) := by
  obtain ⟨m, rfl⟩ : ∃ m, n = m + 1 :=
    ⟨n - 1, by cases ms <;> simp only [membersWeight] at hn <;> omega⟩
  cases ms with
  | nil => rfl
  | cons kv ms =>
      obtain ⟨k, v⟩ := kv
      simp only [membersWeight] at hn
      have htail := readMembersTail_text ft ms m rest (by omega)
      have hhead := readValue_text ft v m (membersTail ft ms ++ rest) (by omega)
        (fun _ => by cases ms <;> exact stops_of_head (by decide))
      have hkey := readKey_keyText k (text ft v ++ (membersTail ft ms ++ rest))
      obtain ⟨bs, hbs⟩ := keyText_head k
      simp only [membersText, List.append_assoc]
      rw [hbs, List.cons_append] at hkey ⊢
      simp only [readMembers, show (34 : UInt8) ≠ 125 by decide, if_false, hkey, hhead, htail,
        Option.bind_eq_bind, Option.bind_some, rereadMembers]

theorem readMembersTail_text (ft : FloatText F) (ms : List (Bytes × Json F)) (n : ℕ)
    (rest : Bytes) (hn : membersWeight ms ≤ n) :
    readMembersTail ft n (membersTail ft ms ++ rest) = some (rereadMembers ft.reread ms, rest) := by
  obtain ⟨m, rfl⟩ : ∃ m, n = m + 1 :=
    ⟨n - 1, by cases ms <;> simp only [membersWeight] at hn <;> omega⟩
  cases ms with
  | nil => rfl
  | cons kv ms =>
      obtain ⟨k, v⟩ := kv
      simp only [membersWeight] at hn
      have htail := readMembersTail_text ft ms m rest (by omega)
      have hhead := readValue_text ft v m (membersTail ft ms ++ rest) (by omega)
        (fun _ => by cases ms <;> exact stops_of_head (by decide))
      have hkey := readKey_keyText k (text ft v ++ (membersTail ft ms ++ rest))
      simp only [membersTail, List.cons_append, List.append_assoc, readMembersTail,
        show (44 : UInt8) ≠ 125 by decide, if_false, if_true, hkey, hhead, htail,
        Option.bind_eq_bind, Option.bind_some, rereadMembers]
end

mutual
/-- The text is at least as long as the reader is deep, so its length is fuel enough. -/
theorem weight_le_length (ft : FloatText F) (j : Json F) : weight j ≤ (text ft j).length := by
  -- every text has a character, which pays for the call
  have hpos : 0 < (text ft j).length := by
    obtain ⟨b, bs, hb, -⟩ := text_head ft j
    rw [hb]
    exact Nat.succ_pos _
  cases j with
  | array xs =>
      have h := itemsWeight_le_text ft xs
      simp only [weight, text, List.length_cons]
      omega
  | object ms =>
      have h := membersWeight_le_text ft ms
      simp only [weight, text, List.length_cons]
      omega
  | _ =>
      simp only [weight]
      omega

theorem itemsWeight_le_text (ft : FloatText F) (xs : List (Json F)) :
    itemsWeight xs ≤ (itemsText ft xs).length := by
  cases xs with
  | nil => exact le_refl 1
  | cons x xs =>
      have hx := weight_le_length ft x
      have hxs := itemsWeight_le_tail ft xs
      have hpos : 1 ≤ weight x ∧ 1 ≤ itemsWeight xs :=
        ⟨by cases x <;> simp only [weight] <;> omega,
          by cases xs <;> simp only [itemsWeight] <;> omega⟩
      simp only [itemsWeight, itemsText, List.length_append]
      omega

theorem itemsWeight_le_tail (ft : FloatText F) (xs : List (Json F)) :
    itemsWeight xs ≤ (itemsTail ft xs).length := by
  cases xs with
  | nil => exact le_refl 1
  | cons x xs =>
      have hx := weight_le_length ft x
      have hxs := itemsWeight_le_tail ft xs
      simp only [itemsWeight, itemsTail, List.length_cons, List.length_append]
      omega

theorem membersWeight_le_text (ft : FloatText F) (ms : List (Bytes × Json F)) :
    membersWeight ms ≤ (membersText ft ms).length := by
  cases ms with
  | nil => exact le_refl 1
  | cons kv ms =>
      obtain ⟨k, v⟩ := kv
      have hv := weight_le_length ft v
      have hms := membersWeight_le_tail ft ms
      simp only [membersWeight, membersText, keyText, List.length_cons, List.length_append]
      omega

theorem membersWeight_le_tail (ft : FloatText F) (ms : List (Bytes × Json F)) :
    membersWeight ms ≤ (membersTail ft ms).length := by
  cases ms with
  | nil => exact le_refl 1
  | cons kv ms =>
      obtain ⟨k, v⟩ := kv
      have hv := weight_le_length ft v
      have hms := membersWeight_le_tail ft ms
      simp only [membersWeight, membersTail, List.length_cons, List.length_append]
      omega
end

/-- **Round trip of a whole text.** -/
theorem parse_text (ft : FloatText F) (j : Json F) :
    parse ft (text ft j) = some (j.reread ft.reread) := by
  have h := readValue_text ft j (text ft j).length [] (weight_le_length ft j)
    (fun _ b hb => by simp at hb)
  rw [List.append_nil] at h
  rw [parse, h]

end CmsProxy.JsonText
