/-
Codes whose words end by themselves.

A stream that is a concatenation of words, with nothing between them, can be
taken apart when no word is a prefix of another (`PrefixFree.uniquelyDecodable`).
The usual reason for that is a reader: something that takes one word off the
front of a text and is not misled by what follows (`Reads`). Both consequences of
having a reader are here, that the words are prefix-free, and that the reader,
called again and again, splits the stream into what was sent. A stream can also
break off within a word. A reader that refuses what is not a whole word
(`Reads.refuses`) then reads what was sent up to there, and nothing else
(`Reads.readWhile_flatten`).
-/
import Mathlib.Tactic
import Mathlib.InformationTheory.Coding.UniquelyDecodable

set_option autoImplicit false

namespace CmsProxy.PrefixCode

open InformationTheory (UniquelyDecodable)

section

variable {α : Type*} {S T : Set (List α)}

/-- No word is a proper prefix of another. -/
def PrefixFree (S : Set (List α)) : Prop := ∀ u ∈ S, ∀ v ∈ S, u <+: v → u = v

theorem PrefixFree.mono (h : PrefixFree T) (hST : S ⊆ T) : PrefixFree S :=
  fun u hu v hv => h u (hST hu) v (hST hv)

/-- Two words that start the same text are one word. -/
theorem PrefixFree.eq_of_append_eq (h : PrefixFree S) {u v s t : List α} (hu : u ∈ S)
    (hv : v ∈ S) (heq : u ++ s = v ++ t) : u = v := by
  have hus : u <+: u ++ s := List.prefix_append u s
  have hvs : v <+: u ++ s := heq ▸ List.prefix_append v t
  -- of two prefixes of one text, one is a prefix of the other
  rcases List.prefix_or_prefix_of_prefix hus hvs with huv | hvu
  · exact h u hu v hv huv
  · exact (h v hv u hu hvu).symm

/-- **Unique decoding.** A concatenation of words has one reading only. -/
theorem PrefixFree.uniquelyDecodable (h : PrefixFree S) (hnil : [] ∉ S) :
    UniquelyDecodable S := by
  intro us
  induction us with
  | nil =>
      intro vs _ hvs heq
      cases vs with
      | nil => rfl
      | cons v vs =>
          -- a first word would leave something in the empty text
          have hv : v = [] := (List.append_eq_nil_iff.mp heq.symm).1
          exact absurd (hv ▸ hvs v List.mem_cons_self) hnil
  | cons u us ih =>
      intro vs hus hvs heq
      have hu := hus u List.mem_cons_self
      cases vs with
      | nil =>
          have hu' : u = [] := (List.append_eq_nil_iff.mp heq).1
          exact absurd (hu' ▸ hu) hnil
      | cons v vs =>
          rw [List.flatten_cons, List.flatten_cons] at heq
          obtain rfl := h.eq_of_append_eq hu (hvs v List.mem_cons_self) heq
          have htail := ih vs (fun w hw => hus w (List.mem_cons_of_mem _ hw))
            (fun w hw => hvs w (List.mem_cons_of_mem _ hw)) (List.append_cancel_left heq)
          rw [htail]

end

section

variable {α β γ : Type*}

/-- `read` takes the word of any `b` in `B` off the front of a text, says what it
stands for, and leaves what followed. -/
def Reads (read : List α → Option (γ × List α)) (B : Set β) (code : β → List α)
    (value : β → γ) : Prop :=
  ∀ b ∈ B, ∀ rest, read (code b ++ rest) = some (value b, rest)

/-- Reading a stream: word after word, until nothing is left. -/
def readAll (read : List α → Option (γ × List α)) : ℕ → List α → Option (List γ)
  | _, [] => some []
  | 0, _ :: _ => none
  | n + 1, a :: as =>
      (read (a :: as)).bind fun r => (readAll read n r.2).map fun xs => r.1 :: xs

variable {read : List α → Option (γ × List α)} {B : Set β} {code : β → List α} {value : β → γ}

/-- What a reader can read is prefix-free: it stops at the end of the shorter
word, and leaves nothing of the longer one. -/
theorem Reads.prefixFree (h : Reads read B code value) : PrefixFree (code '' B) := by
  rintro _ ⟨b, hb, rfl⟩ _ ⟨c, hc, rfl⟩ ⟨rest, hrest⟩
  have hlong := h c hc []
  rw [List.append_nil, ← hrest, h b hb rest] at hlong
  have hnothing : rest = [] := congrArg Prod.snd (Option.some.inj hlong)
  rw [← hrest, hnothing, List.append_nil]

/-- **Splitting.** The reader splits a stream of words into what they stand for. -/
theorem Reads.readAll_flatten (h : Reads read B code value) (hne : ∀ b ∈ B, code b ≠ [])
    {bs : List β} (hbs : ∀ b ∈ bs, b ∈ B) {n : ℕ} (hn : bs.length ≤ n) :
    readAll read n (bs.map code).flatten = some (bs.map value) := by
  induction bs generalizing n with
  | nil => cases n <;> rfl
  | cons b bs ih =>
      have hb := hbs b List.mem_cons_self
      obtain ⟨m, rfl⟩ : ∃ m, n = m + 1 :=
        ⟨n - 1, by rw [List.length_cons] at hn; omega⟩
      have hrest := @ih (fun c hc => hbs c (List.mem_cons_of_mem _ hc)) m
        (Nat.le_of_succ_le_succ hn)
      have hword := h b hb (bs.map code).flatten
      rw [List.map_cons, List.flatten_cons, List.map_cons]
      -- a word is not empty, so there is something to read
      obtain ⟨a, as, hcode⟩ := List.exists_cons_of_ne_nil (hne b hb)
      rw [hcode, List.cons_append] at hword ⊢
      rw [readAll, hword]
      simp only [Option.bind_some, hrest, Option.map_some]

/-! ## Streams that break off -/

/-- Reading for as long as there is a word: what was read, and what is left. -/
def readWhile (read : List α → Option (γ × List α)) : ℕ → List α → List γ × List α
  | 0, as => ([], as)
  | n + 1, as =>
      match read as with
      | none => ([], as)
      | some r => (r.1 :: (readWhile read n r.2).1, (readWhile read n r.2).2)

/-- A part of a word is not read, if what is read of a text stays the same when more
of the text arrives. -/
theorem Reads.refuses (h : Reads read B code value) {b : β} (hb : b ∈ B) {as rest : List α}
    (hcode : as ++ rest = code b) (hrest : rest ≠ [])
    (hextends : ∀ r, read as = some r → read (as ++ rest) = some (r.1, r.2 ++ rest)) :
    read as = none := by
  cases hread : read as with
  | none => rfl
  | some r =>
      -- the whole word leaves nothing, so neither does its part
      have hwhole := h b hb []
      rw [List.append_nil, ← hcode, hextends r hread] at hwhole
      have hnothing : r.2 ++ rest = [] := congrArg Prod.snd (Option.some.inj hwhole)
      exact absurd (List.append_eq_nil_iff.mp hnothing).2 hrest

/-- **Broken streams.** Of words and a text that is not read the reader reads the
words, and leaves the text. -/
theorem Reads.readWhile_flatten (h : Reads read B code value) {bs : List β} (hbs : ∀ b ∈ bs, b ∈ B)
    {tail : List α} (htail : read tail = none) {n : ℕ} (hn : bs.length ≤ n) :
    readWhile read n ((bs.map code).flatten ++ tail) = (bs.map value, tail) := by
  induction bs generalizing n with
  | nil =>
      cases n with
      | zero => rfl
      | succ n =>
          rw [List.map_nil, List.flatten_nil, List.nil_append, readWhile, htail]
          rfl
  | cons b bs ih =>
      obtain ⟨hb, hbs⟩ := List.forall_mem_cons.mp hbs
      obtain ⟨m, rfl⟩ : ∃ m, n = m + 1 :=
        ⟨n - 1, by rw [List.length_cons] at hn; omega⟩
      have hrest := @ih hbs m (Nat.le_of_succ_le_succ hn)
      rw [List.map_cons, List.flatten_cons, List.append_assoc, readWhile, h b hb]
      simp only [hrest, List.map_cons]

end

end CmsProxy.PrefixCode
